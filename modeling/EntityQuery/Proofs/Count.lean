import EntityQuery.Proofs.Bounds
import EntityQuery.Proofs.Matches
import EntityQuery.Proofs.Unsorted
/-!
Counts and fetches agree: a count answers with the number of roots that a fetch of all matches
lists, and this is the total of a page.
-/
namespace EntityQuery.Repository

variable {s : Schema} {db : Database} {r : Repository} {d : Descriptor}

/-- Rows in another order have as many distinct roots. -/
theorem length_eraseDups_sorted {α : Type} [BEq α] [LawfulBEq α] {p : Plan}
    {js : List Plan.ResolvedJoin} {order : List (ColumnRef × Direction)} (f : JoinedRow → α) :
    ((p.sorted db js order).map f).eraseDups.length =
      ((p.matched db js).map f).eraseDups.length :=
  length_eraseDups_eq id Function.injective_id fun y => by simp [Plan.mem_sorted]

/-- Plans with the same joins and conditions count alike. -/
theorem countRows_congr {p q : Plan} (h : q.JoinsAs p) (hconditions : q.conditions = p.conditions) :
    countRows s db q = countRows s db p := by
  unfold countRows Plan.keySelection Plan.assembleKeys
  rw [h.resolveJoins, h.root, hconditions]

/-- A count is the number of roots among the matches of the plan. -/
theorem count_matched (hd : d.DistinctAliases r.builder.root) {n : Nat}
    (h : (run r (count s db (.descriptor d))).1 = .ok n) :
    ∃ p js, planOf s r d = .ok p ∧ p.resolveJoins = .ok js ∧ p.Staged s 0 js ∧
      n = ((p.matched db js).map p.rootKey).eraseDups.length := by
  obtain ⟨p, hp, hn⟩ := count_eq_ok h
  obtain ⟨keys, hkeys, -⟩ := ok_of_bind hn
  obtain ⟨js, hj, -⟩ := ok_of_bind hkeys
  have hst := (Plan.resolveJoins_eq_ok (Plan.layout_build hd hp) hj).1
  exact ⟨p, js, hp, hj, hst, countRows_eq_ok hj hst hn⟩

/-- A fetch of all matches in a list gives one item for each distinct root among the matches. -/
theorem fetchAll_unbounded_eq_ok (hs : s.WellFormed) (hdb : db.Sound s)
    (hroot : r.builder.root ∈ s.entities) (hf : r.ReadsAfresh d) {p : Plan}
    {js : List Plan.ResolvedJoin} (hp : planOf s r d = .ok p) (hj : p.resolveJoins = .ok js)
    (hst : p.Staged s 0 js) {a : Answer}
    (h : (run r (fetchAll s db (.descriptor d.unbounded))).1 = .ok a) :
    ∃ items, a = .plain (.list items) ∧
      items.length = ((p.matched db js).map p.rootKey).eraseDups.length := by
  have hfresh : r.ReadsAfresh d.unbounded := hf
  obtain ⟨q, o, roots, g, fetched, hq, ho, hload, hshape, hend⟩ := fetchAll_eq_ok hfresh h
  have hqp : q = p.bounded none none :=
    Except.ok.inj (hq.symm.trans (Plan.build_bounded none none hp))
  subst hqp
  have hoj : o.1 = js := by
    have := (outline_eq_ok ho).1
    rw [Plan.resolveJoins_bounded, hj] at this
    exact (Except.ok.inj this).symm
  subst hoj
  obtain ⟨items, rfl, hitems⟩ := shape_eq_ok rfl hshape
  have hplain : a = .plain (.list items) := by
    rcases hend with ⟨-, h⟩ | ⟨h, -⟩
    · exact h
    · cases h
  have hmem : (p.bounded none none).root ∈ s.entities := by
    rw [show (p.bounded none none).root = p.root from rfl, (Plan.build_frame hp).1]
    exact hroot
  have hroots := load_roots hs hdb hmem (Plan.staged_bounded none none hst) hload
  refine ⟨items, hplain, ?_⟩
  rw [hydrate_length hitems, hroots]
  exact length_eraseDups_sorted _

/-- A count is the number of roots in a fetch of all matches, and the total of a page. -/
theorem count_eq_length_fetchAll (hs : s.WellFormed) (hdb : db.Sound s)
    (hroot : r.builder.root ∈ s.entities) (hd : d.DistinctAliases r.builder.root)
    (hf : r.ReadsAfresh d) {n : Nat} (h : (run r (count s db (.descriptor d))).1 = .ok n) :
    (∀ a, (run r (fetchAll s db (.descriptor d.unbounded))).1 = .ok a →
      ∃ items, a = .plain (.list items) ∧ items.length = n) ∧
    ∀ a, (run r (fetchAll s db (.descriptor d.asPage))).1 = .ok a →
      ∃ page, a = .page page ∧ page.total = n := by
  obtain ⟨p, js, hp, hj, hst, hn⟩ := count_matched hd h
  refine ⟨fun a ha => ?_, fun a ha => ?_⟩
  · rw [hn]
    exact fetchAll_unbounded_eq_ok hs hdb hroot hf hp hj hst ha
  · obtain ⟨q, o, roots, g, fetched, hq, ho, -, -, hend⟩ :=
      fetchAll_eq_ok (readsAfresh_of_uncached rfl) ha
    have hqp : q = p := Except.ok.inj (hq.symm.trans hp)
    subst hqp
    rcases hend with ⟨h, -⟩ | ⟨-, total, htotal, rfl⟩
    · cases h
    · have := countRows_eq_ok hj hst htotal
      exact ⟨_, rfl, by rw [hn, this]⟩

/-- A page of one product with order lines, joined with its tags and with the lines twice over. -/
def orderedProducts : Descriptor where
  relations := .ofList
    [("tags", {}), ("lines", { joinType := .inner }), ("lines.product", { joinAlias := some "p" })]
  limit := some 1

theorem count_orderedProducts :
    (run (ofRoot Model.Shop.product)
      (count Model.sample Model.sampleRows (.descriptor orderedProducts))).1 = .ok 2 := by
  rw [count_unsorted]
  exact eq_ok_of_toOption (by decide +kernel)

theorem length_fetchAll_orderedProducts :
    ∃ items, (run (ofRoot Model.Shop.product)
      (fetchAll Model.sample Model.sampleRows (.descriptor orderedProducts.unbounded))).1 =
        .ok (.plain (.list items)) ∧ items.length = 2 := by
  have hread : (readUnsorted Model.sample Model.sampleRows (ofRoot Model.Shop.product)
      orderedProducts.unbounded).toOption.isSome = true := by decide +kernel
  obtain ⟨fetched, hfetched⟩ := exists_ok_of_toOption hread
  have hrun : (run (ofRoot Model.Shop.product)
      (fetchAll Model.sample Model.sampleRows (.descriptor orderedProducts.unbounded))).1 =
        .ok (.plain fetched) := by
    rw [fetchAll_unsorted _ _ _ rfl rfl rfl, hfetched]
    rfl
  obtain ⟨items, hitems, hn⟩ := (count_eq_length_fetchAll sample_wellFormed sampleRows_sound
    (by decide) (by decide +kernel) (readsAfresh_of_uncached rfl) count_orderedProducts).1 _ hrun
  exact ⟨items, by rw [hrun, hitems], hn⟩

end EntityQuery.Repository
