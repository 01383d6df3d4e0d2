import EntityQuery.Proofs.Walk
/-!
A fetch of one match against a fetch of all and a count. They agree on the number of roots, however many
rows the joins make of a single root.
-/
namespace EntityQuery

/-- The member of a list that has no other. -/
def only? {α : Type} : List α → Option α
  | [x] => some x
  | _ => none

theorem isSome_only?_iff {α : Type} (xs : List α) : (only? xs).isSome ↔ xs.length = 1 := by
  rcases xs with _ | ⟨x, _ | ⟨y, ys⟩⟩ <;> simp [only?]

theorem only?_of_length_ne {α : Type} {xs : List α} (h : xs.length ≠ 1) : only? xs = none := by
  rw [← Option.not_isSome_iff_eq_none, isSome_only?_iff]
  exact h

namespace Repository

variable {s : Schema} {db : Database} {r : Repository} {d : Descriptor} {p : Plan} {o : Outline}

/-- Where all roots become items, the single result is the item of the only root. -/
theorem readOne_of_hydrate {h : Hydration} {roots : List EntityKey} {g : Graph} {items : List Item}
    (hload : load s db p o = .ok (roots, g)) (hitems : hydrate db p h g roots = .ok items) :
    readOne s db p h o = .ok (.single (only? items)) := by
  have hlength := hydrate_length hitems
  unfold readOne
  rw [hload]
  simp only [bind, Except.bind]
  rcases roots with _ | ⟨key, _ | ⟨k, ks⟩⟩
  · rw [only?_of_length_ne (by simp [hlength])]
  · simp only [hitems]
    obtain ⟨x, rfl⟩ := List.length_eq_one_iff.mp hlength
    rfl
  · rw [only?_of_length_ne (by simp [hlength])]

theorem readOne_eq_ok {h : Hydration} {fetched : Fetched} (hr : readOne s db p h o = .ok fetched) :
    ∃ roots g item, load s db p o = .ok (roots, g) ∧ fetched = .single item ∧
      (item.isSome ↔ roots.length = 1) ∧
      ∀ x, item = some x → hydrate db p h g roots = .ok [x] := by
  obtain ⟨⟨roots, g⟩, hload, hr⟩ := ok_of_bind hr
  rcases roots with _ | ⟨key, _ | ⟨k, ks⟩⟩
  · exact ⟨_, g, none, hload, (Except.ok.inj hr).symm, by simp, nofun⟩
  · obtain ⟨items, hitems, hr⟩ := ok_of_bind hr
    obtain ⟨x, rfl⟩ := List.length_eq_one_iff.mp (hydrate_length hitems)
    refine ⟨_, g, some x, hload, (Except.ok.inj hr).symm, by simp, fun y hy => ?_⟩
    rw [hitems, Option.some.inj hy]
  · exact ⟨_, g, none, hload, (Except.ok.inj hr).symm, by simp, nofun⟩

/-- A fetch of one match that does not ask for a cache. -/
theorem fetchOne_of_readOne (hcache : d.cache = none) (hp : planOf s r d = .ok p)
    (ho : p.outline = .ok o) {item : Option Item}
    (h : readOne s db p d.hydration o = .ok (.single item)) :
    (run r (fetchOne s db (.descriptor d))).1 = .ok item := by
  have hanswer : (run r (fetchOne s db (.descriptor d))).1 = (answerOne s db r d).1 :=
    (outcome_fetchOne s db d ⟨r, []⟩).answer
  rw [hanswer]
  unfold answerOne
  simp only [hp, ho, readThrough, hcache, h]
  rfl

/-- The stages of a fetch of one match that succeeds. -/
theorem fetchOne_eq_ok (hf : r.ReadsAfresh d) {x : Option Item}
    (h : (run r (fetchOne s db (.descriptor d))).1 = .ok x) :
    ∃ p o roots g, planOf s r d = .ok p ∧ p.outline = .ok o ∧ load s db p o = .ok (roots, g) ∧
      (x.isSome ↔ roots.length = 1) ∧
      ∀ item, x = some item → hydrate db p d.hydration g roots = .ok [item] := by
  have ha : (answerOne s db r d).1 = .ok x := (outcome_fetchOne s db d ⟨r, []⟩).answer.symm.trans h
  unfold answerOne at ha
  cases hp : planOf s r d with
  | error e =>
    rw [hp] at ha
    cases ha
  | ok p =>
    rw [hp] at ha
    cases ho : p.outline with
    | error e =>
      simp only [ho] at ha
      cases ha
    | ok o =>
      simp only [ho] at ha
      obtain ⟨fetched, hfetched, rfl⟩ := ok_of_map ha
      obtain ⟨roots, g, item, hload, rfl, hitem⟩ := readOne_eq_ok (readThrough_eq_ok hf hfetched)
      exact ⟨p, o, roots, g, rfl, ho, hload, hitem⟩

theorem count_of_countRows (hp : planOf s r d = .ok p) {n : Nat} (hn : countRows s db p = .ok n) :
    (run r (count s db (.descriptor d))).1 = .ok n := by
  have hcount : answerCount s db r d = countRows s db p := by
    unfold answerCount
    rw [hp]
    rfl
  exact (outcome_count s db d ⟨r, []⟩).answer.trans (hcount.trans hn)

/-- A fetch of one match answers the only item of a fetch of all, whether it is bounded or not. -/
theorem fetchOne_of_fetchAll (hindex : d.indexBy = none) (hcache : d.cache = none)
    (hpage : d.countAvailableRows = false) {a : Answer}
    (h : (run r (fetchAll s db (.descriptor d))).1 = .ok a) :
    ∃ items, a = .plain (.list items) ∧
      (run r (fetchOne s db (.descriptor d))).1 = .ok (only? items) := by
  obtain ⟨p, o, roots, g, fetched, hp, ho, hload, hshape, hend⟩ :=
    fetchAll_eq_ok (readsAfresh_of_uncached hcache) h
  have hplain : a = .plain fetched := by
    rcases hend with ⟨-, h⟩ | ⟨h, -⟩
    · exact h
    · rw [hpage] at h
      cases h
  obtain ⟨items, rfl, hitems⟩ :=
    shape_eq_ok ((Plan.build_frame hp).2.2.2.1.trans hindex) hshape
  exact ⟨items, hplain, fetchOne_of_readOne hcache hp ho (readOne_of_hydrate hload hitems)⟩

/-- A fetch of one match without bounds answers an item exactly if the count is one. -/
theorem count_of_fetchOne (hs : s.WellFormed) (hdb : db.Sound s)
    (hroot : r.builder.root ∈ s.entities) (hd : d.DistinctAliases r.builder.root)
    (hf : r.ReadsAfresh d) (hlimit : d.limit = none) (hoffset : d.offset = none)
    {x : Option Item} (h : (run r (fetchOne s db (.descriptor d))).1 = .ok x) :
    ∃ n, (run r (count s db (.descriptor d))).1 = .ok n ∧ (x.isSome ↔ n = 1) := by
  obtain ⟨p, o, roots, g, hp, ho, hload, hitem, -⟩ := fetchOne_eq_ok hf h
  obtain ⟨hproot, hplimit, hpoffset, -, -⟩ := Plan.build_frame hp
  have hj := (outline_eq_ok ho).1
  have hst := (Plan.resolveJoins_eq_ok (Plan.layout_build hd hp) hj).1
  have hn : countRows s db p = .ok ((p.matched db o.1).map p.rootKey).eraseDups.length :=
    exists_countRows hst hj hload
  have hroots : roots.length = ((p.matched db o.1).map p.rootKey).eraseDups.length := by
    rw [load_roots hs hdb (hproot.symm ▸ hroot) hst hload, hplimit, hpoffset, hlimit, hoffset,
      within_none, length_eraseDups_sorted]
  exact ⟨_, count_of_countRows hp hn, hroots ▸ hitem⟩

/-- Fetches of one and of all matches and counts agree. -/
theorem fetchOne_agrees (hs : s.WellFormed) (hdb : db.Sound s)
    (hroot : r.builder.root ∈ s.entities) (hindex : d.indexBy = none) (hcache : d.cache = none)
    (hpage : d.countAvailableRows = false) :
    (∀ a, (run r (fetchAll s db (.descriptor d))).1 = .ok a →
      ∃ items, a = .plain (.list items) ∧
        (∀ x, items = [x] → (run r (fetchOne s db (.descriptor d))).1 = .ok (some x)) ∧
        (items.length ≠ 1 → (run r (fetchOne s db (.descriptor d))).1 = .ok none)) ∧
    (d.limit = none → d.offset = none → d.DistinctAliases r.builder.root →
      ∀ x, (run r (fetchOne s db (.descriptor d))).1 = .ok x →
        ∃ n, (run r (count s db (.descriptor d))).1 = .ok n ∧ (x ≠ none ↔ n = 1)) := by
  refine ⟨fun a ha => ?_, fun hlimit hoffset hd x hx => ?_⟩
  · obtain ⟨items, hitems, hone⟩ := fetchOne_of_fetchAll hindex hcache hpage ha
    refine ⟨items, hitems, ?_, fun hne => ?_⟩
    · rintro x rfl
      exact hone
    · rw [hone, only?_of_length_ne hne]
  · obtain ⟨n, hn, hiff⟩ := count_of_fetchOne hs hdb hroot hd (readsAfresh_of_uncached hcache) hlimit
      hoffset hx
    exact ⟨n, hn, by rw [← hiff, Option.isSome_iff_ne_none]⟩

/-- One article, with its two comments and their authors. -/
def discussedArticle : Descriptor where
  parameters := .ofList [("id", .integer 1)]
  relations := .ofList [("comments", {}), ("comments.author", {})]

theorem fetchOne_discussedArticle :
    ∃ x, (run (ofRoot Model.Blog.article)
        (fetchAll Model.sample Model.sampleRows (.descriptor discussedArticle))).1 =
          .ok (.plain (.list [x])) ∧
      (run (ofRoot Model.Blog.article)
        (fetchOne Model.sample Model.sampleRows (.descriptor discussedArticle))).1 = .ok (some x) ∧
      (run (ofRoot Model.Blog.article)
        (count Model.sample Model.sampleRows (.descriptor discussedArticle))).1 = .ok 1 := by
  have hread : (readUnsorted Model.sample Model.sampleRows (ofRoot Model.Blog.article)
      discussedArticle).toOption.isSome = true := by decide +kernel
  obtain ⟨fetched, hfetched⟩ := exists_ok_of_toOption hread
  have hall : (run (ofRoot Model.Blog.article)
      (fetchAll Model.sample Model.sampleRows (.descriptor discussedArticle))).1 =
        .ok (.plain fetched) := by
    rw [fetchAll_unsorted _ _ _ rfl rfl rfl, hfetched]
    rfl
  have hcount : (run (ofRoot Model.Blog.article)
      (count Model.sample Model.sampleRows (.descriptor discussedArticle))).1 = .ok 1 := by
    rw [count_unsorted]
    exact eq_ok_of_toOption (by decide +kernel)
  obtain ⟨hone, hnumber⟩ := fetchOne_agrees sample_wellFormed sampleRows_sound
    (r := ofRoot Model.Blog.article) (d := discussedArticle) (by decide) rfl rfl rfl
  obtain ⟨items, hitems, hsingle, hnone⟩ := hone _ hall
  obtain rfl := Answer.plain.inj hitems
  by_cases hlength : items.length = 1
  · obtain ⟨x, rfl⟩ := List.length_eq_one_iff.mp hlength
    exact ⟨x, hall, hsingle x rfl, hcount⟩
  · obtain ⟨n, hn, hiff⟩ := hnumber rfl rfl (by decide +kernel) none (hnone hlength)
    cases hcount.symm.trans hn
    exact absurd rfl (hiff.mpr rfl)

end Repository
end EntityQuery
