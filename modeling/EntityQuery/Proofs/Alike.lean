import EntityQuery.Proofs.SomeRows
import EntityQuery.Proofs.StoredNodes
/-!
Rows that bring entities alike. A row changes an entity in the same way in all graphs that hold the same
of it, and along references to single entities nothing is left to change when it is loaded again. So
where rows bring their entities alike, their graph holds each entity as any row brings it alone.
-/
namespace EntityQuery

/-- Two loaded entities show the same. -/
structure Node.Like (n m : Node) : Prop where
  entity : n.entity = m.entity
  columns : ∀ field, n.column? field = m.column? field
  references : ∀ name, n.reference? name = m.reference? name

theorem Node.Like.refl (n : Node) : n.Like n := ⟨rfl, fun _ => rfl, fun _ => rfl⟩

theorem Node.Like.symm {n m : Node} (h : n.Like m) : m.Like n :=
  ⟨h.entity.symm, fun f => (h.columns f).symm, fun name => (h.references name).symm⟩

theorem Node.Like.trans {n m k : Node} (h : n.Like m) (h' : m.Like k) : n.Like k :=
  ⟨h.entity.trans h'.entity, fun f => (h.columns f).trans (h'.columns f),
    fun name => (h.references name).trans (h'.references name)⟩

namespace Graph

variable {g h : Graph} {key x : EntityKey} {isNew other : Bool} {q : Relationship}
  {target : Option EntityKey}

theorem node?_modify_ne (hx : x ≠ key) {f : Node → Node} (hf : ∀ n, (f n).key = n.key) :
    (g.modify key f).node? x = g.node? x := by
  rw [node?_modify g key x hf, if_neg hx]

theorem node?_add_ne {n : Node} (hx : x ≠ n.key) : (g.add n).node? x = g.node? x := by
  rw [node?_add, if_neg hx.symm, Option.or_none]

theorem node?_modify_congr (hx : g.node? x = h.node? x) {f f' : Node → Node}
    (hf : ∀ n, (f n).key = n.key) (hf' : ∀ n, (f' n).key = n.key) (hff : x = key → f = f') :
    (g.modify key f).node? x = (h.modify key f').node? x := by
  rw [node?_modify g key x hf, node?_modify h key x hf', hx]
  split
  · rename_i hk
    rw [hff hk]
  · rfl

theorem node?_opened_congr (hx : g.node? x = h.node? x) (hnew : x = key → isNew = other) :
    (g.opened key isNew q).node? x = (h.opened key other q).node? x := by
  by_cases hk : x = key
  · cases hnew hk
    unfold opened
    split
    · exact node?_modify_congr hx (fun _ => rfl) (fun _ => rfl) fun _ => rfl
    · exact hx
  · have hne : ∀ (i : Graph) (b : Bool), (i.opened key b q).node? x = i.node? x := fun i b => by
      unfold opened
      split
      · exact node?_modify_ne hk fun _ => rfl
      · rfl
    rw [hne, hne, hx]

theorem node?_placed_congr (hx : g.node? x = h.node? x) (hnew : x = key → isNew = other) :
    (g.placed key isNew q target).node? x = (h.placed key other q target).node? x :=
  node?_modify_congr hx (fun _ => rfl) (fun _ => rfl) fun hk => by rw [hnew hk]

theorem has_congr (hx : g.node? x = h.node? x) : g.Has x ↔ h.Has x := by
  unfold Has
  rw [hx]

/-- Two graphs show the same of an entity. -/
def SameAt (x : EntityKey) (g h : Graph) : Prop :=
  g.node? x = h.node? x ∨ ∃ n m, g.node? x = some n ∧ h.node? x = some m ∧ n.Like m

theorem SameAt.refl (x : EntityKey) (g : Graph) : SameAt x g g := .inl rfl

theorem SameAt.trans {i : Graph} (hg : SameAt x g h) (hh : SameAt x h i) : SameAt x g i := by
  rcases hg with hg | ⟨n, m, hn, hm, hlike⟩
  · rcases hh with hh | ⟨n, m, hn, hm, hlike⟩
    · exact .inl (hg.trans hh)
    · exact .inr ⟨n, m, hg.trans hn, hm, hlike⟩
  · rcases hh with hh | ⟨m', k, hm', hk, hlike'⟩
    · exact .inr ⟨n, m, hn, hh.symm.trans hm, hlike⟩
    · cases hm.symm.trans hm'
      exact .inr ⟨n, k, hn, hk, hlike.trans hlike'⟩

theorem SameAt.exists_node {n : Node} (hs : SameAt x g h) (hn : g.node? x = some n) :
    ∃ m, h.node? x = some m ∧ n.Like m := by
  rcases hs with hs | ⟨n', m, hn', hm, hlike⟩
  · exact ⟨n, hs.symm.trans hn, .refl n⟩
  · cases hn.symm.trans hn'
    exact ⟨m, hm, hlike⟩

theorem sameAt_modify {f : Node → Node} (hf : ∀ n, (f n).key = n.key)
    (h : x = key → ∀ n, g.node? key = some n → n.Like (f n)) : SameAt x g (g.modify key f) := by
  by_cases hx : x = key
  · subst hx
    cases hn : g.node? x with
    | none => exact .inl (by rw [node?_modify g x x hf, if_pos rfl, hn]; rfl)
    | some n => exact .inr ⟨n, f n, hn, by rw [node?_modify g x x hf, if_pos rfl, hn]; rfl, h rfl n hn⟩
  · exact .inl (node?_modify_ne hx hf).symm

end Graph

namespace LoadTree

variable {s : Schema} {row : JoinedRow} {x : EntityKey}

mutual

/-- A row changes an entity in the same way in all graphs that hold the same of it. -/
theorem load_local {t : LoadTree} {g g' h h' : Graph} {key key' : Option EntityKey}
    (hx : g.node? x = g'.node? x) (hl : t.load s row g = .ok (key, h))
    (hl' : t.load s row g' = .ok (key', h')) : h.node? x = h'.node? x := by
  obtain ⟨o, fields, cs⟩ := t
  rcases load_eq_ok hl with ⟨hk, -, rfl⟩ | ⟨k, hk, -, hcase⟩
  · rcases load_eq_ok hl' with ⟨-, -, rfl⟩ | ⟨k', hk', -⟩
    · exact hx
    · cases hk.symm.trans hk'
  · rcases load_eq_ok hl' with ⟨hk', -⟩ | ⟨k', hk', -, hcase'⟩
    · cases hk.symm.trans hk'
    cases hk.symm.trans hk'
    have hhas : x = k → (g.Has k ↔ g'.Has k) := fun e => e ▸ Graph.has_congr hx
    have hold : ∀ i : Graph, x ≠ k →
        (i.modify k (·.addColumns (row.shownAt o fields))).node? x = i.node? x := fun i e =>
      Graph.node?_modify_ne e fun _ => rfl
    have hadded : ∀ (i : Graph) (m : Entity), x ≠ k →
        (i.add ⟨k, m, row.shownAt o fields, []⟩).node? x = i.node? x := fun i m e =>
      Graph.node?_add_ne e
    -- at another entity nothing happens here, whether this one is new or not
    rcases hcase with ⟨hg, hbelow⟩ | ⟨m, hg, hm, hbelow⟩ <;>
      rcases hcase' with ⟨hg', hbelow'⟩ | ⟨m', hg', hm', hbelow'⟩
    · refine loadBelow_local ?_ (fun _ => rfl) hbelow hbelow'
      exact Graph.node?_modify_congr hx (fun _ => rfl) (fun _ => rfl) fun _ => rfl
    · have hne : x ≠ k := fun e => hg' ((hhas e).mp hg)
      exact loadBelow_local ((hold g hne).trans (hx.trans (hadded g' m' hne).symm))
        (fun e => absurd e hne) hbelow hbelow'
    · have hne : x ≠ k := fun e => hg ((hhas e).mpr hg')
      exact loadBelow_local ((hadded g m hne).trans (hx.trans (hold g' hne).symm))
        (fun e => absurd e hne) hbelow hbelow'
    · cases hm.symm.trans hm'
      refine loadBelow_local ?_ (fun _ => rfl) hbelow hbelow'
      rw [Graph.node?_add, Graph.node?_add, hx]

theorem loadBelow_local {cs : List (Relationship × LoadTree)} {k : EntityKey} {isNew other : Bool}
    {g g' h h' : Graph} (hx : g.node? x = g'.node? x) (hnew : x = k → isNew = other)
    (hl : loadBelow s row k isNew g cs = .ok h) (hl' : loadBelow s row k other g' cs = .ok h') :
    h.node? x = h'.node? x := by
  cases cs with
  | nil =>
    cases hl
    cases hl'
    exact hx
  | cons c rest =>
    obtain ⟨q, t⟩ := c
    obtain ⟨i, hi, hrest⟩ := loadBelow_cons_eq_ok hl
    obtain ⟨i', hi', hrest'⟩ := loadBelow_cons_eq_ok hl'
    exact loadBelow_local
      (Graph.node?_placed_congr (load_local (Graph.node?_opened_congr hx hnew) hi hi') hnew) hnew
      hrest hrest'

end

mutual

/-- Nothing is left to load from a row into an entity, of which `n?` is known: all fields that the row
shows are loaded, and all references to single entities that it follows. -/
def Settled (row : JoinedRow) (x : EntityKey) (n? : Option Node) : LoadTree → Prop
  | node o fields cs => ∀ k, row.keyAt o = some k →
    (k = x → ∃ n, n? = some n ∧
      ∀ field, (List.lookup field (row.shownAt o fields)).isSome = true →
        (n.column? field).isSome = true) ∧
      SettledBelow row x n? k cs

def SettledBelow (row : JoinedRow) (x : EntityKey) (n? : Option Node) (key : EntityKey) :
    List (Relationship × LoadTree) → Prop
  | [] => True
  | (q, t) :: rest =>
    (key = x → ∃ n target, n? = some n ∧ n.reference? q.name = some (.one target)) ∧
      Settled row x n? t ∧ SettledBelow row x n? key rest

end

end LoadTree

/-- Whatever is loaded of an entity is loaded of another one as well. -/
def Node.Extends (n? m? : Option Node) : Prop :=
  ∀ n, n? = some n → ∃ m, m? = some m ∧
    (∀ field, (n.column? field).isSome = true → (m.column? field).isSome = true) ∧
    ∀ name t, n.reference? name = some (.one t) → ∃ t', m.reference? name = some (.one t')

theorem Node.Like.extends {n m : Node} (h : n.Like m) : Node.Extends (some n) (some m) := by
  rintro _ ⟨⟩
  exact ⟨m, rfl, fun field hf => h.columns field ▸ hf, fun name t ht => ⟨t, h.references name ▸ ht⟩⟩

theorem Graph.SameAt.extends {g h : Graph} {x : EntityKey} (hs : Graph.SameAt x g h) :
    Node.Extends (g.node? x) (h.node? x) := by
  rcases hs with hs | ⟨n, m, hn, hm, hlike⟩
  · exact fun n hn => ⟨n, hs ▸ hn, fun _ hf => hf, fun _ t ht => ⟨t, ht⟩⟩
  · rw [hn, hm]
    exact hlike.extends

/-- References to single entities only. -/
def Graph.RefersOnly (g : Graph) : Prop := g.Fits fun _ _ => false

theorem Graph.Grows.extends {lost : EntityKey → String → Prop} {g h : Graph}
    (hgrows : Graph.Grows lost g h) (hkeeps : g.Keeps h) (hone : h.RefersOnly) (x : EntityKey) :
    Node.Extends (g.node? x) (h.node? x) := by
  intro n hn
  obtain ⟨m, hm, -, hcolumns⟩ := hkeeps x n hn
  refine ⟨m, hm, fun field hf => ?_, fun name t ht => ?_⟩
  · obtain ⟨v, hv⟩ := Option.isSome_iff_exists.mp hf
    rw [hcolumns field v hv]
    rfl
  · have hloaded := hgrows.loaded x name (by simp [Graph.reference?, hn, ht])
    obtain ⟨ref, href⟩ := Option.isSome_iff_exists.mp hloaded
    have hkind := hone x name ref href
    cases ref with
    | one t' => exact ⟨t', by simpa [Graph.reference?, hm] using href⟩
    | many ks => cases hkind

namespace LoadTree

variable {s : Schema} {row : JoinedRow} {x : EntityKey}

mutual

theorem Settled.mono {n? m? : Option Node} (h : Node.Extends n? m?) {t : LoadTree}
    (ht : t.Settled row x n?) : t.Settled row x m? := by
  obtain ⟨o, fields, cs⟩ := t
  intro k hk
  obtain ⟨hshown, hbelow⟩ := ht k hk
  refine ⟨fun e => ?_, SettledBelow.mono h hbelow⟩
  obtain ⟨n, hn, hcolumns⟩ := hshown e
  obtain ⟨m, hm, hmore, -⟩ := h n hn
  exact ⟨m, hm, fun field hf => hmore field (hcolumns field hf)⟩

theorem SettledBelow.mono {n? m? : Option Node} (h : Node.Extends n? m?) {key : EntityKey}
    {cs : List (Relationship × LoadTree)} (hc : SettledBelow row x n? key cs) :
    SettledBelow row x m? key cs := by
  cases cs with
  | nil => trivial
  | cons c rest =>
    obtain ⟨q, t⟩ := c
    obtain ⟨href, ht, hrest⟩ := hc
    refine ⟨fun e => ?_, ht.mono h, SettledBelow.mono h hrest⟩
    obtain ⟨n, target, hn, hone⟩ := href e
    obtain ⟨m, hm, -, hmore⟩ := h n hn
    obtain ⟨t', ht'⟩ := hmore q.name target hone
    exact ⟨m, t', hm, ht'⟩

end

/-- Columns that an entity has are still there in a graph that keeps what is loaded. -/
theorem exists_kept {g h : Graph} (hk : g.Keeps h) {key : EntityKey} {n : Node}
    (hn : g.node? key = some n) {columns : List (String × Value)}
    (hcolumns : ∀ field, (List.lookup field columns).isSome = true → (n.column? field).isSome = true) :
    ∃ m, h.node? key = some m ∧ ∀ field, (List.lookup field columns).isSome = true →
      (m.column? field).isSome = true := by
  obtain ⟨m, hm, -, hkept⟩ := hk _ _ hn
  refine ⟨m, hm, fun field hf => ?_⟩
  obtain ⟨v, hv⟩ := Option.isSome_iff_exists.mp (hcolumns field hf)
  rw [hkept field v hv]
  rfl

/-- A load tree that follows references to single entities only. -/
def RefersOnly (t : LoadTree) : Prop := Edge.AreOf (fun _ _ => false) t.edges

mutual

/-- After a row is loaded nothing is left to load from it. -/
theorem load_settled {t : LoadTree} {g h : Graph} {key : Option EntityKey} (ht : t.RefersOnly)
    (hg : g.RefersOnly) (hl : t.load s row g = .ok (key, h)) (x : EntityKey) :
    t.Settled row x (h.node? x) := by
  have hone : h.RefersOnly := load_fits ht hg hl
  obtain ⟨o, fields, cs⟩ := t
  rcases load_eq_ok hl with ⟨hk, -⟩ | ⟨k, hk, -, ⟨hhas, hbelow⟩ | ⟨member, hnot, -, hbelow⟩⟩
  · intro k hk'
    cases hk.symm.trans hk'
  all_goals
    intro k' hk'
    cases hk.symm.trans hk'
  · obtain ⟨n, hn⟩ := Option.isSome_iff_exists.mp hhas
    have hi : (g.modify k (·.addColumns (row.shownAt o fields))).node? k =
        some (n.addColumns (row.shownAt o fields)) := by
      rw [Graph.node?_modify g k k (f := (·.addColumns (row.shownAt o fields))) fun _ => rfl,
        if_pos rfl, hn]
      rfl
    refine ⟨fun e => ?_, loadBelow_settled hk ht (fun y name ref href => ?_)
      ((Graph.has_addColumns g k k _).mpr hhas) hbelow x⟩
    · subst e
      refine exists_kept (loadBelow_keepsFields hbelow) hi fun field hf => ?_
      rw [Node.column?_addColumns]
      cases n.column? field with
      | some v => rfl
      | none => simpa using hf
    · rw [Graph.reference?_addColumns] at href
      exact hg y name ref href
  · refine ⟨fun e => ?_, loadBelow_settled hk ht (fun y name ref href => ?_)
      ((Graph.has_add g _ k).mpr (.inr rfl)) hbelow x⟩
    · subst e
      have hnone : g.node? k = none := by
        cases hn : g.node? k with
        | none => rfl
        | some n => exact absurd (by simp [Graph.Has, hn]) hnot
      exact exists_kept (loadBelow_keepsFields hbelow) (n := ⟨k, member, row.shownAt o fields, []⟩)
        (by rw [Graph.node?_add, hnone]; simp) fun field hf => hf
    · rw [Graph.reference?_add rfl] at href
      exact hg y name ref href

theorem loadBelow_settled {o : Occurrence} {cs : List (Relationship × LoadTree)} {key : EntityKey}
    {isNew : Bool} {g h : Graph} (hk : row.keyAt o = some key)
    (hcs : Edge.AreOf (fun _ _ => false) (edgesBelow o cs)) (hg : g.RefersOnly) (hhas : g.Has key)
    (hl : loadBelow s row key isNew g cs = .ok h) (x : EntityKey) :
    SettledBelow row x (h.node? x) key cs := by
  have hone : h.RefersOnly := loadBelow_fits hk hcs hg hhas hl
  cases cs with
  | nil => trivial
  | cons c rest =>
    obtain ⟨q, t⟩ := c
    obtain ⟨i, hi, hrest⟩ := loadBelow_cons_eq_ok hl
    obtain ⟨hq, ht, hcs'⟩ := forall_edgesBelow_cons.mp hcs
    have hopen : (g.opened key isNew q).RefersOnly := Graph.fits_opened hg hhas hq
    have hione : i.RefersOnly := load_fits ht hopen hi
    have hihas : i.Has key := (load_grows hi).1.has _ ((Graph.has_opened _).mpr hhas)
    have hplaced : (i.placed key isNew q (row.keyAt t.occurrence)).RefersOnly :=
      Graph.fits_placed hione hihas hq
    have hphas : (i.placed key isNew q (row.keyAt t.occurrence)).Has key :=
      (Graph.has_placed key).mpr hihas
    -- what the first branch leaves settled stays so while the others are loaded
    have hafter := (loadBelow_grows hphas hrest).extends (loadBelow_keepsFields hrest) hone x
    refine ⟨fun e => ?_, ?_, loadBelow_settled hk hcs' hplaced hphas hrest x⟩
    · subst e
      obtain ⟨n, -, href⟩ : ∃ n, i.node? key = some n ∧
          (i.placed key isNew q (row.keyAt t.occurrence)).reference? key q.name =
            some (Graph.placedReference isNew q (row.keyAt t.occurrence) n) :=
        Graph.reference?_placed hihas
      obtain ⟨m, hm⟩ := Option.isSome_iff_exists.mp hphas
      have hkind := hplaced _ _ _ href
      rw [Graph.reference?, hm, Option.bind_some] at href
      cases hp : Graph.placedReference isNew q (row.keyAt t.occurrence) n with
      | many ks =>
        rw [hp] at hkind
        cases hkind
      | one target =>
        obtain ⟨l, hl', -, hmore⟩ := hafter m hm
        obtain ⟨target', htarget⟩ := hmore q.name target (href.trans (congrArg some hp))
        exact ⟨l, target', hl', htarget⟩
    · have hplace : i.Keeps (i.placed key isNew q (row.keyAt t.occurrence)) :=
        Graph.keeps_modify (fun _ => rfl) (fun _ => rfl) fun _ _ _ _ h => h
      have hgrows : Graph.Grows (Forgets isNew key ((q, t) :: rest)) i
          (i.placed key isNew q (row.keyAt t.occurrence)) :=
        Graph.grows_placed hihas fun hn => ⟨hn, rfl, by simp⟩
      exact ((load_settled ht hopen hi x).mono (hgrows.extends hplace hplaced x)).mono hafter

end

mutual

/-- A row of which nothing is left to load into an entity does not change it. -/
theorem load_of_settled {t : LoadTree} {g h : Graph} {key : Option EntityKey}
    (ht : t.Settled row x (g.node? x)) (hl : t.load s row g = .ok (key, h)) :
    Graph.SameAt x g h := by
  obtain ⟨o, fields, cs⟩ := t
  rcases load_eq_ok hl with ⟨-, -, rfl⟩ | ⟨k, hk, -, ⟨hhas, hbelow⟩ | ⟨member, hnot, -, hbelow⟩⟩
  · exact .refl x _
  all_goals obtain ⟨hshown, hcs⟩ := ht k hk
  · have hsame : Graph.SameAt x g (g.modify k (·.addColumns (row.shownAt o fields))) := by
      refine Graph.sameAt_modify (f := (·.addColumns (row.shownAt o fields))) (fun _ => rfl)
        fun e n hn => ?_
      obtain ⟨n', hn', hcolumns⟩ := hshown e.symm
      cases hn'.symm.trans (e ▸ hn)
      refine ⟨rfl, fun field => ?_, fun _ => rfl⟩
      rw [Node.column?_addColumns]
      cases hf : List.lookup field (row.shownAt o fields) with
      | none => rw [Option.or_none]
      | some v =>
        obtain ⟨w, hw⟩ := Option.isSome_iff_exists.mp (hcolumns field (by rw [hf]; rfl))
        rw [hw]
        rfl
    exact hsame.trans (loadBelow_of_settled (hcs.mono hsame.extends)
      (fun hn => absurd hn Bool.false_ne_true) hbelow)
  · have hne : x ≠ k := fun e => by
      obtain ⟨n, hn, -⟩ := hshown e.symm
      exact hnot (by rw [← e]; simp [Graph.Has, hn])
    have hsame : Graph.SameAt x g (g.add ⟨k, member, row.shownAt o fields, []⟩) :=
      .inl (Graph.node?_add_ne hne).symm
    exact hsame.trans (loadBelow_of_settled (hcs.mono hsame.extends) (fun _ => hne) hbelow)

theorem loadBelow_of_settled {cs : List (Relationship × LoadTree)} {key : EntityKey} {isNew : Bool}
    {g h : Graph} (hcs : SettledBelow row x (g.node? x) key cs) (hnew : isNew = true → x ≠ key)
    (hl : loadBelow s row key isNew g cs = .ok h) : Graph.SameAt x g h := by
  cases cs with
  | nil =>
    cases hl
    exact .refl x _
  | cons c rest =>
    obtain ⟨q, t⟩ := c
    obtain ⟨i, hi, hrest⟩ := loadBelow_cons_eq_ok hl
    obtain ⟨href, ht, hcs'⟩ := hcs
    have hopen : Graph.SameAt x g (g.opened key isNew q) := by
      unfold Graph.opened
      split
      · rename_i hmany
        rw [Bool.and_eq_true] at hmany
        exact Graph.sameAt_modify (fun _ => rfl) fun e => absurd e (hnew hmany.1)
      · exact .refl x g
    have hload : Graph.SameAt x g i :=
      hopen.trans (load_of_settled (ht.mono hopen.extends) hi)
    have hplace : Graph.SameAt x i (i.placed key isNew q (row.keyAt t.occurrence)) := by
      refine Graph.sameAt_modify (fun _ => rfl) fun e n hn => ?_
      have hold : isNew = false := by
        cases isNew with
        | false => rfl
        | true => exact absurd e (hnew rfl)
      obtain ⟨m, target, hm, hone⟩ := href e.symm
      obtain ⟨n', hn', hlike⟩ := hload.exists_node hm
      cases hn'.symm.trans (e ▸ hn)
      refine ⟨rfl, fun _ => rfl, fun name => ?_⟩
      have hknown : n.reference? q.name = some (.one target) := (hlike.references q.name) ▸ hone
      rw [Node.reference?_setReference]
      split
      · rename_i hname
        rw [hname, hknown, Graph.placedReference, hold, Bool.false_and]
        simp only [Bool.false_eq_true, if_false, hknown, furtherReference]
      · rfl
    exact (hload.trans hplace).trans
      (loadBelow_of_settled (hcs'.mono (hload.trans hplace).extends) hnew hrest)

end

variable {t : LoadTree} {rows : List JoinedRow}

/-- What is left to load from a row depends on what is loaded of an entity already. -/
theorem settled_of_own (ht : t.RefersOnly) {b : JoinedRow} {own : Graph} {key : Option EntityKey}
    (hown : t.load s b {} = .ok (key, own)) {g : Graph} {m : Node} (hm : g.node? x = some m)
    (hlike : ∀ n, own.node? x = some n → n.Like m) : t.Settled b x (g.node? x) := by
  refine (load_settled ht Graph.fits_empty hown x).mono fun n hn => ?_
  rw [hm]
  exact (hlike n hn).extends n rfl

/-- A graph holds the entities that some rows bring, each like any of the rows brings it alone. -/
structure HoldsEach (s : Schema) (t : LoadTree) (rows : List JoinedRow) (g : Graph) : Prop where
  held : ∀ row ∈ rows, ∀ own, t.loadAll s {} [row] = .ok own → ∀ x n, own.node? x = some n →
    ∃ m, g.node? x = some m ∧ n.Like m
  brought : ∀ x, g.Has x → ∃ row ∈ rows, ∃ own, t.loadAll s {} [row] = .ok own ∧ own.Has x

/-- Rows bring entities alike: one that two of them bring looks the same when each is loaded alone. -/
def BringsAlike (s : Schema) (t : LoadTree) (rows : List JoinedRow) : Prop :=
  ∀ a ∈ rows, ∀ b ∈ rows, ∀ g h, t.loadAll s {} [a] = .ok g → t.loadAll s {} [b] = .ok h →
    ∀ x n m, g.node? x = some n → h.node? x = some m → n.Like m

theorem loadAll_singleton (g : Graph) (row : JoinedRow) :
    t.loadAll s g [row] = (t.load s row g).map Prod.snd := by
  unfold loadAll
  rw [List.foldlM_cons]
  cases (t.load s row g).map Prod.snd <;> rfl

theorem HoldsEach.load (ht : t.RefersOnly) {b : JoinedRow} {g h : Graph} {key : Option EntityKey}
    (hg : HoldsEach s t rows g) (halike : BringsAlike s t (rows ++ [b]))
    (hl : t.load s b g = .ok (key, h)) : HoldsEach s t (rows ++ [b]) h := by
  obtain ⟨⟨key', own⟩, hload⟩ := exists_load {} hl
  have hown : t.loadAll s {} [b] = .ok own := by
    rw [loadAll_singleton, hload]
    rfl
  have hb : b ∈ rows ++ [b] := by simp
  have hnew : ∀ x, g.node? x = none → h.node? x = own.node? x := fun x hx =>
    load_local (hx.trans rfl) hl hload
  have hold : ∀ x m, g.node? x = some m → Graph.SameAt x g h ∧
      ∀ n, own.node? x = some n → n.Like m := by
    intro x m hm
    obtain ⟨row, hrow, a, ha, hax⟩ := hg.brought x (by simp [Graph.Has, hm])
    obtain ⟨n, hn⟩ := Option.isSome_iff_exists.mp hax
    obtain ⟨m', hm', hlike⟩ := hg.held row hrow a ha x n hn
    cases hm.symm.trans hm'
    have hlike' : ∀ k, own.node? x = some k → k.Like m := fun k hk =>
      (halike b hb row (List.mem_append_left _ hrow) own a hown ha x k n hk hn).trans hlike
    exact ⟨load_of_settled (settled_of_own ht hload hm hlike') hl, hlike'⟩
  constructor
  · intro row hrow a ha x n hn
    cases hx : g.node? x with
    | none =>
      rcases List.mem_append.mp hrow with hrow | hrow
      · obtain ⟨m, hm, -⟩ := hg.held row hrow a ha x n hn
        cases hx.symm.trans hm
      · cases List.mem_singleton.mp hrow
        cases hown.symm.trans ha
        exact ⟨n, (hnew x hx).trans hn, .refl n⟩
    | some m =>
      obtain ⟨hsame, hlike⟩ := hold x m hx
      obtain ⟨k, hk, hmk⟩ := hsame.exists_node hx
      refine ⟨k, hk, .trans ?_ hmk⟩
      rcases List.mem_append.mp hrow with hrow | hrow
      · obtain ⟨m', hm', hlike'⟩ := hg.held row hrow a ha x n hn
        cases hx.symm.trans hm'
        exact hlike'
      · cases List.mem_singleton.mp hrow
        cases hown.symm.trans ha
        exact hlike n hn
  · intro x hhas
    cases hx : g.node? x with
    | none => exact ⟨b, hb, own, hown, (Graph.has_congr (hnew x hx)).mp hhas⟩
    | some m =>
      obtain ⟨row, hrow, a, ha, hax⟩ := hg.brought x (by simp [Graph.Has, hx])
      exact ⟨row, List.mem_append_left _ hrow, a, ha, hax⟩

/-- Where rows bring their entities alike, the graph of all rows holds each entity like any row. -/
theorem loadAll_holdsEach (ht : t.RefersOnly) {more : List JoinedRow} {g h : Graph}
    (hg : HoldsEach s t rows g) (halike : BringsAlike s t (rows ++ more))
    (hl : t.loadAll s g more = .ok h) : HoldsEach s t (rows ++ more) h := by
  induction more generalizing rows g with
  | nil =>
    cases hl
    rwa [List.append_nil]
  | cons b more ih =>
    obtain ⟨key, i, hload, hrest⟩ := loadAll_cons_eq_ok hl
    have hsplit : rows ++ b :: more = (rows ++ [b]) ++ more := by simp
    rw [hsplit] at halike ⊢
    exact ih (hg.load ht (fun a ha b hb => halike a (List.mem_append_left _ ha) b
      (List.mem_append_left _ hb)) hload) halike hrest

theorem holdsEach_nil : HoldsEach s t [] {} :=
  ⟨fun _ h => absurd h List.not_mem_nil, fun x h => by simp [Graph.Has, Graph.node?] at h⟩

end LoadTree
end EntityQuery
