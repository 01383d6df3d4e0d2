import EntityQuery.Proofs.Identity
import EntityQuery.Proofs.Roots
/-!
Loading a joined row into a graph, step by step: an entity is found or added, then each relationship
below it is opened, its target is loaded, and the target is placed into it.
-/
namespace EntityQuery

/-- A relationship between two occurrences of a load tree. -/
structure Edge where
  source : Occurrence
  relationship : Relationship
  target : Occurrence

namespace LoadTree

mutual

/-- The relationships that a load tree follows. -/
def edges : LoadTree → List Edge
  | node o _ cs => edgesBelow o cs

def edgesBelow (o : Occurrence) : List (Relationship × LoadTree) → List Edge
  | [] => []
  | (q, t) :: rest => ⟨o, q, t.occurrence⟩ :: (edges t ++ edgesBelow o rest)

end

@[simp]
theorem mem_edgesBelow_cons {o : Occurrence} {q : Relationship} {t : LoadTree}
    {rest : List (Relationship × LoadTree)} {e : Edge} :
    e ∈ edgesBelow o ((q, t) :: rest) ↔
      e = ⟨o, q, t.occurrence⟩ ∨ e ∈ t.edges ∨ e ∈ edgesBelow o rest := by
  rw [edgesBelow, List.mem_cons, List.mem_append]

theorem forall_edgesBelow_cons {o : Occurrence} {q : Relationship} {t : LoadTree}
    {rest : List (Relationship × LoadTree)} {P : Edge → Prop} :
    (∀ e ∈ edgesBelow o ((q, t) :: rest), P e) ↔
      P ⟨o, q, t.occurrence⟩ ∧ (∀ e ∈ t.edges, P e) ∧ ∀ e ∈ edgesBelow o rest, P e := by
  rw [edgesBelow, List.forall_mem_cons, List.forall_mem_append]

end LoadTree

namespace Graph

/-- Opens a collection of a new entity. -/
def opened (g : Graph) (key : EntityKey) (isNew : Bool) (q : Relationship) : Graph :=
  if isNew && q.many then g.modify key (·.setReference q.name (.many [])) else g

/-- The reference that a relationship has once a target is placed into it. -/
def placedReference (isNew : Bool) (q : Relationship) (target : Option EntityKey) (n : Node) :
    Reference :=
  furtherReference q (if isNew && !q.many then none else n.reference? q.name) target

/-- Places a target into a relationship of an entity. -/
def placed (g : Graph) (key : EntityKey) (isNew : Bool) (q : Relationship)
    (target : Option EntityKey) : Graph :=
  g.modify key fun n => n.setReference q.name (placedReference isNew q target n)

end Graph

/-- The fields that a joined row shows at an occurrence. -/
def JoinedRow.shownAt (row : JoinedRow) (o : Occurrence) (fields : List String) :
    List (String × Value) :=
  shownColumns (LoadTree.loadedColumns o.entity fields)
    ((List.lookup (.entity o.position) row).getD [])

namespace LoadTree

variable {s : Schema} {row : JoinedRow}

/-- All that loading a row at a place can do. -/
theorem load_eq_ok {o : Occurrence} {fields : List String} {cs : List (Relationship × LoadTree)}
    {g h : Graph} {key : Option EntityKey}
    (hl : (node o fields cs).load s row g = .ok (key, h)) :
    (row.keyAt o = none ∧ key = none ∧ h = g) ∨
    ∃ k, row.keyAt o = some k ∧ key = some k ∧
      (g.Has k ∧
          loadBelow s row k false (g.modify k (·.addColumns (row.shownAt o fields))) cs = .ok h ∨
       ∃ member, ¬ g.Has k ∧
          memberEntity s o.entity ((List.lookup (.entity o.position) row).getD []) = .ok member ∧
          loadBelow s row k true (g.add ⟨k, member, row.shownAt o fields, []⟩) cs = .ok h) := by
  unfold load at hl
  dsimp only at hl
  split at hl
  · cases hl
  · rename_i member hm
    split at hl
    · rename_i hk
      cases hl
      exact .inl ⟨hk, rfl, rfl⟩
    · rename_i k hk
      refine .inr ⟨k, hk, ?_⟩
      split at hl
      · rename_i n hn
        obtain ⟨h', hbelow, he⟩ := ok_of_map hl
        cases he
        exact ⟨rfl, .inl ⟨by simp [Graph.Has, hn], hbelow⟩⟩
      · rename_i hn
        obtain ⟨h', hbelow, he⟩ := ok_of_map hl
        cases he
        exact ⟨rfl, .inr ⟨member, by simp [Graph.Has, hn], hm, hbelow⟩⟩

/-- All that loading a row below an entity does at the first relationship. -/
theorem loadBelow_cons_eq_ok {key : EntityKey} {isNew : Bool} {q : Relationship} {t : LoadTree}
    {rest : List (Relationship × LoadTree)} {g h : Graph}
    (hl : loadBelow s row key isNew g ((q, t) :: rest) = .ok h) :
    ∃ i, t.load s row (g.opened key isNew q) = .ok (row.keyAt t.occurrence, i) ∧
      loadBelow s row key isNew (i.placed key isNew q (row.keyAt t.occurrence)) rest = .ok h := by
  unfold loadBelow at hl
  dsimp only at hl
  split at hl
  · cases hl
  · rename_i target i hi
    have htarget : target = row.keyAt t.occurrence := load_key hi
    subst htarget
    exact ⟨i, hi, hl⟩

end LoadTree

namespace Graph

variable {lost : EntityKey → String → Prop} {g : Graph} {key : EntityKey} {isNew : Bool}
  {q : Relationship} {target : Option EntityKey}

theorem has_opened (x : EntityKey) : (g.opened key isNew q).Has x ↔ g.Has x := by
  unfold opened
  split
  · exact has_modify g key x fun _ => rfl
  · rfl

theorem has_placed (x : EntityKey) : (g.placed key isNew q target).Has x ↔ g.Has x :=
  has_modify g key x fun _ => rfl

theorem grows_opened (hg : g.Has key) (hlost : isNew = true → lost key q.name) :
    Grows lost g (g.opened key isNew q) := by
  unfold opened
  split
  · rename_i h
    rw [Bool.and_eq_true] at h
    exact .setReference hg fun _ _ hl => absurd (hlost h.1) hl
  · exact .refl g

/-- Adding an item keeps the others. -/
theorem mem_addItem {items : List EntityKey} {item : Option EntityKey} {x : EntityKey} :
    x ∈ addItem items item ↔ x ∈ items ∨ item = some x := by
  cases item with
  | none => simp [addItem]
  | some k =>
    by_cases h : k ∈ items
    · simp only [addItem, List.contains_iff_mem, h, if_true, Option.some.injEq]
      exact ⟨.inl, fun hx => hx.elim id fun e => e ▸ h⟩
    · simp [addItem, h, eq_comm]

theorem grows_placed (hg : g.Has key) (hlost : isNew = true → lost key q.name) :
    Grows lost g (g.placed key isNew q target) := by
  refine .setReference hg fun n hn hl y hy => ?_
  have hold : isNew = false := by
    cases isNew with
    | false => rfl
    | true => exact absurd (hlost rfl) hl
  have href : g.reference? key q.name = n.reference? q.name := by
    simp [Graph.reference?, hn]
  unfold Graph.items at hy
  rw [href] at hy
  unfold placedReference furtherReference
  rw [hold]
  simp only [Bool.false_and, Bool.false_eq_true, if_false]
  cases hr : n.reference? q.name with
  | none => simp [hr] at hy
  | some reference =>
    rw [hr] at hy
    cases reference with
    | one t => exact hy
    | many ks => exact mem_addItem.mpr (.inl hy)

theorem reference?_placed (hg : g.Has key) :
    ∃ n, g.node? key = some n ∧ (g.placed key isNew q target).reference? key q.name =
      some (placedReference isNew q target n) := by
  obtain ⟨n, hn⟩ := Option.isSome_iff_exists.mp hg
  refine ⟨n, hn, ?_⟩
  unfold placed
  rw [reference?_setReference g key key q.name q.name _ hg]
  simp [hn]

end Graph

/-- What loading below an entity may lose: the items of its relationships, if it is new. -/
def Forgets (isNew : Bool) (key : EntityKey) (cs : List (Relationship × LoadTree)) (x : EntityKey)
    (name : String) : Prop :=
  isNew = true ∧ x = key ∧ name ∈ cs.map (·.1.name)

namespace LoadTree

variable {s : Schema} {row : JoinedRow}

mutual

/-- Loading a row at a place only adds to a graph. -/
theorem load_grows {t : LoadTree} {g h : Graph} {key : Option EntityKey}
    (hl : t.load s row g = .ok (key, h)) :
    Graph.Grows (fun _ _ => False) g h ∧ ∀ k, row.keyAt t.occurrence = some k → h.Has k := by
  obtain ⟨o, fields, cs⟩ := t
  rcases load_eq_ok hl with ⟨hk, -, rfl⟩ | ⟨k, hk, -, ⟨hg, hbelow⟩ | ⟨member, hg, -, hbelow⟩⟩
  · exact ⟨.refl _, fun k hk' => by
      rw [show row.keyAt o = some k from hk'] at hk
      cases hk⟩
  · have hhas := (Graph.has_addColumns g k k (row.shownAt o fields)).mpr hg
    have hgrows := loadBelow_grows hhas hbelow
    refine ⟨?_, fun k' hk' => ?_⟩
    · refine (Graph.Grows.of_reference? ?_ ?_).trans (hgrows.mono fun x name hf => by cases hf.1)
      · exact fun x hx => (Graph.has_addColumns g k x _).mpr hx
      · exact fun x name => Graph.reference?_addColumns g k x _ name
    · cases hk.symm.trans hk'
      exact hgrows.has _ hhas
  · have hhas := (Graph.has_add g ⟨k, member, row.shownAt o fields, []⟩ k).mpr (.inr rfl)
    have hgrows := loadBelow_grows hhas hbelow
    have hadd : Graph.Grows (fun _ _ => False) g (g.add ⟨k, member, row.shownAt o fields, []⟩) :=
      .of_reference? (fun x hx => (Graph.has_add g _ x).mpr (.inl hx))
        (Graph.reference?_add (n := ⟨k, member, row.shownAt o fields, []⟩) rfl)
    refine ⟨⟨fun x hx => hgrows.has x (hadd.has x hx),
      fun x name hx => hgrows.loaded x name (hadd.loaded x name hx),
      fun x name hl y hy => ?_⟩, fun k' hk' => ?_⟩
    · -- what may be lost belongs to the new entity, which had no items before
      refine hgrows.items x name (fun hf => ?_) y (hadd.items x name hl y hy)
      obtain ⟨-, rfl, -⟩ := hf
      have hnone : g.node? x = none := by
        cases hn : g.node? x with
        | none => rfl
        | some n => exact absurd (by simp [Graph.Has, hn]) hg
      simp [Graph.items, Graph.reference?, hnone] at hy
    · cases hk.symm.trans hk'
      exact hgrows.has _ hhas

/-- Loading a row below an entity only adds to a graph, apart from what a new entity starts with. -/
theorem loadBelow_grows {cs : List (Relationship × LoadTree)} {key : EntityKey} {isNew : Bool}
    {g h : Graph} (hg : g.Has key) (hl : loadBelow s row key isNew g cs = .ok h) :
    Graph.Grows (Forgets isNew key cs) g h := by
  cases cs with
  | nil =>
    cases hl
    exact .refl _
  | cons c rest =>
    obtain ⟨q, t⟩ := c
    obtain ⟨i, hi, hrest⟩ := loadBelow_cons_eq_ok hl
    have hlost : isNew = true → Forgets isNew key ((q, t) :: rest) key q.name := fun hn =>
      ⟨hn, rfl, by simp⟩
    have hopen : Graph.Grows (Forgets isNew key ((q, t) :: rest)) g (g.opened key isNew q) :=
      Graph.grows_opened hg hlost
    have hload : Graph.Grows (Forgets isNew key ((q, t) :: rest)) _ i :=
      (load_grows hi).1.mono fun _ _ hf => hf.elim
    have hikey := hload.has _ (hopen.has _ hg)
    have hplace : Graph.Grows (Forgets isNew key ((q, t) :: rest)) i
        (i.placed key isNew q (row.keyAt t.occurrence)) := Graph.grows_placed hikey hlost
    have hbelow := loadBelow_grows (hplace.has _ hikey) hrest
    exact ((hopen.trans hload).trans hplace).trans (hbelow.mono fun x name hf =>
      ⟨hf.1, hf.2.1, List.mem_cons_of_mem _ hf.2.2⟩)

end

end LoadTree
end EntityQuery
