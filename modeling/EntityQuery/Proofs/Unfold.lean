import Mathlib.Data.List.Forall2
import Mathlib.Data.List.Induction
import Mathlib.Data.List.Nodup
import EntityQuery.Graph.Record
import EntityQuery.Proofs.Graphs
import EntityQuery.Proofs.Mapping
import EntityQuery.Proofs.Result
/-!
Unfolding entities whose collections are not keyed. It leaves the graph as it is, and the record of an
entity shows its loaded fields and, under the name of each loaded relationship, the records of the
entities that this leads to, apart from those on the way.
-/
namespace EntityQuery

namespace Value

theorem lookupText_cons (name field : String) (v : Value) (es : List (Value × Value)) :
    lookupText name ((.text field, v) :: es) =
      if field = name then some v else lookupText name es := by
  unfold lookupText
  rw [List.findSome?_cons]
  by_cases h : field = name <;> simp [h]

theorem lookupText_append (name : String) (es fs : List (Value × Value)) :
    lookupText name (es ++ fs) = (lookupText name es).or (lookupText name fs) :=
  List.findSome?_append

theorem mem_insertKeyed {α : Type} {key : Value} {v : α} {es : List (Value × α)} {e : Value × α}
    (he : e ∈ insertKeyed key v es) : e.2 = v ∨ ∃ q ∈ es, e.2 = q.2 := by
  induction es with
  | nil => exact .inl (congrArg Prod.snd (List.mem_singleton.mp he))
  | cons p es ih =>
    rw [insertKeyed] at he
    split at he
    · rcases List.mem_cons.mp he with rfl | he
      · exact .inl rfl
      · exact .inr ⟨e, List.mem_cons_of_mem p he, rfl⟩
    · rcases List.mem_cons.mp he with rfl | he
      · exact .inr ⟨_, List.mem_cons_self, rfl⟩
      · rcases ih he with h | ⟨q, hq, h⟩
        · exact .inl h
        · exact .inr ⟨q, List.mem_cons_of_mem p hq, h⟩

/-- The values of a mapping are among those that it was made from. -/
theorem mem_keyedOfList {α : Type} {pairs : List (Value × α)} {e : Value × α}
    (he : e ∈ keyedOfList pairs) : ∃ q ∈ pairs, e.2 = q.2 := by
  induction pairs using List.reverseRecOn generalizing e with
  | nil => cases he
  | append_singleton pairs p ih =>
    rw [keyedOfList, List.foldl_append] at he
    rcases mem_insertKeyed he with h | ⟨q, hq, h⟩
    · exact ⟨p, by simp, h⟩
    · obtain ⟨w, hw, hwq⟩ := ih hq
      exact ⟨w, List.mem_append_left _ hw, h.trans hwq⟩

end Value

open Value

/-! ### Unfolding as a value -/

/-- A reference as it is shown, given the records of the entities that it leads to: nothing if it only
leads back to an entity on the way, and collections without such entities. -/
def Reference.shown? (way : List EntityKey) (record : EntityKey → Value) : Reference → Option Value
  | .one none => some .null
  | .one (some k) => if k ∈ way then none else some (record k)
  | .many ks => some (.list ((ks.filter fun k => !way.contains k).map record))

/-- The loaded relationships of an entity as entries, in the order of their declaration. -/
def Node.referenceEntries (n : Node) (way : List EntityKey) (record : EntityKey → Value) :
    List (Value × Value) :=
  n.entity.relationships.filterMap fun r =>
    ((n.reference? r.name).bind (·.shown? way record)).map fun v => (.text r.name, v)

/-- The record of an entity to a given depth, without the entities on a way. -/
def Graph.unfolded (g : Graph) : Nat → List EntityKey → EntityKey → Value
  | 0, _, _ => .mapping []
  | depth + 1, way, k =>
    match g.node? k with
    | none => .mapping []
    | some n =>
      .mapping (n.fieldEntries ++ n.referenceEntries (k :: way) (g.unfolded depth (k :: way)))

section Unfolding

variable {u : Unfolding} {g : Graph} {record : Graph → EntityKey → Unfolded} {value : EntityKey → Value}

theorem unfoldItems_eq (hrecord : ∀ k, record g k = .ok (value k, g)) (ks : List EntityKey) :
    unfoldItems record g ks = .ok (ks.map value, g) := by
  induction ks with
  | nil => rfl
  | cons k ks ih => simp [unfoldItems, hrecord, ih, bind, Except.bind]

theorem unfoldReference_eq (hindex : u.index = []) (hrecord : ∀ k, record g k = .ok (value k, g))
    (way : List EntityKey) (path : Plan.RelationPath) (reference : Reference) :
    unfoldReference u way path record g reference = .ok (reference.shown? way value, g) := by
  cases reference with
  | one t =>
    cases t with
    | none => rfl
    | some k => by_cases hk : k ∈ way <;> simp [unfoldReference, Reference.shown?, hk, hrecord, Except.map]
  | many ks =>
    simp [unfoldReference, Reference.shown?, hindex, unfoldItems_eq hrecord, Except.map]

theorem unfoldReferences_eq {n : Node} {shown : Reference → Option Value}
    {unfold : Plan.RelationPath → Graph → Reference → Except QueryError (Option Value × Graph)}
    (hunfold : ∀ path reference, unfold path g reference = .ok (shown reference, g))
    (path : Plan.RelationPath) (rs : List Relationship) :
    unfoldReferences unfold path n g rs =
      .ok (rs.filterMap fun r =>
        ((n.reference? r.name).bind shown).map fun v => (Value.text r.name, v), g) := by
  induction rs with
  | nil => rfl
  | cons r rs ih =>
    unfold unfoldReferences
    cases href : n.reference? r.name with
    | none => simp [href, ih]
    | some reference =>
      cases hshown : shown reference <;>
        simp [href, hunfold, hshown, ih, bind, Except.bind]

/-- Unfolding without keyed collections gives a value that depends on the entities alone. -/
theorem unfoldTo_eq (hindex : u.index = []) (depth : Nat) (way : List EntityKey)
    (path : Plan.RelationPath) (k : EntityKey) :
    unfoldTo u depth way path g k = .ok (g.unfolded depth way k, g) := by
  induction depth generalizing way path k with
  | zero => rfl
  | succ depth ih =>
    unfold unfoldTo Graph.unfolded
    cases g.node? k with
    | none => rfl
    | some n =>
      have hreferences := unfoldReferences_eq (n := n)
        (fun path => unfoldReference_eq hindex (ih (k :: way) path) (k :: way) path) path
        n.entity.relationships
      simp [hreferences, Node.referenceEntries, Except.map]

end Unfolding

/-! ### Entries of records -/

/-- Entries that are made of names have under a name what is made of it. -/
theorem lookupText_filterMap {α : Type} (label : α → String) (value? : String → Option Value) (xs : List α)
    (name : String) :
    lookupText name (xs.filterMap fun x => (value? (label x)).map fun v => (.text (label x), v)) =
      if name ∈ xs.map label then value? name else none := by
  induction xs with
  | nil => rfl
  | cons x xs ih =>
    rw [List.filterMap_cons]
    by_cases hname : label x = name
    · subst hname
      cases hvalue : value? (label x) with
      | none => simpa [hvalue] using ih
      | some v => simp [lookupText_cons]
    · have hcons : name ∈ (x :: xs).map label ↔ name ∈ xs.map label := by simp [Ne.symm hname]
      cases value? (label x) with
      | none => simpa only [Option.map_none, hcons] using ih
      | some v => simpa only [Option.map_some, lookupText_cons, if_neg hname, hcons] using ih

theorem lookupText_fieldEntries (n : Node) (name : String) : lookupText name n.fieldEntries =
    if name ∈ n.entity.columns.map (·.field) then n.column? name else none :=
  lookupText_filterMap Column.field n.column? _ name

theorem lookupText_referenceEntries (n : Node) (way : List EntityKey) (record : EntityKey → Value)
    (name : String) : lookupText name (n.referenceEntries way record) =
      if name ∈ n.entity.relationships.map (·.name) then
        (n.reference? name).bind (·.shown? way record) else none :=
  lookupText_filterMap Relationship.name (fun name => (n.reference? name).bind (·.shown? way record)) _ name

/-- What a record has under a name that no field has: what the reference of this name shows. -/
theorem lookupText_record {n : Node} {way : List EntityKey} {record : EntityKey → Value} {name : String}
    (hfield : name ∉ n.entity.columns.map (·.field)) :
    lookupText name (n.fieldEntries ++ n.referenceEntries way record) =
      if name ∈ n.entity.relationships.map (·.name) then
        (n.reference? name).bind (·.shown? way record) else none := by
  rw [lookupText_append, lookupText_fieldEntries, if_neg hfield, Option.none_or,
    lookupText_referenceEntries]

theorem not_mem_fields {n : Node} {name : String} (hmembers : n.entity.memberNames.Nodup)
    (hname : name ∈ n.entity.relationships.map (·.name)) : name ∉ n.entity.columns.map (·.field) :=
  fun hfield => (List.nodup_append.mp hmembers).2.2 name hfield name hname rfl

/-! ### Results of unfolding -/

/-- Passing a graph on without changing it. -/
def Silent {α β : Type} (f : Graph → α → Except QueryError (β × Graph)) : Prop :=
  ∀ g a b h, f g a = .ok (b, h) → h = g

variable {u : Unfolding} {record : Graph → EntityKey → Unfolded} {g h : Graph}

theorem unfoldItems_eq_ok (hrecord : Silent record) {ks : List EntityKey} {vs : List Value}
    (hu : unfoldItems record g ks = .ok (vs, h)) :
    h = g ∧ List.Forall₂ (fun k v => record g k = .ok (v, g)) ks vs := by
  induction ks generalizing vs with
  | nil =>
    cases hu
    exact ⟨rfl, .nil⟩
  | cons k ks ih =>
    obtain ⟨⟨v, i⟩, hv, hu⟩ := ok_of_bind hu
    cases hrecord g k v i hv
    obtain ⟨⟨ws, j⟩, hws, hu⟩ := ok_of_bind hu
    cases hu
    obtain ⟨rfl, hall⟩ := ih hws
    exact ⟨rfl, .cons hv hall⟩

/-- Unfolding does not change the graph. -/
theorem unfoldTo_silent (hindex : u.index = []) (depth : Nat) (way : List EntityKey)
    (path : Plan.RelationPath) : Silent (unfoldTo u depth way path) := by
  intro g k v h hu
  rw [unfoldTo_eq hindex] at hu
  cases hu
  rfl

/-- How a reference is shown: its targets by their records, without those on the way. -/
def Reference.ShownAs (record : Graph → EntityKey → Unfolded) (way : List EntityKey) (g : Graph)
    (o : Option Value) : Reference → Prop
  | .one none => o = some .null
  | .one (some k) =>
    (k ∈ way ∧ o = none) ∨ (k ∉ way ∧ ∃ v, record g k = .ok (v, g) ∧ o = some v)
  | .many ks => ∃ vs, o = some (.list vs) ∧
      List.Forall₂ (fun k v => record g k = .ok (v, g)) (ks.filter fun k => !way.contains k) vs

theorem shownAs_shown? {value : EntityKey → Value} (hrecord : ∀ k, record g k = .ok (value k, g))
    (way : List EntityKey) (ref : Reference) : ref.ShownAs record way g (ref.shown? way value) := by
  cases ref with
  | one t =>
    cases t with
    | none => rfl
    | some k =>
      by_cases hk : k ∈ way
      · exact .inl ⟨hk, if_pos hk⟩
      · exact .inr ⟨hk, value k, hrecord k, if_neg hk⟩
  | many ks =>
    exact ⟨_, rfl, List.forall₂_map_right_iff.mpr (List.forall₂_same.mpr fun k _ => hrecord k)⟩

/-- The record of an entity: its loaded fields, and its loaded relationships. -/
theorem unfoldTo_eq_ok (hindex : u.index = []) {depth : Nat} {way : List EntityKey}
    {path : Plan.RelationPath} {k : EntityKey} {v : Value} {n : Node} (hn : g.node? k = some n)
    (hmembers : n.entity.memberNames.Nodup)
    (hu : unfoldTo u (depth + 1) way path g k = .ok (v, h)) :
    ∃ es, v = .mapping es ∧ (∀ c ∈ n.entity.columns, ∀ w, n.column? c.field = some w →
        lookupText c.field es = some w) ∧
      ∀ r ∈ n.entity.relationships, ∀ ref, n.reference? r.name = some ref →
        ref.ShownAs (unfoldTo u depth (k :: way) (path ++ [r.name])) (k :: way) g
          (lookupText r.name es) := by
  rw [unfoldTo_eq hindex, Graph.unfolded, hn] at hu
  cases hu
  refine ⟨_, rfl, fun c hc w hw => ?_, fun r hr ref href => ?_⟩
  · have hname : c.field ∈ n.entity.columns.map (·.field) := List.mem_map_of_mem hc
    rw [lookupText_append, lookupText_fieldEntries, if_pos hname, hw, Option.some_or]
  · have hname : r.name ∈ n.entity.relationships.map (·.name) := List.mem_map_of_mem hr
    rw [lookupText_record (not_mem_fields hmembers hname), if_pos hname, href]
    exact shownAs_shown? (unfoldTo_eq hindex depth (k :: way) _) _ ref

theorem exists_unfoldItems (hrecord : ∀ g k, ∃ out, record g k = .ok out) (g : Graph)
    (ks : List EntityKey) : ∃ out, unfoldItems record g ks = .ok out := by
  induction ks generalizing g with
  | nil => exact ⟨_, rfl⟩
  | cons k ks ih =>
    obtain ⟨⟨v, i⟩, hv⟩ := hrecord g k
    obtain ⟨⟨vs, j⟩, hvs⟩ := ih i
    refine ⟨(v :: vs, j), ?_⟩
    unfold unfoldItems
    rw [hv]
    simp only [bind, Except.bind, hvs]

/-- Unfolding without keyed collections does not fail. -/
theorem exists_unfoldTo (hindex : u.index = []) (depth : Nat) (way : List EntityKey)
    (path : Plan.RelationPath) (g : Graph) (k : EntityKey) :
    ∃ out, unfoldTo u depth way path g k = .ok out :=
  ⟨_, unfoldTo_eq hindex depth way path k⟩

end EntityQuery
