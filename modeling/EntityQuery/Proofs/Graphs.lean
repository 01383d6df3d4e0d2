import EntityQuery.Graph.Load
/-!
What a graph holds under an identity, and how adding and changing entities alters it. A graph grows
while entities and references are only added to it; items may be lost only where a relationship is
loaded for the first time.
-/
namespace EntityQuery

theorem lookup_filter_ne {α : Type} {name other : String} (h : other ≠ name)
    (entries : List (String × α)) :
    List.lookup other (entries.filter (·.1 != name)) = List.lookup other entries := by
  induction entries with
  | nil => rfl
  | cons p rest ih =>
    obtain ⟨n, v⟩ := p
    by_cases hn : n = name
    · subst hn
      have : (other == n) = false := beq_eq_false_iff_ne.mpr h
      simp [List.lookup_cons, this, ih]
    · simp only [List.filter_cons, bne_iff_ne, ne_eq, hn, not_false_eq_true, if_true, List.lookup_cons,
        ih]

namespace Node

theorem reference?_setReference (n : Node) (name other : String) (r : Reference) :
    (n.setReference name r).reference? other =
      if other = name then some r else n.reference? other := by
  unfold setReference reference?
  rw [List.lookup_append]
  by_cases h : other = name
  · subst h
    have hnone : List.lookup other (n.references.filter (·.1 != other)) = none := by
      rw [List.lookup_eq_none_iff]
      intro p hp
      have : p.1 ≠ other := by simpa using (List.mem_filter.mp hp).2
      exact bne_iff_ne.mpr this.symm
    simp [hnone]
  · have hother : (other == name) = false := beq_eq_false_iff_ne.mpr h
    have hlast : List.lookup other [(name, r)] = none := by
      simp [List.lookup_cons, hother]
    rw [hlast, lookup_filter_ne h, Option.or_none, if_neg h]

theorem column?_addColumns (n : Node) (columns : List (String × Value)) (field : String) :
    (n.addColumns columns).column? field = (n.column? field).or (List.lookup field columns) := by
  unfold addColumns column?
  rw [List.lookup_append]
  cases hf : List.lookup field n.columns with
  | some v => rfl
  | none =>
    rw [Option.none_or, Option.none_or]
    induction columns with
    | nil => rfl
    | cons c rest ih =>
      obtain ⟨name, v⟩ := c
      by_cases h : field = name
      · subst h
        simp [hf]
      · have hne : (field == name) = false := beq_eq_false_iff_ne.mpr h
        rw [List.filter_cons]
        split
        · simp only [List.lookup_cons, hne]
          exact ih
        · simp only [List.lookup_cons, hne]
          exact ih

theorem reference?_addColumns (n : Node) (columns : List (String × Value)) (name : String) :
    (n.addColumns columns).reference? name = n.reference? name := rfl

end Node

/-- The entities that a reference leads to. -/
def Reference.items : Reference → List EntityKey
  | one t => t.toList
  | many ks => ks

namespace Graph

theorem key_of_node? {g : Graph} {x : EntityKey} {n : Node} (h : g.node? x = some n) :
    n.key = x := by
  simpa using List.find?_some h

theorem node?_modify (g : Graph) (key x : EntityKey) {f : Node → Node}
    (hf : ∀ n, (f n).key = n.key) :
    (g.modify key f).node? x = if x = key then (g.node? x).map f else g.node? x := by
  obtain ⟨nodes⟩ := g
  simp only [modify, node?]
  induction nodes with
  | nil => simp
  | cons n rest ih =>
    rw [List.map_cons, List.find?_cons, List.find?_cons, ih]
    by_cases hk : n.key = key
    · by_cases hx : n.key = x
      · have hxk : x = key := hx.symm.trans hk
        simp [hk, hxk, hf]
      · have hb : ((f n).key == x) = false := by
          rw [hf]
          exact beq_eq_false_iff_ne.mpr hx
        simp [hk, hb, beq_eq_false_iff_ne.mpr (hk ▸ hx)]
    · by_cases hx : n.key = x
      · have hxk : x ≠ key := fun e => hk (hx.trans e)
        simp [hx, hxk]
      · have hb : (n.key == x) = false := beq_eq_false_iff_ne.mpr hx
        simp [hk, hb]

theorem node?_add (g : Graph) (n : Node) (x : EntityKey) :
    (g.add n).node? x = (g.node? x).or (if n.key = x then some n else none) := by
  simp only [add, node?, List.find?_append]
  congr 1
  by_cases h : n.key = x <;> simp [h]

/-- What holds of all loaded entities still does after one of them is changed. -/
theorem forall_modify {P : Node → Prop} {g : Graph} (hg : ∀ x n, g.node? x = some n → P n)
    {key : EntityKey} {f : Node → Node} (hf : ∀ n, (f n).key = n.key)
    (h : ∀ n, g.node? key = some n → P (f n)) :
    ∀ x n, (g.modify key f).node? x = some n → P n := fun x n hn => by
  rw [node?_modify g key x hf] at hn
  split at hn
  · rename_i hx
    subst hx
    obtain ⟨m, hm, rfl⟩ := Option.map_eq_some_iff.mp hn
    exact h m hm
  · exact hg x n hn

theorem forall_add {P : Node → Prop} {g : Graph} (hg : ∀ x n, g.node? x = some n → P n) {n : Node}
    (hn : P n) : ∀ x m, (g.add n).node? x = some m → P m := fun x m hm => by
  rw [node?_add] at hm
  cases hx : g.node? x with
  | some k =>
    rw [hx] at hm
    cases hm
    exact hg x _ hx
  | none =>
    rw [hx, Option.none_or] at hm
    split at hm
    · cases hm
      exact hn
    · cases hm

/-- Whether an entity has been loaded. -/
def Has (g : Graph) (x : EntityKey) : Prop := (g.node? x).isSome = true

/-- A loaded relationship of an entity. -/
def reference? (g : Graph) (x : EntityKey) (name : String) : Option Reference :=
  (g.node? x).bind (·.reference? name)

/-- The entities that a relationship of an entity leads to. -/
def items (g : Graph) (x : EntityKey) (name : String) : List EntityKey :=
  ((g.reference? x name).map Reference.items).getD []

theorem has_modify (g : Graph) (key x : EntityKey) {f : Node → Node}
    (hf : ∀ n, (f n).key = n.key) : (g.modify key f).Has x ↔ g.Has x := by
  unfold Has
  rw [node?_modify g key x hf]
  split <;> simp

theorem has_addColumns (g : Graph) (key x : EntityKey) (columns : List (String × Value)) :
    (g.modify key (·.addColumns columns)).Has x ↔ g.Has x :=
  have hkey : ∀ n : Node, (n.addColumns columns).key = n.key := fun _ => rfl
  has_modify g key x hkey

theorem has_add (g : Graph) (n : Node) (x : EntityKey) :
    (g.add n).Has x ↔ g.Has x ∨ n.key = x := by
  unfold Has
  rw [node?_add]
  cases g.node? x <;> simp

theorem reference?_setReference (g : Graph) (key x : EntityKey) (name other : String)
    (f : Node → Reference) (hg : g.Has key) :
    (g.modify key fun n => n.setReference name (f n)).reference? x other =
      if x = key ∧ other = name then (g.node? key).map f else g.reference? x other := by
  have hkey : ∀ n : Node, (n.setReference name (f n)).key = n.key := fun _ => rfl
  unfold reference?
  rw [node?_modify g key x hkey]
  obtain ⟨n, hn⟩ := Option.isSome_iff_exists.mp hg
  by_cases hx : x = key
  · subst hx
    rw [if_pos rfl, hn]
    simp only [Option.map_some, Option.bind_some, Node.reference?_setReference, true_and]
  · rw [if_neg hx, if_neg fun h => hx h.1]

theorem reference?_addColumns (g : Graph) (key x : EntityKey) (columns : List (String × Value))
    (name : String) :
    (g.modify key (·.addColumns columns)).reference? x name = g.reference? x name := by
  have hkey : ∀ n : Node, (n.addColumns columns).key = n.key := fun _ => rfl
  unfold reference?
  rw [node?_modify g key x hkey]
  split
  · cases g.node? x <;> rfl
  · rfl

theorem reference?_add {g : Graph} {n : Node} (hn : n.references = []) (x : EntityKey)
    (name : String) : (g.add n).reference? x name = g.reference? x name := by
  unfold reference?
  rw [node?_add]
  cases g.node? x with
  | some m => rfl
  | none =>
    by_cases h : n.key = x <;> simp [h, Node.reference?, hn]

/-- A graph holds all that another one holds, apart from items where `lost` allows it. -/
structure Grows (lost : EntityKey → String → Prop) (g h : Graph) : Prop where
  has : ∀ x, g.Has x → h.Has x
  loaded : ∀ x name, (g.reference? x name).isSome = true → (h.reference? x name).isSome = true
  items : ∀ x name, ¬ lost x name → ∀ y ∈ g.items x name, y ∈ h.items x name

variable {lost less : EntityKey → String → Prop}

theorem Grows.refl (g : Graph) : Grows lost g g :=
  ⟨fun _ h => h, fun _ _ h => h, fun _ _ _ _ h => h⟩

theorem Grows.trans {g h k : Graph} (hg : Grows lost g h) (hh : Grows lost h k) :
    Grows lost g k :=
  ⟨fun x hx => hh.has x (hg.has x hx), fun x name hr => hh.loaded x name (hg.loaded x name hr),
    fun x name hl y hy => hh.items x name hl y (hg.items x name hl y hy)⟩

theorem Grows.mono {g h : Graph} (hg : Grows less g h) (hle : ∀ x name, less x name → lost x name) :
    Grows lost g h :=
  ⟨hg.has, hg.loaded, fun x name hl => hg.items x name fun hx => hl (hle x name hx)⟩

theorem items_eq {g h : Graph} {x : EntityKey} {name : String}
    (hr : h.reference? x name = g.reference? x name) : h.items x name = g.items x name := by
  unfold Graph.items
  rw [hr]

/-- Changing a graph without touching its references. -/
theorem Grows.of_reference? {g h : Graph} (hhas : ∀ x, g.Has x → h.Has x)
    (hr : ∀ x name, h.reference? x name = g.reference? x name) : Grows lost g h :=
  ⟨hhas, fun x name hs => by rw [hr]; exact hs, fun x name _ y hy => by
    rw [items_eq (hr x name)]; exact hy⟩

/-- Changing one reference of one entity. -/
theorem Grows.setReference {g : Graph} {key : EntityKey} {name : String} {f : Node → Reference}
    (hg : g.Has key)
    (hf : ∀ n, g.node? key = some n → ¬ lost key name →
      ∀ y ∈ g.items key name, y ∈ (f n).items) :
    Grows lost g (g.modify key fun n => n.setReference name (f n)) := by
  have hkey : ∀ n : Node, (n.setReference name (f n)).key = n.key := fun _ => rfl
  obtain ⟨n, hn⟩ := Option.isSome_iff_exists.mp hg
  refine ⟨fun x hx => (has_modify g key x hkey).mpr hx, fun x other hr => ?_,
    fun x other hl y hy => ?_⟩
  · rw [reference?_setReference g key x name other f hg]
    split
    · simp [hn]
    · exact hr
  · unfold Graph.items
    rw [reference?_setReference g key x name other f hg]
    by_cases h : x = key ∧ other = name
    · obtain ⟨rfl, rfl⟩ := h
      simpa [hn] using hf n hn hl y hy
    · rw [if_neg h]
      exact hy

/-- All entities of a graph stay what they are and keep their fields. -/
def Keeps (g h : Graph) : Prop :=
  ∀ x n, g.node? x = some n → ∃ m, h.node? x = some m ∧ m.entity = n.entity ∧
    ∀ field v, n.column? field = some v → m.column? field = some v

theorem Keeps.refl (g : Graph) : Keeps g g := fun _ n hn => ⟨n, hn, rfl, fun _ _ h => h⟩

theorem Keeps.trans {g h k : Graph} (hg : Keeps g h) (hh : Keeps h k) : Keeps g k := by
  intro x n hn
  obtain ⟨m, hm, hentity, hcolumns⟩ := hg x n hn
  obtain ⟨l, hl, hentity', hcolumns'⟩ := hh x m hm
  exact ⟨l, hl, hentity'.trans hentity, fun field v hv => hcolumns' field v (hcolumns field v hv)⟩

theorem keeps_modify {g : Graph} {key : EntityKey} {f : Node → Node} (hf : ∀ n, (f n).key = n.key)
    (hentity : ∀ n, (f n).entity = n.entity)
    (h : ∀ n, g.node? key = some n → ∀ field v, n.column? field = some v →
      (f n).column? field = some v) : Keeps g (g.modify key f) := by
  intro x n hn
  rw [node?_modify g key x hf]
  split
  · rename_i hx
    subst hx
    exact ⟨f n, by rw [hn]; rfl, hentity n, h n hn⟩
  · exact ⟨n, hn, rfl, fun _ _ h => h⟩

theorem keeps_add (g : Graph) (n : Node) : Keeps g (g.add n) := by
  intro x m hm
  exact ⟨m, by rw [node?_add, hm]; rfl, rfl, fun _ _ h => h⟩

end Graph
end EntityQuery
