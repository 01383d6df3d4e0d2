import EntityQuery.Proofs.Brought
import EntityQuery.Proofs.Items
/-!
Records that are described place by place: which columns a record shows, under which names it refers to
others, and where these names lead. A loaded graph whose entities stand at places as the description says
is unfolded into records that are described, whether collections are keyed or not.
-/
namespace EntityQuery

open Value

/-- What the record at each place is like. -/
structure Description (Place : Type) where
  /-- The names of the columns that a record shows. -/
  columns : Place → List String → Prop
  /-- The names of the relationships that a record may show. -/
  joined : Place → String → Prop
  /-- The places that a relationship leads to. -/
  leads : Place → String → Place → Prop

section

variable {Place : Type}

mutual

/-- A record that is as described: so are its columns, its relationships, and the records in these. -/
inductive Described (D : Description Place) : Place → Value → Prop
  | record {a : Place} {fields relations : List (String × Value)}
      (hcolumns : D.columns a (fields.map Prod.fst)) (hjoined : ∀ e ∈ relations, D.joined a e.1)
      (hbelow : ∀ e ∈ relations, DescribedBelow D a e.1 e.2) :
      Described D a (.mapping ((fields ++ relations).map fun e => (.text e.1, e.2)))

/-- What stands under the name of a relationship: nothing, a record, or records in a list or by keys. -/
inductive DescribedBelow (D : Description Place) : Place → String → Value → Prop
  | none {a : Place} {name : String} : DescribedBelow D a name .null
  | one {a : Place} {name : String} {v : Value} (h : DescribedAt D a name v) : DescribedBelow D a name v
  | list {a : Place} {name : String} {vs : List Value} (h : ∀ v ∈ vs, DescribedAt D a name v) :
      DescribedBelow D a name (.list vs)
  | keyed {a : Place} {name : String} {es : List (Value × Value)}
      (h : ∀ e ∈ es, DescribedAt D a name e.2) : DescribedBelow D a name (.mapping es)

/-- A record at a place that a relationship leads to. -/
inductive DescribedAt (D : Description Place) : Place → String → Value → Prop
  | record {a b : Place} {name : String} {v : Value} (hleads : D.leads a name b)
      (h : Described D b v) : DescribedAt D a name v

end

variable {D : Description Place} {a : Place} {es : List (Value × Value)} {name : String} {v : Value}

/-- What a record shows under a name that is none of its columns stands for a relationship. -/
theorem Described.relationship (h : Described D a (.mapping es)) (hv : lookupText name es = some v)
    (hname : ∀ names, D.columns a names → name ∉ names) :
    D.joined a name ∧ DescribedBelow D a name v := by
  generalize hes : Value.mapping es = shown at h
  obtain ⟨hcolumns, hjoined, hbelow⟩ := h
  rename_i fields relations
  obtain rfl := Value.mapping.inj hes
  obtain ⟨e, he, hsome⟩ := List.exists_of_findSome?_eq_some hv
  obtain ⟨f, hf, rfl⟩ := List.mem_map.mp he
  obtain ⟨rfl, rfl⟩ : f.1 = name ∧ f.2 = v := by simpa using hsome
  rcases List.mem_append.mp hf with hf | hf
  · exact absurd (List.mem_map_of_mem hf) (hname _ hcolumns)
  · exact ⟨hjoined f hf, hbelow f hf⟩

/-- A mapping that holds anything but mappings is no keyed collection, so it is a record. -/
theorem DescribedBelow.record (h : DescribedBelow D a name (.mapping es)) {e : Value × Value}
    (he : e ∈ es) (hv : ∀ fs, e.2 ≠ .mapping fs) :
    ∃ b, D.leads a name b ∧ Described D b (.mapping es) := by
  cases h with
  | one h =>
    obtain ⟨hleads, h⟩ := h
    exact ⟨_, hleads, h⟩
  | keyed h =>
    obtain ⟨-, h⟩ := h e he
    generalize e.2 = shown at h hv
    obtain ⟨-, -, -⟩ := h
    exact absurd rfl (hv _)

end

namespace Node

theorem column?_setColumn (n : Node) (field other : String) (v : Value) :
    (n.setColumn field v).column? other = if other = field then some v else n.column? other := by
  unfold setColumn column?
  rw [List.lookup_append]
  by_cases h : other = field
  · subst h
    have hnone : List.lookup other (n.columns.filter (·.1 != other)) = none := by
      rw [List.lookup_eq_none_iff]
      intro p hp
      have hp' : p.1 ≠ other := by simpa using (List.mem_filter.mp hp).2
      exact bne_iff_ne.mpr hp'.symm
    simp [hnone]
  · have hlast : List.lookup other [(field, v)] = none := by
      simp [List.lookup_cons, beq_eq_false_iff_ne.mpr h]
    rw [hlast, lookup_filter_ne h, Option.or_none, if_neg h]

/-- The fields that a loaded entity shows. -/
def shownFields (n : Node) : List (String × Value) :=
  n.entity.columns.filterMap fun c => (n.column? c.field).map fun v => (c.field, v)

theorem fieldEntries_eq (n : Node) :
    n.fieldEntries = n.shownFields.map fun e => (.text e.1, e.2) := by
  unfold fieldEntries shownFields
  rw [List.map_filterMap]
  refine List.filterMap_congr fun c _ => ?_
  cases n.column? c.field <;> rfl

theorem mem_shownFields {n : Node} {name : String} : name ∈ n.shownFields.map Prod.fst ↔
    name ∈ n.entity.columns.map (·.field) ∧ (n.column? name).isSome = true := by
  simp only [shownFields, List.mem_map, List.mem_filterMap, Option.map_eq_some_iff]
  constructor
  · rintro ⟨e, ⟨c, hc, v, hv, rfl⟩, rfl⟩
    exact ⟨⟨c, hc, rfl⟩, by rw [hv]; rfl⟩
  · rintro ⟨⟨c, hc, rfl⟩, hsome⟩
    obtain ⟨v, hv⟩ := Option.isSome_iff_exists.mp hsome
    exact ⟨(c.field, v), ⟨c, hc, v, hv, rfl⟩, rfl⟩

end Node

namespace Graph

/-- A graph into which fields of entities have been read, some of those that `extra` allows. -/
structure ReadInto (extra : EntityKey → String → Prop) (g i : Graph) : Prop where
  node : ∀ x m, g.node? x = some m → ∃ n, i.node? x = some n ∧ n.entity = m.entity ∧
    n.references = m.references ∧
    (∀ f, (m.column? f).isSome = true → (n.column? f).isSome = true) ∧
    ∀ f, (n.column? f).isSome = true → (m.column? f).isSome = true ∨ extra x f
  length : i.nodes.length = g.nodes.length

variable {extra : EntityKey → String → Prop} {g i j : Graph}

theorem ReadInto.refl (g : Graph) : g.ReadInto extra g :=
  ⟨fun _ m hm => ⟨m, hm, rfl, rfl, fun _ h => h, fun _ h => .inl h⟩, rfl⟩

/-- Setting a column that may be read. -/
theorem ReadInto.setColumn (h : g.ReadInto extra i) {y : EntityKey} {field : String}
    (hmay : extra y field) (v : Value) : g.ReadInto extra (i.modify y (·.setColumn field v)) where
  node x m hm := by
    obtain ⟨n, hn, hentity, hreferences, hkept, hextra⟩ := h.node x m hm
    rw [node?_modify i y x (f := (·.setColumn field v)) fun _ => rfl]
    by_cases hx : x = y
    · subst hx
      refine ⟨n.setColumn field v, by rw [if_pos rfl, hn]; rfl, hentity, hreferences,
        fun f hf => ?_, fun f hf => ?_⟩
      · rw [Node.column?_setColumn]
        split
        · rfl
        · exact hkept f hf
      · rw [Node.column?_setColumn] at hf
        split at hf
        · rename_i hsame
          exact .inr (hsame ▸ hmay)
        · exact hextra f hf
    · exact ⟨n, by rw [if_neg hx, hn], hentity, hreferences, hkept, hextra⟩
  length := by simpa [Graph.modify] using h.length

/-- Reading a field that is loaded, or that may be read. -/
theorem ReadInto.readField (h : g.ReadInto extra i) {read : FieldReader} {y : EntityKey}
    {field : String} {m : Node} (hm : g.node? y = some m)
    (hmay : extra y field ∨ (m.column? field).isSome = true) {v : Value}
    (hr : i.readField read y field = .ok (v, j)) : g.ReadInto extra j := by
  obtain ⟨n, hn, -, -, hkept, -⟩ := h.node y m hm
  unfold Graph.readField at hr
  simp only [hn] at hr
  cases hcolumn : n.column? field with
  | some w =>
    rw [hcolumn] at hr
    cases hr
    exact h
  | none =>
    have hread : extra y field := hmay.resolve_right fun hsome => by
      have hkept := hkept field hsome
      rw [hcolumn] at hkept
      cases hkept
    simp only [hcolumn] at hr
    split at hr
    · cases hr
    · rename_i c _
      cases hvalue : read n c with
      | none =>
        rw [hvalue] at hr
        cases hr
        exact h
      | some w =>
        rw [hvalue] at hr
        cases hr
        exact h.setColumn hread v

end Graph

/-- A graph whose entities stand at places as a description says, but for fields that may be read. -/
structure Description.Fits {Place : Type} (D : Description Place) (u : Unfolding) (g : Graph)
    (extra : EntityKey → String → Prop) (Stands : Plan.RelationPath → Place → EntityKey → Prop) :
    Prop where
  has : ∀ path a x, Stands path a x → g.Has x
  columns : ∀ path a x m, Stands path a x → g.node? x = some m → ∀ names,
    (∀ f ∈ names, f ∈ m.entity.columns.map (·.field) ∧ ((m.column? f).isSome = true ∨ extra x f)) →
    (∀ f ∈ m.entity.columns.map (·.field), (m.column? f).isSome = true → f ∈ names) →
    D.columns a names
  joined : ∀ path a x name, Stands path a x → (g.reference? x name).isSome = true → D.joined a name
  leads : ∀ path a x name y, Stands path a x → y ∈ g.items x name →
    ∃ b, D.leads a name b ∧ Stands (path ++ [name]) b y
  index : ∀ path a x name y f, Stands path a x → y ∈ g.items x name →
    u.index.lookup (path ++ [name]) = some f → extra y f ∨ g.shows y f = true

section Unfolding

variable {Place : Type} {D : Description Place} {u : Unfolding} {g i j : Graph}
  {extra : EntityKey → String → Prop} {Stands : Plan.RelationPath → Place → EntityKey → Prop}

/-- Unfolding some entities gives records with a property, and only reads fields. -/
def UnfoldsInto (g : Graph) (extra : EntityKey → String → Prop) (Is : EntityKey → Prop)
    (Shown : Value → Prop) (record : Graph → EntityKey → Unfolded) : Prop :=
  ∀ y i v j, Is y → g.ReadInto extra i → record i y = .ok (v, j) → Shown v ∧ g.ReadInto extra j

variable {Is : EntityKey → Prop} {Shown : Value → Prop} {record : Graph → EntityKey → Unfolded}
  {ys : List EntityKey}

theorem unfoldItems_into (hrecord : UnfoldsInto g extra Is Shown record) (hys : ∀ y ∈ ys, Is y)
    (hi : g.ReadInto extra i) {vs : List Value} (hu : unfoldItems record i ys = .ok (vs, j)) :
    (∀ v ∈ vs, Shown v) ∧ g.ReadInto extra j := by
  induction ys generalizing i vs with
  | nil =>
    cases hu
    exact ⟨fun _ h => absurd h List.not_mem_nil, hi⟩
  | cons y ys ih =>
    obtain ⟨⟨v, k⟩, hv, hu⟩ := ok_of_bind hu
    obtain ⟨⟨ws, l⟩, hws, hu⟩ := ok_of_bind hu
    cases hu
    obtain ⟨hshown, hk⟩ := hrecord y i v k (hys y List.mem_cons_self) hi hv
    obtain ⟨hrest, hj⟩ := ih (fun z hz => hys z (List.mem_cons_of_mem y hz)) hk hws
    refine ⟨fun w hw => ?_, hj⟩
    rcases List.mem_cons.mp hw with rfl | hw
    · exact hshown
    · exact hrest w hw

theorem unfoldKeyed_into (hrecord : UnfoldsInto g extra Is Shown record) (hys : ∀ y ∈ ys, Is y)
    {read : FieldReader} {field : String} (hread : ∀ y ∈ ys, ∃ m, g.node? y = some m ∧
      (extra y field ∨ (m.column? field).isSome = true))
    (hi : g.ReadInto extra i) {es : List (Value × Value)}
    (hu : unfoldKeyed read field record i ys = .ok (es, j)) :
    (∀ e ∈ es, Shown e.2) ∧ g.ReadInto extra j := by
  induction ys generalizing i es with
  | nil =>
    cases hu
    exact ⟨fun _ h => absurd h List.not_mem_nil, hi⟩
  | cons y ys ih =>
    obtain ⟨⟨key, k⟩, hkey, hu⟩ := ok_of_bind hu
    obtain ⟨⟨v, l⟩, hv, hu⟩ := ok_of_bind hu
    obtain ⟨⟨fs, n⟩, hfs, hu⟩ := ok_of_bind hu
    cases hu
    obtain ⟨m, hm, hmay⟩ := hread y List.mem_cons_self
    obtain ⟨hshown, hl⟩ :=
      hrecord y k v l (hys y List.mem_cons_self) (hi.readField hm hmay hkey) hv
    obtain ⟨hrest, hj⟩ := ih (fun z hz => hys z (List.mem_cons_of_mem y hz))
      (fun z hz => hread z (List.mem_cons_of_mem y hz)) hl hfs
    refine ⟨fun e he => ?_, hj⟩
    rcases List.mem_cons.mp he with rfl | he
    · exact hshown
    · exact hrest e he

variable {a : Place} {name : String}

/-- The field by which the items of a collection are keyed is loaded of each, or may be read. -/
theorem Description.Fits.readable (hfits : D.Fits u g extra Stands) {path : Plan.RelationPath}
    {x y : EntityKey} (hx : Stands path a x) (hy : y ∈ g.items x name) {field : String}
    (hfield : u.index.lookup (path ++ [name]) = some field) :
    ∃ m, g.node? y = some m ∧ (extra y field ∨ (m.column? field).isSome = true) := by
  obtain ⟨b, -, hstands⟩ := hfits.leads path a x name y hx hy
  obtain ⟨m, hm⟩ := Option.isSome_iff_exists.mp (hfits.has _ _ _ hstands)
  refine ⟨m, hm, (hfits.index path a x name y field hx hy hfield).imp_right fun hshows => ?_⟩
  simpa [Graph.shows, hm] using hshows

/-- A reference is shown by records at the places that it leads to. -/
theorem unfoldReference_described (hfits : D.Fits u g extra Stands) {path : Plan.RelationPath}
    {x : EntityKey} (hx : Stands path a x) {ref : Reference} (href : g.reference? x name = some ref)
    {way : List EntityKey} (hrecord : UnfoldsInto g extra
      (fun y => y ∉ way ∧ ∃ b, D.leads a name b ∧ Stands (path ++ [name]) b y)
      (DescribedAt D a name) record)
    (hi : g.ReadInto extra i) {o : Option Value}
    (hu : unfoldReference u way (path ++ [name]) record i ref = .ok (o, j)) :
    (∀ v, o = some v → DescribedBelow D a name v) ∧ g.ReadInto extra j := by
  have hitem : ∀ y ∈ ref.items, y ∈ g.items x name := fun y hy => by
    simpa [Graph.items, href] using hy
  have hleads := fun y hy => hfits.leads path a x name y hx (hitem y hy)
  cases ref with
  | one target =>
    cases target with
    | none =>
      cases hu
      exact ⟨fun v hv => by cases hv; exact .none, hi⟩
    | some y =>
      unfold unfoldReference at hu
      by_cases hy : y ∈ way
      · simp only [List.contains_iff_mem, hy, if_true] at hu
        cases hu
        exact ⟨nofun, hi⟩
      · simp only [List.contains_iff_mem, hy, if_false] at hu
        obtain ⟨⟨v, k⟩, hv, he⟩ := ok_of_map hu
        cases he
        obtain ⟨hdescribed, hk⟩ := hrecord y i v _ ⟨hy, hleads y List.mem_cons_self⟩ hi hv
        exact ⟨fun w hw => by cases hw; exact .one hdescribed, hk⟩
  | many ks =>
    have hys : ∀ y ∈ ks.filter fun k => !way.contains k, y ∈ ks ∧ y ∉ way := fun y hy => by
      simpa [List.mem_filter] using hy
    have hplaces := fun y hy => And.intro (hys y hy).2 (hleads y (hys y hy).1)
    unfold unfoldReference at hu
    dsimp only at hu
    split at hu
    · obtain ⟨⟨vs, k⟩, hvs, he⟩ := ok_of_map hu
      cases he
      obtain ⟨hdescribed, hk⟩ := unfoldItems_into hrecord hplaces hi hvs
      exact ⟨fun w hw => by cases hw; exact .list hdescribed, hk⟩
    · rename_i field hfield
      obtain ⟨⟨es, k⟩, hes, he⟩ := ok_of_map hu
      cases he
      obtain ⟨hdescribed, hk⟩ := unfoldKeyed_into hrecord hplaces
        (fun y hy => hfits.readable hx (hitem y (hys y hy).1) hfield) hi hes
      refine ⟨fun w hw => ?_, hk⟩
      cases hw
      refine .keyed fun e he => ?_
      obtain ⟨q, hq, hsame⟩ := mem_keyedOfList he
      exact hsame ▸ hdescribed q hq

/-- The loaded relationships of an entity are shown under their names. -/
theorem unfoldReferences_described
    {unfold : Plan.RelationPath → Graph → Reference → Except QueryError (Option Value × Graph)}
    {path : Plan.RelationPath} {m n : Node} (hreferences : n.references = m.references)
    (hunfold : ∀ name ref i o j, m.reference? name = some ref → g.ReadInto extra i →
      unfold (path ++ [name]) i ref = .ok (o, j) →
        (∀ v, o = some v → DescribedBelow D a name v) ∧ g.ReadInto extra j)
    {rs : List Relationship} (hi : g.ReadInto extra i) {es : List (Value × Value)}
    (hu : unfoldReferences unfold path n i rs = .ok (es, j)) :
    ∃ relations : List (String × Value), es = relations.map (fun e => (.text e.1, e.2)) ∧
      (∀ e ∈ relations, (m.reference? e.1).isSome = true ∧ DescribedBelow D a e.1 e.2) ∧
      g.ReadInto extra j := by
  induction rs generalizing i es with
  | nil =>
    cases hu
    exact ⟨[], rfl, fun _ h => absurd h List.not_mem_nil, hi⟩
  | cons r rs ih =>
    have hsame : n.reference? r.name = m.reference? r.name := by
      unfold Node.reference?
      rw [hreferences]
    unfold unfoldReferences at hu
    rw [hsame] at hu
    cases href : m.reference? r.name with
    | none =>
      rw [href] at hu
      exact ih hi hu
    | some ref =>
      simp only [href] at hu
      obtain ⟨⟨o, k⟩, ho, hu⟩ := ok_of_bind hu
      obtain ⟨⟨fs, l⟩, hfs, hu⟩ := ok_of_bind hu
      cases hu
      obtain ⟨hshown, hk⟩ := hunfold r.name ref i o k href hi ho
      obtain ⟨relations, rfl, hrelations, hl⟩ := ih hk hfs
      refine ⟨(o.map fun v => (r.name, v)).toList ++ relations, ?_, fun e he => ?_, hl⟩
      · cases o <;> rfl
      · rcases List.mem_append.mp he with he | he
        · obtain ⟨v, hv, rfl⟩ : ∃ v, o = some v ∧ (r.name, v) = e := by simpa using he
          exact ⟨by rw [href]; rfl, hshown v hv⟩
        · exact hrelations e he

/-- The record of an entity is described as its place. -/
theorem unfoldTo_described (hfits : D.Fits u g extra Stands) (depth : Nat)
    {path : Plan.RelationPath} {x : EntityKey} (hx : Stands path a x) {way : List EntityKey}
    (hway : (x :: way).Nodup) (hhas : ∀ y ∈ x :: way, g.Has y)
    (hdepth : g.nodes.length ≤ depth + way.length) (hi : g.ReadInto extra i) {v : Value}
    (hu : unfoldTo u depth way path i x = .ok (v, j)) : Described D a v ∧ g.ReadInto extra j := by
  -- a way holds distinct entities of the graph, so the depth does not run out before they do
  induction depth generalizing a path x way i v j with
  | zero =>
    have := Graph.length_way_le hway hhas
    rw [List.length_cons] at this
    omega
  | succ depth ih =>
    obtain ⟨m, hm⟩ := Option.isSome_iff_exists.mp (hhas x List.mem_cons_self)
    obtain ⟨n, hn, hentity, hreferences, hkept, hextra⟩ := hi.node x m hm
    unfold unfoldTo at hu
    simp only [hn] at hu
    obtain ⟨⟨es, k⟩, hes, he⟩ := ok_of_map hu
    cases he
    have hreference : ∀ {name ref}, m.reference? name = some ref →
        g.reference? x name = some ref := fun h => by simp [Graph.reference?, hm, h]
    obtain ⟨relations, rfl, hrelations, hk⟩ := unfoldReferences_described (D := D) (a := a) hreferences
      (fun name ref i o j href hi ho => unfoldReference_described hfits hx (hreference href)
        (fun y i v j hplace hi hv => by
          obtain ⟨hnot, b, hleads, hy⟩ := hplace
          obtain ⟨hdescribed, hj⟩ := ih hy (List.nodup_cons.mpr ⟨hnot, hway⟩) (fun z hz => by
            rcases List.mem_cons.mp hz with rfl | hz
            · exact hfits.has _ _ _ hy
            · exact hhas z hz) (by rw [List.length_cons]; omega) hi hv
          exact ⟨.record hleads hdescribed, hj⟩) hi ho) hi hes
    refine ⟨?_, hk⟩
    rw [Node.fieldEntries_eq, ← List.map_append]
    refine .record (hfits.columns path a x m hx hm _ (fun f hf => ?_) fun f hf hloaded => ?_)
      (fun e he => ?_) fun e he => (hrelations e he).2
    · obtain ⟨hcolumn, hloaded⟩ := Node.mem_shownFields.mp hf
      exact ⟨hentity ▸ hcolumn, hextra f hloaded⟩
    · exact Node.mem_shownFields.mpr ⟨hentity.symm ▸ hf, hkept f hloaded⟩
    · obtain ⟨ref, href⟩ := Option.isSome_iff_exists.mp (hrelations e he).1
      exact hfits.joined path a x e.1 hx (by rw [hreference href]; rfl)

/-- A record at the root of all paths is described as one of the places of its entity. -/
def DescribedRoot (D : Description Place) (Stands : Plan.RelationPath → Place → EntityKey → Prop)
    (roots : List EntityKey) (v : Value) : Prop := ∃ x ∈ roots, ∃ a, Stands [] a x ∧ Described D a v

theorem record_described (hfits : D.Fits u g extra Stands) (roots : List EntityKey) :
    UnfoldsInto g extra (fun x => x ∈ roots ∧ ∃ a, Stands [] a x) (DescribedRoot D Stands roots)
      fun i x => i.record u x := by
  rintro x i v j ⟨hroot, a, hx⟩ hi hu
  obtain ⟨hdescribed, hj⟩ := unfoldTo_described hfits i.nodes.length hx (List.nodup_singleton x)
    (fun y hy => by
      cases List.mem_singleton.mp hy
      exact hfits.has _ _ _ hx) (Nat.le_of_eq hi.length.symm) hi hu
  exact ⟨⟨x, hroot, a, hx, hdescribed⟩, hj⟩

end Unfolding
end EntityQuery
