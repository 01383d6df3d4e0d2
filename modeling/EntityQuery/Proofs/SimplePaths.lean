import EntityQuery.Proofs.OwnItems
/-!
Records of entities whose collections are not keyed. The record of an entity unfolds its graph along the
walks that meet no entity twice: each such walk has one nested record, which shows the entity at its end
without those on the way, and there are no others. So the unfolding ends on every graph.
-/
namespace EntityQuery

open Value

/-! ### Positions among the members that pass a test -/

section Positions

variable {α : Type} {test : α → Bool} {xs : List α} {x y : α} {i j : Nat}

/-- A member stands behind as many passing members as there are before it. -/
theorem getElem?_filter_countP (hx : xs[i]? = some x) (htest : test x = true) :
    (xs.filter test)[(xs.take i).countP test]? = some x := by
  induction xs generalizing i with
  | nil => simp at hx
  | cons a xs ih =>
    cases i with
    | zero =>
      obtain rfl : a = x := by simpa using hx
      simp [htest]
    | succ i =>
      have hrest := ih (i := i) (by simpa using hx)
      by_cases ha : test a = true
      · simpa [ha] using hrest
      · simpa [ha] using hrest

theorem exists_getElem?_of_filter (h : (xs.filter test)[j]? = some x) :
    ∃ i, xs[i]? = some x ∧ (xs.take i).countP test = j := by
  induction xs generalizing j with
  | nil => simp at h
  | cons a xs ih =>
    by_cases ha : test a = true
    · rw [List.filter_cons_of_pos ha] at h
      cases j with
      | zero => exact ⟨0, by simpa using h, by simp⟩
      | succ j =>
        obtain ⟨i, hi, hcount⟩ := ih (j := j) (by simpa using h)
        exact ⟨i + 1, by simpa using hi, by simp [ha, hcount]⟩
    · rw [List.filter_cons_of_neg ha] at h
      obtain ⟨i, hi, hcount⟩ := ih h
      exact ⟨i + 1, by simpa using hi, by simp [ha, hcount]⟩

/-- Passing members differ in the number of those before them. -/
theorem eq_of_countP_take (hx : xs[i]? = some x) (hy : xs[j]? = some y) (hxt : test x = true)
    (hyt : test y = true) (h : (xs.take i).countP test = (xs.take j).countP test) : i = j := by
  have hlt : ∀ {i j : Nat} {x : α}, xs[i]? = some x → test x = true → i < j →
      (xs.take i).countP test < (xs.take j).countP test := by
    intro i j x hx hxt hij
    have hnext : (xs.take (i + 1)).countP test = (xs.take i).countP test + 1 := by
      rw [List.take_add_one, hx]
      simp [hxt]
    have hle : (xs.take (i + 1)).countP test ≤ (xs.take j).countP test :=
      (List.take_sublist_take_left hij).countP_le
    omega
  rcases Nat.lt_trichotomy i j with hij | rfl | hij
  · have := hlt hx hxt hij
    omega
  · rfl
  · have := hlt hy hyt hij
    omega

end Positions

/-! ### Enough depth -/

/-- A way meets entities of the graph only, and none of them twice. -/
structure Graph.Meets (g : Graph) (way : List EntityKey) : Prop where
  nodup : way.Nodup
  has : ∀ x ∈ way, g.Has x

namespace Graph

variable {g : Graph} {way : List EntityKey} {k t : EntityKey} {n : Node} {ref : Reference} {name : String}

theorem mem_items_of_reference? (hn : g.node? k = some n) (href : n.reference? name = some ref)
    (ht : t ∈ ref.items) : t ∈ g.items k name := by
  simpa [items, Graph.reference?, hn, href] using ht

theorem Meets.hop (hclosed : g.Closed) (hway : g.Meets (k :: way)) (hn : g.node? k = some n)
    (href : n.reference? name = some ref) (ht : t ∈ ref.items) (hnew : t ∉ k :: way) :
    g.Meets (t :: k :: way) where
  nodup := List.nodup_cons.mpr ⟨hnew, hway.nodup⟩
  has x hx := by
    rcases List.mem_cons.mp hx with rfl | hx
    · exact hclosed k name x (mem_items_of_reference? hn href ht)
    · exact hway.has x hx

theorem Meets.length_lt (hway : g.Meets (k :: way)) : way.length < g.nodes.length :=
  length_way_le hway.nodup hway.has

/-- A way is no longer than the graph has different entities. -/
theorem Meets.length_le_eraseDups (hway : g.Meets way) :
    way.length ≤ (g.nodes.map (·.key)).eraseDups.length := by
  have hle := length_eraseDups_le fun x hx => mem_keys_of_has (hway.has x hx)
  rwa [eraseDups_eq_self hway.nodup] at hle

theorem shown?_congr {f h : EntityKey → Value} (hsame : ∀ t ∈ ref.items, t ∉ way → f t = h t) :
    ref.shown? way f = ref.shown? way h := by
  cases ref with
  | one t =>
    cases t with
    | none => rfl
    | some k =>
      by_cases hk : k ∈ way
      · simp [Reference.shown?, hk]
      · simp [Reference.shown?, hk, hsame k (by simp [Reference.items]) hk]
  | many ks =>
    refine congrArg (some ∘ Value.list) (List.map_congr_left fun t ht => ?_)
    obtain ⟨ht, hnew⟩ := List.mem_filter.mp ht
    exact hsame t ht (by simpa using hnew)

theorem referenceEntries_congr {f h : EntityKey → Value}
    (hsame : ∀ r ∈ n.entity.relationships, ∀ ref, n.reference? r.name = some ref →
      ∀ t ∈ ref.items, t ∉ way → f t = h t) :
    n.referenceEntries way f = n.referenceEntries way h := by
  refine List.filterMap_congr fun r hr => ?_
  cases href : n.reference? r.name with
  | none => rfl
  | some ref => simp [shown?_congr (hsame r hr ref href)]

/-- Depths that exceed the number of entities off the way give the same record: each hop meets a new
entity, and a way has no more entities than the graph. -/
theorem unfolded_eq_of_le (hclosed : g.Closed) {depth other : Nat} (hway : g.Meets (k :: way))
    (hdepth : g.nodes.length ≤ depth + way.length) (hother : g.nodes.length ≤ other + way.length) :
    g.unfolded depth way k = g.unfolded other way k := by
  induction depth generalizing other way k with
  | zero =>
    have := hway.length_lt
    omega
  | succ depth ih =>
    cases other with
    | zero =>
      have := hway.length_lt
      omega
    | succ other =>
      obtain ⟨n, hn⟩ := Option.isSome_iff_exists.mp (hway.has k List.mem_cons_self)
      unfold unfolded
      simp only [hn]
      refine congrArg (fun es => Value.mapping (n.fieldEntries ++ es)) (referenceEntries_congr ?_)
      intro r hr ref href t ht hnew
      refine ih (hway.hop hclosed hn href ht hnew) ?_ ?_
      · rw [List.length_cons]
        omega
      · rw [List.length_cons]
        omega

/-- The record of an entity, without the entities on a way. -/
def below (g : Graph) (way : List EntityKey) (k : EntityKey) : Value :=
  g.unfolded g.nodes.length way k

/-- The record of an entity shows the records of those that its references lead to. -/
theorem below_eq (hclosed : g.Closed) (hway : g.Meets (k :: way)) (hn : g.node? k = some n) :
    g.below way k =
      .mapping (n.fieldEntries ++ n.referenceEntries (k :: way) (g.below (k :: way))) := by
  have hlength := hway.length_lt
  obtain ⟨depth, hdepth⟩ : ∃ depth, g.nodes.length = depth + 1 := ⟨g.nodes.length - 1, by omega⟩
  have hunfold : g.below way k =
      .mapping (n.fieldEntries ++ n.referenceEntries (k :: way) (g.unfolded depth (k :: way))) := by
    rw [below, hdepth, unfolded]
    simp only [hn]
  rw [hunfold]
  refine congrArg (fun es => Value.mapping (n.fieldEntries ++ es)) (referenceEntries_congr ?_)
  intro r hr ref href t ht hnew
  refine unfolded_eq_of_le hclosed (hway.hop hclosed hn href ht hnew) ?_ ?_
  · rw [List.length_cons]
    omega
  · exact Nat.le_add_right _ _

end Graph

/-! ### Walks and their places -/

/-- A hop: a relationship, and the position of an entity among those that it leads to. -/
structure Hop where
  relation : String
  position : Nat
  deriving DecidableEq, Repr

/-- The items of a list by their positions; a single value is its own item at position zero. -/
def Value.item? : Value → Nat → Option Value
  | .list vs, position => vs[position]?
  | v, position => if position = 0 then some v else none

/-- The value at a place in a record: each hop names an entry and an item of it. -/
def Value.at? : Value → List Hop → Option Value
  | v, [] => some v
  | .mapping es, hop :: place =>
    ((lookupText hop.relation es).bind (·.item? hop.position)).bind fun v => at? v place
  | _, _ :: _ => none

/-- Walks along loaded relationships that meet no entity twice, from the end of one way to the end of
another; the entities of a way stand from its end to its start. The place of a walk in the record has its
hops too, but in a collection it counts only the items that are not on the way. -/
inductive Graph.Walk (g : Graph) : List EntityKey → List Hop → List Hop → List EntityKey → Prop
  | stay (way : List EntityKey) : g.Walk way [] [] way
  | hop {k t : EntityKey} {way last : List EntityKey} {n : Node} {ref : Reference} {hop : Hop}
      {hops place : List Hop} (node : g.node? k = some n)
      (relation : hop.relation ∈ n.entity.relationships.map (·.name))
      (loaded : n.reference? hop.relation = some ref) (item : ref.items[hop.position]? = some t)
      (new : t ∉ k :: way) (rest : g.Walk (t :: k :: way) hops place last) :
      g.Walk (k :: way) (hop :: hops)
        (⟨hop.relation, (ref.items.take hop.position).countP fun x => !(k :: way).contains x⟩ :: place) last

/-- A place inside the value of a field: on the way to it, a hop names a field of the entity whose record
stands there. -/
def Graph.InField (g : Graph) (way : List EntityKey) (place : List Hop) : Prop :=
  ∃ hops before hop after k last n, place = before ++ hop :: after ∧ g.Walk way hops before (k :: last) ∧
    g.node? k = some n ∧ hop.relation ∈ n.entity.columns.map (·.field)

namespace Graph

variable {g : Graph} {way last last' : List EntityKey} {k t : EntityKey} {n : Node}
  {ref : Reference} {hops hops' place place' : List Hop} {es : List (Value × Value)} {name : String}

theorem Walk.meets (hclosed : g.Closed) (hway : g.Meets way) (h : g.Walk way hops place last) :
    g.Meets last := by
  induction h with
  | stay => exact hway
  | hop hn _ href ht hnew _ ih => exact ih (hway.hop hclosed hn href (List.mem_of_getElem? ht) hnew)

theorem Walk.length (h : g.Walk way hops place last) :
    last.length = way.length + hops.length ∧ place.length = hops.length := by
  induction h with
  | stay => simp
  | hop hn _ href ht hnew _ ih =>
    simp only [List.length_cons] at ih ⊢
    omega

/-- The hops of a walk determine its place and where it ends. -/
theorem Walk.unique (h : g.Walk way hops place last) (h' : g.Walk way hops place' last') :
    place' = place ∧ last' = last := by
  induction h generalizing place' last' with
  | stay =>
    cases h'
    exact ⟨rfl, rfl⟩
  | hop hn _ href ht _ _ ih =>
    cases h' with
    | hop hn' _ href' ht' _ hrest =>
      cases hn.symm.trans hn'
      cases href.symm.trans href'
      cases ht.symm.trans ht'
      obtain ⟨rfl, rfl⟩ := ih hrest
      exact ⟨rfl, rfl⟩

/-- Walks to one place are the same: items that are shown differ in the number of those before them. -/
theorem Walk.hops_eq (h : g.Walk way hops place last) (h' : g.Walk way hops' place' last')
    (hplace : place' = place) : hops' = hops := by
  induction h generalizing hops' place' last' with
  | stay =>
    cases h' with
    | stay => rfl
    | hop => cases hplace
  | @hop k t way last n ref hop hops place hn _ href ht hnew _ ih =>
    cases h' with
    | stay => cases hplace
    | @hop _ t' _ _ n' ref' hop' hops' place' hn' _ href' ht' hnew' hrest =>
      obtain ⟨hhop, rfl⟩ := List.cons.inj hplace
      obtain ⟨hrelation, hcount⟩ := Hop.mk.inj hhop
      cases hn.symm.trans hn'
      rw [hrelation] at href'
      cases href.symm.trans href'
      have hposition : hop'.position = hop.position :=
        eq_of_countP_take ht' ht (by simpa using hnew') (by simpa using hnew) hcount
      rw [hposition] at ht'
      cases ht.symm.trans ht'
      rw [ih hrest rfl, show hop' = hop from by cases hop; cases hop'; simp_all]

/-! ### The records at the places of walks -/

theorem exists_below (g : Graph) (way : List EntityKey) (k : EntityKey) :
    ∃ es, g.below way k = .mapping es := by
  unfold below
  cases g.nodes.length with
  | zero => exact ⟨[], rfl⟩
  | succ depth =>
    unfold unfolded
    cases g.node? k with
    | none => exact ⟨[], rfl⟩
    | some n => exact ⟨_, rfl⟩

variable {record : EntityKey → Value} {i j : Nat} {w : Value}

/-- What is shown of a reference has the record of an item that is not on the way, behind those of the
earlier such items. -/
theorem item?_shown (hrecord : ∀ t, ∃ es, record t = .mapping es) (ht : ref.items[i]? = some t)
    (hnew : t ∉ way) :
    (ref.shown? way record).bind (·.item? ((ref.items.take i).countP fun x => !way.contains x)) =
      some (record t) := by
  cases ref with
  | one target =>
    obtain rfl : target = some t := by
      cases target with
      | none => cases ht
      | some x =>
        cases i with
        | zero => exact ht
        | succ i => cases ht
    obtain rfl : i = 0 := by
      cases i with
      | zero => rfl
      | succ i => cases ht
    obtain ⟨es, hes⟩ := hrecord t
    simp [Reference.shown?, hnew, hes, Value.item?]
  | many ks =>
    have hfiltered : (ks.filter fun x => !way.contains x)[(ks.take i).countP fun x => !way.contains x]? =
        some t := getElem?_filter_countP ht (by simpa using hnew)
    simp only [Reference.shown?, Reference.items, Option.bind_some, Value.item?, List.getElem?_map,
      hfiltered, Option.map_some]

/-- What is shown of a reference has nothing but a null and the records of such items. -/
theorem exists_item_of_shown (hrecord : ∀ t, ∃ es, record t = .mapping es)
    (h : (ref.shown? way record).bind (·.item? j) = some w) :
    w = .null ∨ ∃ i t, ref.items[i]? = some t ∧ t ∉ way ∧
      ((ref.items.take i).countP fun x => !way.contains x) = j ∧ w = record t := by
  obtain ⟨v, hv, hitem⟩ := Option.bind_eq_some_iff.mp h
  cases ref with
  | one target =>
    cases target with
    | none =>
      cases hv
      exact .inl (Option.some.inj (Option.ite_none_right_eq_some.mp hitem).2).symm
    | some t =>
      obtain ⟨hnew, hv⟩ := Option.ite_none_left_eq_some.mp hv
      obtain rfl : record t = v := Option.some.inj hv
      obtain ⟨es, hes⟩ := hrecord t
      rw [hes] at hitem
      obtain ⟨rfl, hw⟩ := Option.ite_none_right_eq_some.mp hitem
      exact .inr ⟨0, t, rfl, by simpa using hnew, rfl, (hes.trans (Option.some.inj hw)).symm⟩
  | many ks =>
    cases hv
    rw [Value.item?, List.getElem?_map] at hitem
    obtain ⟨t, ht, rfl⟩ := Option.map_eq_some_iff.mp hitem
    obtain ⟨i, hi, hcount⟩ := exists_getElem?_of_filter ht
    exact .inr ⟨i, t, hi, by simpa using (List.mem_filter.mp (List.mem_of_getElem? ht)).2, hcount, rfl⟩

/-- At the place of a walk stands the record of the entity at its end, without those on the way. -/
theorem Walk.at?_below (hclosed : g.Closed)
    (hmembers : ∀ x n, g.node? x = some n → n.entity.memberNames.Nodup) {k k' : EntityKey}
    {way way' : List EntityKey} (hway : g.Meets (k :: way))
    (h : g.Walk (k :: way) hops place (k' :: way')) :
    (g.below way k).at? place = some (g.below way' k') := by
  generalize hstart : k :: way = start at h
  generalize hend : k' :: way' = last at h
  induction h generalizing k way with
  | stay =>
    cases hend
    cases hstart
    rfl
  | @hop k t way last n ref hop hops place hn hrelation href ht hnew _ ih =>
    cases hstart
    have hrest := ih (hway.hop hclosed hn href (List.mem_of_getElem? ht) hnew) rfl hend
    have hlookup : lookupText hop.relation (n.fieldEntries ++
        n.referenceEntries (k :: way) (g.below (k :: way))) = ref.shown? (k :: way) (g.below (k :: way)) := by
      rw [lookupText_record (not_mem_fields (hmembers k n hn) hrelation), if_pos hrelation, href,
        Option.bind_some]
    rw [below_eq hclosed hway hn]
    unfold Value.at?
    rw [hlookup, item?_shown (g.exists_below _) ht hnew]
    exact hrest

/-- Records stand at the places of walks only, apart from the values of fields. -/
theorem exists_walk_of_at? (hclosed : g.Closed) {k : EntityKey} {way : List EntityKey}
    (hway : g.Meets (k :: way)) (h : (g.below way k).at? place = some (.mapping es)) :
    (∃ hops last, g.Walk (k :: way) hops place last) ∨ g.InField (k :: way) place := by
  induction place generalizing k way with
  | nil => exact .inl ⟨[], k :: way, .stay _⟩
  | cons hop place ih =>
    obtain ⟨n, hn⟩ := Option.isSome_iff_exists.mp (hway.has k List.mem_cons_self)
    -- a hop to a field stays in the value of the field, any other one goes to an item that is shown
    by_cases hfield : hop.relation ∈ n.entity.columns.map (·.field)
    · exact .inr ⟨[], [], hop, place, k, way, n, rfl, .stay _, hn, hfield⟩
    rw [below_eq hclosed hway hn] at h
    unfold Value.at? at h
    rw [lookupText_record hfield] at h
    split at h
    · rename_i hrelation
      obtain ⟨v, hv, hplace⟩ := Option.bind_eq_some_iff.mp h
      obtain ⟨ref, href, hshown⟩ : ∃ ref, n.reference? hop.relation = some ref ∧
          (ref.shown? (k :: way) (g.below (k :: way))).bind (·.item? hop.position) = some v := by
        rw [Option.bind_assoc] at hv
        exact Option.bind_eq_some_iff.mp hv
      rcases exists_item_of_shown (g.exists_below _) hshown with rfl | ⟨i, t, ht, hnew, hcount, rfl⟩
      · cases place <;> cases hplace
      · have hhop : hop = ⟨hop.relation, (ref.items.take i).countP fun x => !(k :: way).contains x⟩ := by
          rw [hcount]
        have hway' := hway.hop hclosed hn href (List.mem_of_getElem? ht) hnew
        rw [hhop]
        rcases ih hway' hplace with ⟨hops, last, hwalk⟩ | hinside
        · exact .inl ⟨⟨hop.relation, i⟩ :: hops, last, .hop hn hrelation href ht hnew hwalk⟩
        · obtain ⟨hops, before, inner, after, k', last, m, rfl, hwalk, hm, hfield⟩ := hinside
          exact .inr ⟨⟨hop.relation, i⟩ :: hops, _ :: before, inner, after, k', last, m, rfl,
            .hop hn hrelation href ht hnew hwalk, hm, hfield⟩
    · cases h

/-! ### Whole records -/

/-- How the record of a root shows a graph, where `record way k` is the record of an entity without those
on the way to it. -/
structure UnfoldsAlong (u : Unfolding) (g : Graph) (root : EntityKey)
    (record : List EntityKey → EntityKey → Value) : Prop where
  /-- The unfolding ends before any depth that is not less than the number of entities. -/
  ends : ∀ depth, g.nodes.length ≤ depth → unfoldTo u depth [] [] g root = .ok (record [] root, g)
  whole : g.record u root = .ok (record [] root, g)
  /-- The record at the place of a walk shows the entity that the walk ends at. -/
  shown : ∀ {hops place k way}, g.Walk [root] hops place (k :: way) → ∃ n, g.node? k = some n ∧
    (record [] root).at? place = some (record way k) ∧
    record way k = .mapping (n.fieldEntries ++ n.referenceEntries (k :: way) (record (k :: way)))
  only : ∀ {place es}, (record [] root).at? place = some (.mapping es) →
    (∃ hops last, g.Walk [root] hops place last) ∨ g.InField [root] place
  /-- Walks and their places determine each other. -/
  apart : ∀ {hops hops' place place' last last'}, g.Walk [root] hops place last →
    g.Walk [root] hops' place' last' → (hops = hops' ↔ place = place')
  depth : ∀ {hops place last}, g.Walk [root] hops place last →
    place.length < (g.nodes.map (·.key)).eraseDups.length

/-- The record of an entity unfolds any graph, cyclic ones too, along the walks that meet no entity
twice. -/
theorem record_unfolds {u : Unfolding} {root : EntityKey} (hindex : u.index = []) (hclosed : g.Closed)
    (hmembers : ∀ x n, g.node? x = some n → n.entity.memberNames.Nodup) (hroot : g.Has root) :
    ∃ record, UnfoldsAlong u g root record := by
  have hway : g.Meets [root] := ⟨List.nodup_singleton root, by simpa using hroot⟩
  refine ⟨g.below, ?_, unfoldTo_eq hindex _ _ _ _, ?_, exists_walk_of_at? hclosed hway, ?_, ?_⟩
  · intro depth hdepth
    rw [unfoldTo_eq hindex, below, unfolded_eq_of_le hclosed hway (by simpa using hdepth) (Nat.le_add_right _ _)]
  · intro hops place k way hwalk
    have hlast := hwalk.meets hclosed hway
    obtain ⟨n, hn⟩ := Option.isSome_iff_exists.mp (hlast.has k List.mem_cons_self)
    exact ⟨n, hn, hwalk.at?_below hclosed hmembers hway, below_eq hclosed hlast hn⟩
  · intro hops hops' place place' last last' hwalk hwalk'
    refine ⟨?_, fun h => (hwalk.hops_eq hwalk' h.symm).symm⟩
    rintro rfl
    exact (hwalk.unique hwalk').1.symm
  · intro hops place last hwalk
    obtain ⟨hlast, hplace⟩ := hwalk.length
    have hle := (hwalk.meets hclosed hway).length_le_eraseDups
    rw [List.length_singleton] at hlast
    omega

theorem closed_of_nodes (h : ∀ n ∈ g.nodes, ∀ e ∈ n.references, ∀ y ∈ e.2.items, (g.node? y).isSome) :
    g.Closed := by
  intro x name y hy
  unfold items reference? at hy
  cases hn : g.node? x with
  | none => simp [hn] at hy
  | some n =>
    cases href : n.reference? name with
    | none => simp [hn, href] at hy
    | some ref =>
      obtain ⟨before, after, hsplit, -⟩ := List.lookup_eq_some_iff.mp href
      exact h n (List.mem_of_find?_eq_some hn) (name, ref) (hsplit ▸ by simp) y (by simpa [hn, href] using hy)

/-- Three categories: the first one lists itself among its children, and the third one is a child of the
other two. -/
def tangledCategories : Graph where
  nodes :=
    let key (n : Int) : EntityKey := ⟨"shop.Category", [.integer n]⟩
    let category (n : Int) (parent : Option EntityKey) (children : List EntityKey) : Node :=
      { key := key n, entity := Model.Shop.category, columns := [("id", .integer n)],
        references := [("parent", .one parent), ("children", .many children)] }
    [category 1 none [key 1, key 2, key 3], category 2 (some (key 1)) [key 3],
      category 3 (some (key 1)) [key 2]]

theorem unfolds_tangledCategories :
    tangledCategories.Closed ∧ tangledCategories.Has ⟨"shop.Category", [.integer 1]⟩ ∧
      ∃ record, UnfoldsAlong ⟨fun _ _ => none, []⟩ tangledCategories ⟨"shop.Category", [.integer 1]⟩
        record :=
  have hclosed : tangledCategories.Closed := closed_of_nodes (by decide +kernel)
  have hroot : tangledCategories.Has ⟨"shop.Category", [.integer 1]⟩ := rfl
  have hmembers : ∀ n ∈ tangledCategories.nodes, n.entity.memberNames.Nodup := by decide +kernel
  ⟨hclosed, hroot, record_unfolds rfl hclosed (fun _ n hn => hmembers n (List.mem_of_find?_eq_some hn))
    hroot⟩

end Graph
end EntityQuery
