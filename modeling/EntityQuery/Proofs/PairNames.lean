import EntityQuery.Proofs.QueryPairs
/-!
Query strings by the names in their keys. What a descriptor says under a name comes from the values that
are given for this name, in their order, and from no others. So pairs of different names can change places,
and more pairs take no value from a filter.
-/
namespace EntityQuery

namespace OrderedMap

variable {α β : Type}

/-- Names that are inserted one after the other stand in the order of their first appearance. -/
theorem keys_foldl_insert (name : β → String) (value : OrderedMap α → β → α) (xs : List β) :
    (xs.foldl (fun (m : OrderedMap α) x => m.insert (name x) (value m x)) empty).keys =
      (xs.map name).eraseDups := by
  induction xs using List.reverseRecOn with
  | nil => rfl
  | append_singleton xs x ih =>
    rw [List.foldl_append, List.foldl_cons, List.foldl_nil, keys_insert, ih, List.map_append,
      List.map_singleton, eraseDups_append_singleton]
    simp only [List.mem_eraseDups]

/-- The value under a name is the last one that was inserted under it. -/
theorem find?_ofList (pairs : List (String × α)) (name : String) : (ofList pairs).find? name =
    (pairs.filterMap fun e => if e.1 = name then some e.2 else none).getLast? := by
  induction pairs using List.reverseRecOn with
  | nil => rfl
  | append_singleton pairs e ih =>
    have hlast : ofList (pairs ++ [e]) = (ofList pairs).insert e.1 e.2 := List.foldl_append
    rw [hlast, List.filterMap_append]
    by_cases h : e.1 = name
    · simp [h, find?_insert_self]
    · simp [h, find?_insert_of_ne _ _ (Ne.symm h), ih]

/-- Maps with the same values under all names have the same entries. -/
theorem entries_perm {m n : OrderedMap α} (h : ∀ name, m.find? name = n.find? name) :
    m.entries.Perm n.entries := by
  refine (List.perm_ext_iff_of_nodup (.of_map _ m.nodup) (.of_map _ n.nodup)).mpr fun e => ?_
  rw [mem_entries_iff, mem_entries_iff, h]

end OrderedMap

namespace Value

/-- The value that stands under names, one inside the other. -/
def under? (v : Value) : List String → Option Value
  | [] => some v
  | name :: names => match v with
    | mapping es => (lookupText name es).bind fun w => w.under? names
    | _ => none

theorem under?_singleton (es : List (Value × Value)) (name : String) :
    (mapping es).under? [name] = lookupText name es := by
  simp only [under?]
  cases lookupText name es <;> rfl

/-- The value under two names is one of the mapping under the first. -/
theorem under?_pair {es fs : List (Value × Value)} {field : String}
    (h : lookupText field es = some (mapping fs)) (name : String) :
    (mapping es).under? [field, name] = lookupText name fs := by
  rw [under?, h, Option.bind_some, under?_singleton]

/-- Mappings that differ in the order of their entries at most, at every depth. -/
inductive SameMapping : Value → Value → Prop
  | refl (v : Value) : SameMapping v v
  | perm {es fs : List (Value × Value)} (h : es.Perm fs) : SameMapping (mapping es) (mapping fs)
  | entry (before after : List (Value × Value)) (key : Value) {v w : Value} (h : SameMapping v w) :
      SameMapping (mapping (before ++ (key, v) :: after)) (mapping (before ++ (key, w) :: after))
  | trans {u v w : Value} (h : SameMapping u v) (h' : SameMapping v w) : SameMapping u w

theorem lookupText_map_entries {α : Type} (m : OrderedMap α) (write : α → Value) (name : String) :
    lookupText name (m.entries.map fun e => (.text e.1, write e.2)) = (m.find? name).map write := by
  unfold OrderedMap.find?
  induction m.entries with
  | nil => rfl
  | cons e es ih =>
    obtain ⟨n, v⟩ := e
    by_cases h : n = name
    · simp [lookupText_cons, h]
    · have h' : (name == n) = false := beq_eq_false_iff_ne.mpr (Ne.symm h)
      simp [lookupText_cons, List.lookup_cons, h, h', ih]

end Value

/-- The field of a descriptor that keys of a kind write to. -/
def BracketKind.field : BracketKind → String
  | filter => "parameters"
  | sort => "sort"
  | join => "relations"

namespace QueryString

/-- What a key speaks of: a name of a kind, or else the key itself. -/
def subject (key : String) : (BracketKind × String) ⊕ String :=
  match bracketKey? key with
  | some named => .inl named
  | none => .inr key

/-- The values that pairs give for a subject, in order. -/
def valuesOf (x : (BracketKind × String) ⊕ String) (pairs : List (String × String)) : List String :=
  pairs.filterMap fun p => if subject p.1 = x then some p.2 else none

/-- A subject that a descriptor says something about. -/
def Meant : (BracketKind × String) ⊕ String → Prop
  | .inl _ => True
  | .inr key => key ∈ plainKeys

theorem subject_eq_inl {key : String} {named : BracketKind × String} :
    subject key = .inl named ↔ bracketKey? key = some named := by
  unfold subject
  cases bracketKey? key <;> simp

theorem subject_eq_inr {key other : String} :
    subject key = .inr other ↔ bracketKey? key = none ∧ key = other := by
  unfold subject
  cases bracketKey? key <;> simp

theorem valuesOf_append (x : (BracketKind × String) ⊕ String) (ps qs : List (String × String)) :
    valuesOf x (ps ++ qs) = valuesOf x ps ++ valuesOf x qs := List.filterMap_append

theorem filterValues_eq (pairs : List (String × String)) (name : String) :
    filterValues pairs name = valuesOf (.inl (.filter, name)) pairs := by
  simp only [filterValues, valuesOf, subject_eq_inl]

theorem given_eq (key : String) (pairs : List (String × String)) :
    given key pairs = valuesOf (.inr key) pairs := by
  simp only [given, valuesOf, subject_eq_inr]

/-- The values under one name of a kind are those of its subject. -/
theorem filterMap_named (kind : BracketKind) (name : String) (pairs : List (String × String)) :
    ((named kind pairs).filterMap fun e => if e.1 = name then some e.2 else none) =
      valuesOf (.inl (kind, name)) pairs := by
  unfold named valuesOf
  rw [List.filterMap_filterMap]
  refine List.filterMap_congr fun p _ => ?_
  simp only [subject_eq_inl]
  cases bracketKey? p.1 with
  | none => rfl
  | some named =>
    obtain ⟨k, n⟩ := named
    by_cases hk : k = kind <;> simp [hk]

/-- A map that is written entry by entry has the last value of each name. -/
theorem find?_named (kind : BracketKind) (write : String → String) (pairs : List (String × String))
    (name : String) : (OrderedMap.ofList ((named kind pairs).map fun e => (e.1, write e.2))).find? name =
      (valuesOf (.inl (kind, name)) pairs).getLast?.map write := by
  rw [OrderedMap.find?_ofList, ← List.getLast?_map, ← filterMap_named, List.map_filterMap,
    List.filterMap_map]
  refine congrArg List.getLast? (List.filterMap_congr fun e _ => ?_)
  by_cases h : e.1 = name <;> simp [h]

/-! ### What a descriptor says -/

/-- What a descriptor says, by the values of each subject: one value of a filter as it is, several ones as
their list; of a sort entry, a join and a plain key the last value. Names stand in the order in which they
first appear. -/
structure ReadByName (pairs : List (String × String)) (v : Value) : Prop where
  noFilter : ∀ name, valuesOf (.inl (.filter, name)) pairs = [] → v.under? ["parameters", name] = none
  filter : ∀ name t, valuesOf (.inl (.filter, name)) pairs = [t] →
    v.under? ["parameters", name] = some (.text t)
  filters : ∀ name, 2 ≤ (valuesOf (.inl (.filter, name)) pairs).length →
    v.under? ["parameters", name] = some (.list ((valuesOf (.inl (.filter, name)) pairs).map .text))
  sort : ∀ name, v.under? ["sort", name] =
    (valuesOf (.inl (.sort, name)) pairs).getLast?.map fun t => .text (orElse t "asc")
  join : ∀ name, v.under? ["relations", name] =
    (valuesOf (.inl (.join, name)) pairs).getLast?.map fun t => joinOptions (orElse t "left")
  fields : v.under? ["fields"] =
    (valuesOf (.inr "fields") pairs).getLast?.map fun t => .list ((splitNames t).map .text)
  bounds : ∀ key ∈ ["limit", "offset", "index_by"],
    v.under? [key] = (valuesOf (.inr key) pairs).getLast?.map .text
  count : v.under? ["count_available_rows"] = (valuesOf (.inr "count") pairs).getLast?.map fun t =>
    .boolean (affirmations.contains (Text.lower t))
  names : ∀ kind : BracketKind, ∃ es, v.under? [kind.field] = some (.mapping es) ∧
    es.map Prod.fst = ((named kind pairs).map Prod.fst).eraseDups.map .text

/-- The fields that plain keys write, where they are given. -/
theorem lookupText_plain (q : QueryString) :
    Value.lookupText "fields" q.record = q.fields.map (fun names => .list (names.map .text)) ∧
      Value.lookupText "limit" q.record = q.limit.map .text ∧
      Value.lookupText "offset" q.record = q.offset.map .text ∧
      Value.lookupText "index_by" q.record = q.indexBy.map .text ∧
      Value.lookupText "count_available_rows" q.record = q.count.map .boolean := by
  have hnil : ∀ name, Value.lookupText name [] = none := fun _ => rfl
  simp [record, Value.lookupText_append, Value.lookupText_cons, lookupText_optionalEntry, hnil]

theorem under?_toValue (q : QueryString) (name : String) :
    q.toValue.under? [name] = Value.lookupText name q.record := Value.under?_singleton _ _

/-- A filter has the value that all its values make. -/
theorem under?_filter (pairs : List (String × String)) (name : String) :
    (ofPairs pairs).toValue.under? ["parameters", name] =
      if valuesOf (.inl (.filter, name)) pairs = [] then none
      else some (filterValue (valuesOf (.inl (.filter, name)) pairs)) := by
  refine (Value.under?_pair (lookupText_record _).1 name).trans ?_
  rw [Value.lookupText_map_entries, find?_filters, filterValues_eq]
  split <;> rfl

theorem under?_sort (pairs : List (String × String)) (name : String) :
    (ofPairs pairs).toValue.under? ["sort", name] =
      (valuesOf (.inl (.sort, name)) pairs).getLast?.map fun t => .text (orElse t "asc") := by
  refine (Value.under?_pair (lookupText_record _).2.1 name).trans ?_
  rw [Value.lookupText_map_entries, ofPairs_eq, find?_named .sort (orElse · "asc"), Option.map_map]
  rfl

theorem under?_join (pairs : List (String × String)) (name : String) :
    (ofPairs pairs).toValue.under? ["relations", name] =
      (valuesOf (.inl (.join, name)) pairs).getLast?.map fun t => joinOptions (orElse t "left") := by
  refine (Value.under?_pair (lookupText_record _).2.2.1 name).trans ?_
  rw [Value.lookupText_map_entries, ofPairs_eq, find?_named .join (orElse · "left"), Option.map_map]
  rfl

/-- The names of each kind stand in the order of their first appearance. -/
theorem keys_ofPairs (pairs : List (String × String)) :
    (ofPairs pairs).filters.keys = ((named .filter pairs).map Prod.fst).eraseDups ∧
      (ofPairs pairs).sort.keys = ((named .sort pairs).map Prod.fst).eraseDups ∧
      (ofPairs pairs).joins.keys = ((named .join pairs).map Prod.fst).eraseDups := by
  rw [ofPairs_eq]
  refine ⟨OrderedMap.keys_foldl_insert Prod.fst _ _, ?_, ?_⟩
  · refine (OrderedMap.keys_foldl_insert Prod.fst (fun _ e => e.2) _).trans ?_
    rw [List.map_map]
    rfl
  · refine (OrderedMap.keys_foldl_insert Prod.fst (fun _ e => e.2) _).trans ?_
    rw [List.map_map]
    rfl

theorem names_ofPairs (pairs : List (String × String)) (kind : BracketKind) :
    ∃ es, (ofPairs pairs).toValue.under? [kind.field] = some (.mapping es) ∧
      es.map Prod.fst = ((named kind pairs).map Prod.fst).eraseDups.map .text := by
  obtain ⟨hfilters, hsort, hjoins⟩ := keys_ofPairs pairs
  obtain ⟨hparameters, hsorted, hrelations, -⟩ := (ofPairs pairs).lookupText_record
  cases kind with
  | filter =>
    refine ⟨_, (under?_toValue _ _).trans hparameters, ?_⟩
    rw [List.map_map, ← hfilters, OrderedMap.keys, List.map_map]
    rfl
  | sort =>
    refine ⟨_, (under?_toValue _ _).trans hsorted, ?_⟩
    rw [List.map_map, ← hsort, OrderedMap.keys, List.map_map]
    rfl
  | join =>
    refine ⟨_, (under?_toValue _ _).trans hrelations, ?_⟩
    rw [List.map_map, ← hjoins, OrderedMap.keys, List.map_map]
    rfl

theorem readByName_ofPairs (pairs : List (String × String)) :
    ReadByName pairs (ofPairs pairs).toValue := by
  obtain ⟨hfields, hlimit, hoffset, hindex, hcount⟩ := (ofPairs pairs).lookupText_plain
  constructor
  case noFilter => exact fun name hnone => by rw [under?_filter, if_pos hnone]
  case filter =>
    intro name t hone
    rw [under?_filter, hone]
    rfl
  case filters =>
    intro name hmany
    rw [under?_filter]
    generalize valuesOf (.inl (.filter, name)) pairs = values at hmany ⊢
    match values, hmany with
    | v :: w :: rest, _ => rfl
  case sort => exact under?_sort pairs
  case join => exact under?_join pairs
  case fields =>
    rw [under?_toValue, hfields, ofPairs_eq, Option.map_map, given_eq]
    rfl
  case bounds =>
    intro key hkey
    simp only [List.mem_cons, List.not_mem_nil, or_false] at hkey
    rw [under?_toValue, ← given_eq]
    rcases hkey with rfl | rfl | rfl
    · rw [hlimit, ofPairs_eq]
    · rw [hoffset, ofPairs_eq]
    · rw [hindex, ofPairs_eq]
  case count =>
    rw [under?_toValue, hcount, ofPairs_eq, Option.map_map, given_eq]
    rfl
  case names => exact names_ofPairs pairs

/-! ### Pairs in another order -/

/-- The fields that plain keys write. -/
def plainEntries (q : QueryString) : List (Value × Value) :=
  optionalEntry "fields" (q.fields.map fun names => .list (names.map .text)) ++
  optionalEntry "limit" (q.limit.map .text) ++
  optionalEntry "offset" (q.offset.map .text) ++
  optionalEntry "index_by" (q.indexBy.map .text) ++
  optionalEntry "count_available_rows" (q.count.map .boolean)

/-- Maps with the same values under all names are written as the same mapping. -/
theorem sameMapping_entries {α : Type} {m n : OrderedMap α} (write : String × α → Value × Value)
    (h : ∀ name, m.find? name = n.find? name) :
    Value.SameMapping (.mapping (m.entries.map write)) (.mapping (n.entries.map write)) :=
  .perm ((OrderedMap.entries_perm h).map write)

/-- Queries that ask for the same under each name write the same mapping. -/
theorem sameMapping_toValue {q q' : QueryString}
    (hfilters : ∀ name, q.filters.find? name = q'.filters.find? name)
    (hsort : ∀ name, q.sort.find? name = q'.sort.find? name)
    (hjoins : ∀ name, q.joins.find? name = q'.joins.find? name)
    (hplain : q.plainEntries = q'.plainEntries) : Value.SameMapping q.toValue q'.toValue := by
  -- the three mappings stand behind the plain fields, and are changed one after the other
  let write (parameters sort relations : Value) : Value := .mapping (q.plainEntries ++
    [(.text "parameters", parameters), (.text "sort", sort), (.text "relations", relations)])
  have hfrom : q.toValue = write q.filtersValue q.sortValue q.joinsValue := rfl
  have hto : q'.toValue = write q'.filtersValue q'.sortValue q'.joinsValue := by
    simp only [write, hplain]
    rfl
  have hparameters (sort relations : Value) : Value.SameMapping
      (write q.filtersValue sort relations) (write q'.filtersValue sort relations) :=
    .entry _ _ _ (sameMapping_entries _ hfilters)
  have hsorted (parameters relations : Value) : Value.SameMapping
      (write parameters q.sortValue relations) (write parameters q'.sortValue relations) := by
    have h := Value.SameMapping.entry (q.plainEntries ++ [(.text "parameters", parameters)])
      [(.text "relations", relations)] (.text "sort")
      (sameMapping_entries (fun e => (.text e.1, .text e.2)) hsort)
    rwa [List.append_assoc, List.append_assoc] at h
  have hrelations (parameters sort : Value) : Value.SameMapping
      (write parameters sort q.joinsValue) (write parameters sort q'.joinsValue) := by
    have h := Value.SameMapping.entry
      (q.plainEntries ++ [(.text "parameters", parameters), (.text "sort", sort)]) []
      (.text "relations") (sameMapping_entries (fun e => (.text e.1, joinOptions e.2)) hjoins)
    rwa [List.append_assoc, List.append_assoc] at h
  rw [hfrom, hto]
  exact (hparameters _ _).trans ((hsorted _ _).trans (hrelations _ _))

/-- What a query string says depends on nothing but the values of each subject. -/
theorem sameMapping_ofPairs {pairs pairs' : List (String × String)}
    (h : ∀ x, Meant x → valuesOf x pairs = valuesOf x pairs') :
    Value.SameMapping (ofPairs pairs).toValue (ofPairs pairs').toValue := by
  have hgiven : ∀ key ∈ plainKeys, given key pairs = given key pairs' := fun key hkey => by
    rw [given_eq, given_eq, h (.inr key) hkey]
  apply sameMapping_toValue
  case hfilters =>
    intro name
    rw [find?_filters, find?_filters, filterValues_eq, filterValues_eq, h (.inl (.filter, name)) trivial]
  case hsort =>
    intro name
    rw [ofPairs_eq, ofPairs_eq, find?_named .sort (orElse · "asc"), find?_named .sort (orElse · "asc"),
      h (.inl (.sort, name)) trivial]
  case hjoins =>
    intro name
    rw [ofPairs_eq, ofPairs_eq, find?_named .join (orElse · "left"), find?_named .join (orElse · "left"),
      h (.inl (.join, name)) trivial]
  case hplain =>
    rw [ofPairs_eq, ofPairs_eq, hgiven "fields" (by decide), hgiven "limit" (by decide),
      hgiven "offset" (by decide), hgiven "index_by" (by decide), hgiven "count" (by decide)]
    rfl

/-- Two pairs that speak of different subjects change places. -/
inductive Swaps : List (String × String) → List (String × String) → Prop
  | swap {before after : List (String × String)} {p q : String × String} (h : subject p.1 ≠ subject q.1) :
      Swaps (before ++ p :: q :: after) (before ++ q :: p :: after)

theorem Swaps.valuesOf_eq {pairs pairs' : List (String × String)} (h : Swaps pairs pairs')
    (x : (BracketKind × String) ⊕ String) : valuesOf x pairs = valuesOf x pairs' := by
  obtain @⟨before, after, p, q, hne⟩ := h
  have hone (r : String × String) (rest : List (String × String)) : valuesOf x (r :: rest) =
      (if subject r.1 = x then [r.2] else []) ++ valuesOf x rest := by
    unfold valuesOf
    rw [List.filterMap_cons]
    by_cases hr : subject r.1 = x <;> simp [hr]
  rw [valuesOf_append, valuesOf_append, hone p, hone q, hone q, hone p]
  by_cases hp : subject p.1 = x
  · have hq : subject q.1 ≠ x := fun hq => hne (hp.trans hq.symm)
    simp [hp, hq]
  · simp [hp]

/-- Values keep their order while pairs of other subjects move past them. -/
theorem valuesOf_eq_of_swaps {pairs pairs' : List (String × String)}
    (h : Relation.ReflTransGen Swaps pairs pairs') (x : (BracketKind × String) ⊕ String) :
    valuesOf x pairs = valuesOf x pairs' := by
  induction h with
  | refl => rfl
  | tail _ hstep ih => exact ih.trans (hstep.valuesOf_eq x)

/-! ### More pairs -/

/-- A filter keeps its values where pairs follow, and takes theirs behind them. -/
theorem under?_filter_append {pairs : List (String × String)} (more : List (String × String))
    {name : String} {v : Value} (h : (ofPairs pairs).toValue.under? ["parameters", name] = some v) :
    ∃ w, (ofPairs (pairs ++ more)).toValue.under? ["parameters", name] = some w ∧
      w.asItems = v.asItems ++ (valuesOf (.inl (.filter, name)) more).map .text := by
  rw [under?_filter] at h
  split at h
  case isTrue => exact absurd h (Option.some_ne_none v).symm
  case isFalse hsome =>
    obtain rfl := Option.some.inj h
    have hmore : valuesOf (.inl (.filter, name)) (pairs ++ more) ≠ [] := by
      rw [valuesOf_append]
      exact List.append_ne_nil_of_left_ne_nil hsome _
    refine ⟨_, (under?_filter _ _).trans (if_neg hmore), ?_⟩
    rw [asItems_filterValue, asItems_filterValue, valuesOf_append, List.map_append]

/-- Pairs meet only under equal names: a descriptor says under each name what the values that are given
for it make, and no others have a say in it. So pairs of different names pass each other, and pairs that
follow leave each filter the values that it has. -/
theorem pairs_meet_by_name (pairs : List (String × String)) :
    ReadByName pairs (ofPairs pairs).toValue ∧
      (∀ pairs', (∀ x, Meant x → valuesOf x pairs = valuesOf x pairs') →
        Value.SameMapping (ofPairs pairs).toValue (ofPairs pairs').toValue) ∧
      (∀ pairs', Relation.ReflTransGen Swaps pairs pairs' →
        Value.SameMapping (ofPairs pairs).toValue (ofPairs pairs').toValue) ∧
      ∀ more name v, (ofPairs pairs).toValue.under? ["parameters", name] = some v →
        ∃ w, (ofPairs (pairs ++ more)).toValue.under? ["parameters", name] = some w ∧
          w.asItems = v.asItems ++ (valuesOf (.inl (.filter, name)) more).map .text :=
  ⟨readByName_ofPairs pairs, fun _ => sameMapping_ofPairs,
    fun _ h => sameMapping_ofPairs fun x _ => valuesOf_eq_of_swaps h x,
    fun more _ _ => under?_filter_append more⟩

end QueryString
end EntityQuery
