import EntityQuery.Proofs.RecordReading
import EntityQuery.Service.Router
/-!
The descriptors that query strings write. A filter has the text that is given for it, or the list of the
texts where there are several; relations have a join type and nothing else.
-/
namespace EntityQuery

namespace OrderedMap

variable {α : Type}

theorem mem_entries_iff {m : OrderedMap α} {name : String} {v : α} :
    (name, v) ∈ m.entries ↔ m.find? name = some v := by
  constructor
  · intro h
    cases hfind : m.find? name with
    | none => simpa using List.lookup_eq_none_iff.mp hfind _ h
    | some w =>
      obtain ⟨before, after, hsplit, -⟩ := List.lookup_eq_some_iff.mp hfind
      have hw : (name, w) ∈ m.entries := by simp [hsplit]
      exact congrArg some (congrArg Prod.snd (List.inj_on_of_nodup_map m.nodup hw h rfl))
  · intro h
    obtain ⟨before, after, hsplit, -⟩ := List.lookup_eq_some_iff.mp h
    simp [hsplit]

end OrderedMap

namespace QueryString

/-- The values that a query string gives for a filter, in order. -/
def filterValues (query : List (String × String)) (key : String) : List String :=
  query.filterMap fun p => if bracketKey? p.1 = some (.filter, key) then some p.2 else none

theorem ofPairs_concat (query : List (String × String)) (p : String × String) :
    ofPairs (query ++ [p]) = (ofPairs query).addPair p.1 p.2 := by
  unfold ofPairs
  rw [List.foldl_append]
  rfl

/-- A pair adds its value to those of the filter that its key names. -/
theorem find?_filters_addPair (q : QueryString) (p : String × String) (key : String) :
    (q.addPair p.1 p.2).filters.find? key =
      if bracketKey? p.1 = some (.filter, key) then
        some ((q.filters.find? key).getD [] ++ [p.2]) else q.filters.find? key := by
  unfold addPair
  cases hkey : bracketKey? p.1 with
  | none =>
    have hno : ¬ (none : Option (BracketKind × String)) = some (.filter, key) := by simp
    rw [if_neg hno]
    dsimp only
    split_ifs <;> rfl
  | some named =>
    obtain ⟨kind, name⟩ := named
    cases kind with
    | filter =>
      dsimp only
      by_cases h : name = key
      · subst h
        rw [if_pos rfl]
        exact OrderedMap.find?_insert_self _ _ _
      · have hno : ¬ some (BracketKind.filter, name) = some (.filter, key) := by simpa using h
        rw [if_neg hno]
        exact OrderedMap.find?_insert_of_ne _ _ fun e => h e.symm
    | sort => rfl
    | join => rfl

/-- A query string has the filters that its pairs name, each with all its values. -/
theorem find?_filters (query : List (String × String)) (key : String) :
    (ofPairs query).filters.find? key =
      if filterValues query key = [] then none else some (filterValues query key) := by
  induction query using List.reverseRecOn with
  | nil => rfl
  | append_singleton query p ih =>
    have hvalues : filterValues (query ++ [p]) key = filterValues query key ++
        if bracketKey? p.1 = some (.filter, key) then [p.2] else [] := by
      unfold filterValues
      rw [List.filterMap_append]
      by_cases h : bracketKey? p.1 = some (.filter, key) <;> simp [h]
    rw [ofPairs_concat, find?_filters_addPair, ih, hvalues]
    by_cases h : bracketKey? p.1 = some (.filter, key)
    · have hsome : ¬ filterValues query key ++ [p.2] = [] := by simp
      rw [if_pos h, if_pos h, if_neg hsome]
      by_cases hnone : filterValues query key = [] <;> simp [hnone]
    · rw [if_neg h, if_neg h, List.append_nil]

theorem asItems_filterValue (ss : List String) : (filterValue ss).asItems = ss.map .text := by
  rcases ss with _ | ⟨s, _ | ⟨t, ss⟩⟩ <;> rfl

/-- The filters of a query string as a mapping. -/
def filtersValue (q : QueryString) : Value :=
  .mapping (q.filters.entries.map fun e => (.text e.1, filterValue e.2))

def sortValue (q : QueryString) : Value :=
  .mapping (q.sort.entries.map fun e => (.text e.1, .text e.2))

/-- A join type as options of a relation. -/
def joinOptions (text : String) : Value := .mapping [(.text "join_type", .text text)]

def joinsValue (q : QueryString) : Value :=
  .mapping (q.joins.entries.map fun e => (.text e.1, joinOptions e.2))

/-- The record that a query string writes. -/
def record (q : QueryString) : List (Value × Value) :=
  optionalEntry "fields" (q.fields.map fun names => .list (names.map .text)) ++
  optionalEntry "limit" (q.limit.map .text) ++
  optionalEntry "offset" (q.offset.map .text) ++
  optionalEntry "index_by" (q.indexBy.map .text) ++
  optionalEntry "count_available_rows" (q.count.map .boolean) ++
  [(.text "parameters", q.filtersValue), (.text "sort", q.sortValue), (.text "relations", q.joinsValue)]

theorem lookupText_optionalEntry (name other : String) (v : Option Value) :
    Value.lookupText name (optionalEntry other v) = if other = name then v else none := by
  cases v with
  | none => simp [optionalEntry, Value.lookupText]
  | some v => simp [optionalEntry, Value.lookupText]

/-- The filters, the sort entries and the joins of a query string are always given; some other fields
never are. -/
theorem lookupText_record (q : QueryString) :
    Value.lookupText "parameters" q.record = some q.filtersValue ∧
      Value.lookupText "sort" q.record = some q.sortValue ∧
      Value.lookupText "relations" q.record = some q.joinsValue ∧
      Value.lookupText "hydration" q.record = none ∧ Value.lookupText "cache" q.record = none := by
  have hnil : ∀ name, Value.lookupText name [] = none := fun _ => rfl
  simp [record, Value.lookupText_append, Value.lookupText_cons, lookupText_optionalEntry, hnil]

end QueryString

namespace Reader

variable {α β : Type}

/-- A mapping with texts as keys is read value by value. -/
theorem entries_eq_ok {read : Value → Checked α} {write : β → Value} {ys : List (String × β)}
    {xs : List (String × α)}
    (h : entries read (ys.map fun e => (.text e.1, write e.2)) = .ok xs) :
    List.Forall₂ (fun y x => x.1 = y.1 ∧ read (write y.2) = .ok x.2) ys xs :=
  (List.forall₂_map_left_iff.mp (entries_eq_ok_iff.mp h)).imp fun _ _ hx =>
    ⟨(Except.ok.inj hx.1).symm, hx.2⟩

/-- A map that is read from entries with distinct names has these entries, read value by value. -/
theorem readMap_eq_ok {read : Value → Checked α} (write : β → Value) {m : OrderedMap β}
    {n : OrderedMap α}
    (h : Descriptor.readMap read (.mapping (m.entries.map fun e => (.text e.1, write e.2))) = .ok n) :
    List.Forall₂ (fun y x => x.1 = y.1 ∧ read (write y.2) = .ok x.2) m.entries n.entries := by
  obtain ⟨xs, hxs, rfl⟩ := ok_of_map h
  have hread := entries_eq_ok hxs
  have hkeys : List.Forall₂ (· = ·) (xs.map Prod.fst) (m.entries.map Prod.fst) :=
    List.forall₂_map_left_iff.mpr (List.forall₂_map_right_iff.mpr (hread.flip.imp fun _ _ h => h.1))
  rw [List.forall₂_eq_eq_eq] at hkeys
  rw [OrderedMap.entries_ofList (hkeys ▸ m.nodup)]
  exact hread

end Reader

namespace Descriptor

open Reader

/-- Options that are read from a join type alone have nothing else. -/
theorem readRelationOptions_joinType {text : String} {o : RelationOptions}
    (h : readRelationOptions (QueryString.joinOptions text) = .ok o) :
    ∃ t, o = { joinType := t } := by
  obtain ⟨⟨a, t, c, ct, i, f, _⟩, hparts, rfl⟩ := ok_of_map h
  simp only [Checked.both_eq_ok_iff] at hparts
  obtain ⟨ha, -, hc, hct, hi, hf, -⟩ := hparts
  have habsent : ∀ f ∈ [joinAliasName, joinConditionName, joinConditionTypeName, indexByName,
      fieldsName], f.find? [(.text "join_type", .text text)] = none := by
    simp [FieldName.find?, Value.lookupText, joinAliasName, joinConditionName,
      joinConditionTypeName, indexByName, fieldsName]
  rw [field_absent (habsent _ (by simp))] at ha hc hct hi hf
  cases ha
  cases hc
  cases hct
  cases hi
  cases hf
  exact ⟨t, rfl⟩

/-- What a query string asks for. -/
structure FromQuery (query : List (String × String)) (d : Descriptor) : Prop where
  parameters : ∀ key v, (key, v) ∈ d.parameters.entries ↔
    QueryString.filterValues query key ≠ [] ∧
      v = QueryString.filterValue (QueryString.filterValues query key)
  relations : ∀ e ∈ d.relations.entries, ∃ t, e.2 = { joinType := t }
  hydration : d.hydration = .entities
  cache : d.cache = none

variable {query : List (String × String)}

/-- Writing out the relations and the sort entries of a query string changes the sort entries at most. -/
theorem rewritten_record (q : QueryString) : ∃ full,
    (rewriteField relationsName fullRelations q.record).bind (rewriteField sortName fullSort) =
        .ok full ∧
      ∀ name, name ≠ "sort" → Value.lookupText name full = Value.lookupText name q.record := by
  obtain ⟨-, hsort, hjoins, -⟩ := q.lookupText_record
  have hrelations : rewriteField relationsName fullRelations q.record =
      .ok (Value.insertKeyed (.text "relations") q.joinsValue q.record) := by
    have hfind : relationsName.find? q.record = some ("relations", q.joinsValue) := by
      rw [relationsName, find?_one, hjoins]
      rfl
    unfold rewriteField
    simp [hfind, QueryString.joinsValue, QueryString.joinOptions, fullRelations, fullOptions,
      Except.map, Function.comp_def]
  have hfind : sortName.find? (Value.insertKeyed (.text "relations") q.joinsValue q.record) =
      some ("sort", q.sortValue) := by
    rw [sortName, find?_one, Value.lookupText_insertKeyed_of_ne (by decide), hsort]
    rfl
  obtain ⟨sort, hsorted⟩ : ∃ sort, fullSort q.sortValue = .ok sort := ⟨_, rfl⟩
  refine ⟨Value.insertKeyed (.text "sort") sort
    (Value.insertKeyed (.text "relations") q.joinsValue q.record), ?_, fun name hname => ?_⟩
  · rw [hrelations]
    simp only [Except.bind, rewriteField, hfind, hsorted, Except.map]
  · rw [Value.lookupText_insertKeyed_of_ne (Ne.symm hname)]
    by_cases h : name = "relations"
    · subst h
      rw [Value.lookupText_insertKeyed_self, hjoins]
    · rw [Value.lookupText_insertKeyed_of_ne (Ne.symm h)]

/-- The descriptor of a query string is read from its record. -/
theorem descriptor_eq (query : List (String × String)) : ∃ full,
    (∀ name, name ≠ "sort" → Value.lookupText name full =
      Value.lookupText name (QueryString.ofPairs query).record) ∧
    Resource.descriptor query = match readRecord full with
      | .ok d => .ok d
      | .error fs => .error (.faults fs) := by
  obtain ⟨full, hfull, hlookup⟩ := rewritten_record (QueryString.ofPairs query)
  have hvalue : (QueryString.ofPairs query).toValue =
    .mapping (QueryString.ofPairs query).record := rfl
  refine ⟨full, hlookup, ?_⟩
  cases hread : readRecord full <;>
    simp only [Resource.descriptor, hvalue, ofValue, hfull, hread]

/-- A query string that writes no descriptor has faults. -/
theorem faults_of_descriptor {e : ReadError} (h : Resource.descriptor query = .error e) :
    ∃ fs, e = .faults fs := by
  obtain ⟨full, -, hdescriptor⟩ := descriptor_eq query
  rw [hdescriptor] at h
  split at h
  · cases h
  · rename_i fs _
    exact ⟨fs, (Except.error.inj h).symm⟩

/-- The descriptor of a query string asks for what its pairs say. -/
theorem fromQuery_of_descriptor {d : Descriptor} (h : Resource.descriptor query = .ok d) :
    d.FromQuery query := by
  obtain ⟨full, hlookup, hdescriptor⟩ := descriptor_eq query
  have hread : readRecord full = .ok d := by
    rw [hdescriptor] at h
    cases hr : readRecord full with
    | ok e =>
      rw [hr] at h
      cases h
      rfl
    | error fs =>
      rw [hr] at h
      cases h
  obtain ⟨⟨p, re, s, l, o, f, i, hy, c, n, _⟩, hparts, rfl⟩ := ok_of_map hread
  simp only [Checked.both_eq_ok_iff] at hparts
  obtain ⟨hp, hre, -, -, -, -, -, hhy, hc, -⟩ := hparts
  obtain ⟨hfilters, -, hjoins, hhydration, hcache⟩ := (QueryString.ofPairs query).lookupText_record
  rw [field_absent (by rw [hydrationName, find?_one, hlookup _ (by decide), hhydration]; rfl)] at hhy
  rw [field_absent (by rw [cacheName, find?_one, hlookup _ (by decide), hcache]; rfl)] at hc
  cases hhy
  cases hc
  have hparameters := readMap_eq_ok QueryString.filterValue (field_eq_ok
    (by rw [parametersName, find?_one, hlookup _ (by decide), hfilters]; rfl) hp)
  have hrelations := readMap_eq_ok QueryString.joinOptions (field_eq_ok
    (by rw [relationsName, find?_one, hlookup _ (by decide), hjoins]; rfl) hre)
  refine ⟨fun key v => ?_, fun e he => ?_, rfl, rfl⟩
  · have hentries : List.Forall₂ (· = ·) ((QueryString.ofPairs query).filters.entries.map fun e =>
        (e.1, QueryString.filterValue e.2)) p.entries :=
      List.forall₂_map_left_iff.mpr (hparameters.imp fun y x h =>
        Prod.ext h.1.symm (Except.ok.inj h.2))
    rw [List.forall₂_eq_eq_eq] at hentries
    change (key, v) ∈ p.entries ↔ _
    rw [← hentries, List.mem_map]
    constructor
    · rintro ⟨⟨name, vs⟩, hmem, he⟩
      obtain ⟨rfl, rfl⟩ := Prod.mk.inj he
      rw [OrderedMap.mem_entries_iff, QueryString.find?_filters] at hmem
      split at hmem
      · cases hmem
      · rename_i hsome
        cases hmem
        exact ⟨hsome, rfl⟩
    · rintro ⟨hsome, rfl⟩
      refine ⟨(key, QueryString.filterValues query key), OrderedMap.mem_entries_iff.mpr ?_, rfl⟩
      rw [QueryString.find?_filters, if_neg hsome]
  · obtain ⟨y, -, -, hoptions⟩ := exists_of_forall₂ hrelations he
    exact readRelationOptions_joinType hoptions

end Descriptor
end EntityQuery
