import EntityQuery.Descriptor.Write
import EntityQuery.Proofs.RecordReading
/-!
Descriptors that are written out and read again. Every descriptor is read from the mapping that writes it,
so a value that has been read once is read to the same descriptor when it is written out.
-/
namespace EntityQuery

namespace Reader

variable {α β : Type} {read : Value → Checked α}

theorem optional_optionalValue (write : α → Value)
    (h : ∀ a, optional read (write a) = .ok (some a)) (o : Option α) :
    optional read (optionalValue write o) = .ok o := by
  cases o with
  | none => rfl
  | some a => exact h a

theorem natural_naturalValue (n : Nat) : natural (naturalValue n) = .ok n := by
  have hbound : ¬ (n : Int) < 0 := by omega
  simp [natural, naturalValue, integerFrom, integer, Except.bind, Except.map, hbound]

theorem optional_natural (n : Option Nat) :
    optional natural (optionalValue naturalValue n) = .ok n := by
  refine optional_optionalValue naturalValue (fun n => ?_) n
  exact congrArg (Except.map some) (natural_naturalValue n)

theorem optional_text (s : Option String) : optional text (optionalValue .text s) = .ok s :=
  optional_optionalValue .text (fun _ => rfl) s

theorem itemsFrom_texts (i : Nat) (xs : List String) :
    itemsFrom text i (xs.map .text) = .ok xs := by
  induction xs generalizing i with
  | nil => rfl
  | cons x xs ih =>
    rw [List.map_cons, itemsFrom, ih]
    rfl

theorem list_textList (xs : List String) : list text (textList xs) = .ok xs := itemsFrom_texts 0 xs

theorem entries_texts {write : α → Value} (h : ∀ a, read (write a) = .ok a) (es : List (String × α)) :
    entries read (es.map fun e => (.text e.1, write e.2)) = .ok es :=
  entries_eq_ok_iff.mpr (List.forall₂_map_left_iff.mpr (List.forall₂_same.mpr fun e _ => ⟨rfl, h e.2⟩))

/-- A map is read from the mapping that writes it, its names in the same order. -/
theorem readMap_toValue (write : α → Value) (h : ∀ a, read (write a) = .ok a) (m : OrderedMap α) :
    Descriptor.readMap read (m.toValue write) = .ok m := by
  change (entries read (m.entries.map fun e => (.text e.1, write e.2))).map OrderedMap.ofList = _
  rw [entries_texts h]
  exact congrArg Except.ok (OrderedMap.ext (OrderedMap.entries_ofList m.nodup))

/-- The record that gives values for fields, each under its snake case spelling. -/
def snakeRecord (given : List (FieldName × Value)) : List (Value × Value) :=
  given.map fun e => (.text e.1.snake, e.2)

variable {given : List (FieldName × Value)} {f : FieldName} {v : Value}

theorem lookupText_snakeRecord_of_ne {s : String} (h : ∀ e ∈ given, e.1.snake ≠ s) :
    Value.lookupText s (snakeRecord given) = none := by
  induction given with
  | nil => rfl
  | cons e given ih =>
    rw [snakeRecord, List.map_cons, Value.lookupText_cons, if_neg (h e List.mem_cons_self)]
    exact ih fun e he => h e (List.mem_cons_of_mem _ he)

/-- A field is found under its snake case spelling alone. -/
theorem lookupText_snakeRecord (hapart : (given.map Prod.fst).Pairwise FieldName.Apart)
    (h : (f, v) ∈ given) :
    Value.lookupText f.snake (snakeRecord given) = some v ∧
      (f.snake ≠ f.camel → Value.lookupText f.camel (snakeRecord given) = none) := by
  induction given with
  | nil => cases h
  | cons e given ih =>
    rw [List.map_cons, List.pairwise_cons, List.forall_mem_map] at hapart
    rw [snakeRecord, List.map_cons, Value.lookupText_cons, Value.lookupText_cons]
    rcases List.mem_cons.mp h with rfl | h
    · refine ⟨if_pos rfl, fun hne => ?_⟩
      rw [if_neg hne]
      exact lookupText_snakeRecord_of_ne fun e he => (hapart.1 e he).1.2.symm
    · obtain ⟨hsnake, hcamel⟩ := ih hapart.2 h
      have hne := hapart.1 _ h
      rw [if_neg hne.2.2, if_neg hne.2.1]
      exact ⟨hsnake, hcamel⟩

theorem find?_snakeRecord (hapart : (given.map Prod.fst).Pairwise FieldName.Apart)
    (h : (f, v) ∈ given) : f.find? (snakeRecord given) = some (f.snake, v) := by
  obtain ⟨hsnake, hcamel⟩ := lookupText_snakeRecord hapart h
  unfold FieldName.find?
  by_cases hsame : f.snake = f.camel
  · rw [← hsame, hsnake]
  · rw [hcamel hsame, hsnake]
    rfl

theorem gives_snakeRecord {reads : Value → α → Prop} {default a : α}
    (hapart : (given.map Prod.fst).Pairwise FieldName.Apart) (h : (f, v) ∈ given) (hv : reads v a) :
    f.Gives (snakeRecord given) default reads a := by
  unfold FieldName.Gives FieldName.given?
  rw [find?_snakeRecord hapart h]
  exact hv

theorem covered_snakeRecord (hapart : (given.map Prod.fst).Pairwise FieldName.Apart) :
    Covered (given.map Prod.fst) (snakeRecord given) := by
  intro key hkey
  obtain ⟨e, he, rfl⟩ := List.mem_map.mp (List.map_map ▸ hkey)
  refine ⟨e.1.snake, List.mem_filterMap.mpr ⟨e.1, List.mem_map_of_mem he, ?_⟩, rfl⟩
  rw [find?_snakeRecord hapart he]
  rfl

end Reader

namespace Descriptor

open Reader

theorem upperText_joinType (t : JoinType) : upperText (.text t.text) = .text t.text :=
  congrArg Value.text (by cases t <;> decide +kernel)

theorem upperText_conditionType (t : ConditionType) : upperText (.text t.text) = .text t.text :=
  congrArg Value.text (by cases t <;> decide +kernel)

theorem upperText_direction (d : Direction) : upperText (.text d.text) = .text d.text :=
  congrArg Value.text (by cases d <;> decide +kernel)

theorem lowerText_hydration (h : Hydration) : lowerText (.text h.text) = .text h.text :=
  congrArg Value.text (by cases h <;> decide +kernel)

theorem readJoinType_text (t : JoinType) : readJoinType (.text t.text) = .ok t := by
  unfold readJoinType
  rw [upperText_joinType]
  cases t <;> rfl

theorem readConditionType_optionalValue (t : Option ConditionType) :
    readConditionType (optionalValue (.text ∘ ConditionType.text) t) = .ok t := by
  cases t with
  | none => rfl
  | some t =>
    change readConditionType (.text t.text) = _
    unfold readConditionType
    rw [upperText_conditionType]
    cases t <;> rfl

theorem readDirection_text (d : Direction) : readDirection (.text d.text) = .ok d := by
  cases d <;> rfl

theorem readHydration_text (h : Hydration) :
    choice Hydration.all Hydration.text (lowerText (.text h.text)) = .ok h := by
  rw [lowerText_hydration]
  cases h <;> rfl

theorem readRelationOptions_toValue (o : RelationOptions) : readRelationOptions o.toValue = .ok o := by
  let given : List (FieldName × Value) :=
    [(joinAliasName, optionalValue .text o.joinAlias), (joinTypeName, .text o.joinType.text),
     (joinConditionName, o.condition),
     (joinConditionTypeName, optionalValue (.text ∘ ConditionType.text) o.conditionType),
     (indexByName, optionalValue .text o.indexBy), (fieldsName, optionalValue textList o.fields)]
  have hapart : (given.map Prod.fst).Pairwise FieldName.Apart :=
    (by decide : relationNames.Pairwise FieldName.Apart)
  exact readRelationOptions_eq_ok_iff.mpr
    { joinAlias := gives_snakeRecord hapart (by simp [given]) (optional_text _)
      joinType := gives_snakeRecord hapart (by simp [given]) (readJoinType_text _)
      condition := gives_snakeRecord hapart (by simp [given]) rfl
      conditionType := gives_snakeRecord hapart (by simp [given]) (readConditionType_optionalValue _)
      indexBy := gives_snakeRecord hapart (by simp [given]) (optional_text _)
      fields := gives_snakeRecord hapart (by simp [given])
        (optional_optionalValue textList (fun xs => congrArg (Except.map some) (list_textList xs)) _)
      covered := covered_snakeRecord hapart }

theorem readCacheOptions_toValue (c : CacheOptions) : readCacheOptions c.toValue = .ok c := by
  let given : List (FieldName × Value) :=
    [(ttlName, optionalValue naturalValue c.ttl), (nameName, optionalValue .text c.name)]
  have hapart : (given.map Prod.fst).Pairwise FieldName.Apart :=
    (by decide : cacheNames.Pairwise FieldName.Apart)
  exact readCacheOptions_eq_ok_iff.mpr
    { ttl := gives_snakeRecord hapart (by simp [given]) (optional_natural _)
      name := gives_snakeRecord hapart (by simp [given]) (optional_text _)
      covered := covered_snakeRecord hapart }

/-- Relations that are written out are full already. -/
theorem relationsRead_toValue (m : OrderedMap RelationOptions) :
    relationsRead (m.toValue RelationOptions.toValue) m := by
  refine ⟨m.toValue RelationOptions.toValue, ?_, readMap_toValue _ readRelationOptions_toValue m⟩
  unfold OrderedMap.toValue fullRelations
  simp [fullOptions, RelationOptions.toValue, recordValue]

theorem sortRead_toValue (m : OrderedMap Direction) :
    sortRead (m.toValue (.text ∘ Direction.text)) m := by
  refine ⟨m.toValue (.text ∘ Direction.text), ?_, readMap_toValue _ readDirection_text m⟩
  unfold OrderedMap.toValue fullSort
  simp [upperText_direction]

/-- A descriptor is read from the mapping that writes it. -/
theorem ofValue_toValue (d : Descriptor) : ofValue d.toValue = .ok d := by
  let given : List (FieldName × Value) :=
    [(parametersName, d.parameters.toValue id),
     (relationsName, d.relations.toValue RelationOptions.toValue),
     (sortName, d.sort.toValue (.text ∘ Direction.text)),
     (limitName, optionalValue naturalValue d.limit), (offsetName, optionalValue naturalValue d.offset),
     (fieldsName, textList d.fields), (indexByName, optionalValue .text d.indexBy),
     (hydrationName, .text d.hydration.text), (cacheName, optionalValue CacheOptions.toValue d.cache),
     (countAvailableRowsName, .boolean d.countAvailableRows)]
  have hapart : (given.map Prod.fst).Pairwise FieldName.Apart :=
    apart_fieldNames
  exact ofValue_eq_ok_iff.mpr
    { parameters := gives_snakeRecord hapart (by simp [given]) (readMap_toValue id (fun _ => rfl) _)
      relations := gives_snakeRecord hapart (by simp [given]) (relationsRead_toValue _)
      sort := gives_snakeRecord hapart (by simp [given]) (sortRead_toValue _)
      limit := gives_snakeRecord hapart (by simp [given]) (optional_natural _)
      offset := gives_snakeRecord hapart (by simp [given]) (optional_natural _)
      fields := gives_snakeRecord hapart (by simp [given]) (list_textList _)
      indexBy := gives_snakeRecord hapart (by simp [given]) (optional_text _)
      hydration := gives_snakeRecord hapart (by simp [given]) (readHydration_text _)
      cache := gives_snakeRecord hapart (by simp [given])
        (optional_optionalValue CacheOptions.toValue
          (fun c => congrArg (Except.map some) (readCacheOptions_toValue c)) _)
      countAvailableRows := gives_snakeRecord hapart (by simp [given])
        (rfl : boolean (.boolean d.countAvailableRows) = _)
      covered := covered_snakeRecord hapart }

end Descriptor
end EntityQuery
