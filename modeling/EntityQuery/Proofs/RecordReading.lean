import Mathlib.Data.List.Forall2
import Mathlib.Data.List.Pairwise
import EntityQuery.Descriptor.Read
import EntityQuery.Proofs.Inputs
import EntityQuery.Proofs.Unfold
/-!
Records that are read field by field. A record is read exactly if the value of each field that it gives is
read and every entry belongs to a field; the fields that it does not give have their defaults. Relations
and sort entries that are written out first count as read from what they were written out from.
-/
namespace EntityQuery

namespace OrderedMap

variable {α : Type}

theorem insertEntry_of_not_mem {name : String} {v : α} {entries : List (String × α)}
    (h : name ∉ entries.map Prod.fst) : insertEntry name v entries = entries ++ [(name, v)] := by
  induction entries with
  | nil => rfl
  | cons e rest ih =>
    obtain ⟨n, w⟩ := e
    simp only [List.map_cons, List.mem_cons, not_or] at h
    rw [insertEntry, if_neg fun e => h.1 e.symm, ih h.2, List.cons_append]

/-- Pairs under distinct names are the entries of their map. -/
theorem entries_ofList {pairs : List (String × α)} (h : (pairs.map Prod.fst).Nodup) :
    (ofList pairs).entries = pairs := by
  induction pairs using List.reverseRecOn with
  | nil => rfl
  | append_singleton pairs p ih =>
    rw [List.map_append, List.nodup_append] at h
    have hfresh : p.1 ∉ pairs.map Prod.fst := fun hp => h.2.2 _ hp _ (by simp) rfl
    have hlast : (ofList (pairs ++ [p])).entries = insertEntry p.1 p.2 (ofList pairs).entries := by
      rw [ofList, List.foldl_append]
      rfl
    rw [hlast, ih h.1, insertEntry_of_not_mem hfresh]

end OrderedMap

namespace Value

theorem lookupText_insertKeyed_self (key : String) (v : Value) (es : List (Value × Value)) :
    lookupText key (insertKeyed (.text key) v es) = some v := by
  induction es with
  | nil => simp [insertKeyed, lookupText]
  | cons e es ih =>
    obtain ⟨k, w⟩ := e
    rw [insertKeyed]
    by_cases hk : sameKey k (.text key) = true
    · obtain rfl := sameKey_text_iff.mp hk
      simp [lookupText, hk]
    · have hne : k ≠ .text key := fun e => hk (sameKey_text_iff.mpr e)
      rw [if_neg hk]
      unfold lookupText at ih ⊢
      rw [List.findSome?_cons, ih]
      cases k <;> simp_all

theorem mem_of_lookupText {name : String} {es : List (Value × Value)} {v : Value}
    (h : lookupText name es = some v) : (text name, v) ∈ es := by
  obtain ⟨⟨k, w⟩, he, hk⟩ := List.exists_of_findSome?_eq_some h
  cases k with
  | text s =>
    dsimp only at hk
    split at hk
    · rename_i hs
      cases hk
      exact hs ▸ he
    · cases hk
  | _ => cases hk

theorem lookupText_ne_none {name : String} {es : List (Value × Value)}
    (h : text name ∈ es.map Prod.fst) : lookupText name es ≠ none := by
  obtain ⟨e, he, hname⟩ := List.mem_map.mp h
  intro hnone
  simpa [hname] using List.findSome?_eq_none_iff.mp hnone e he

/-- A value put under a key that is there leaves the keys as they are. -/
theorem map_fst_insertKeyed {key : String} {es : List (Value × Value)}
    (h : text key ∈ es.map Prod.fst) (v : Value) :
    (insertKeyed (text key) v es).map Prod.fst = es.map Prod.fst := by
  induction es with
  | nil => cases h
  | cons e es ih =>
    obtain ⟨k, w⟩ := e
    rw [insertKeyed]
    by_cases hk : sameKey k (text key) = true
    · rw [if_pos hk]
      rfl
    · have hrest : text key ∈ es.map Prod.fst :=
        (List.mem_cons.mp h).resolve_left fun e => hk (sameKey_text_iff.mpr e.symm)
      rw [if_neg hk, List.map_cons, ih hrest, List.map_cons]

end Value

theorem Checked.under_eq_ok_iff {α : Type} {part : PathPart} {x : Checked α} {a : α} :
    x.under part = .ok a ↔ x = .ok a := by
  cases x <;> simp [Checked.under]

namespace Reader

variable {α β : Type} {record : List (Value × Value)} {f : FieldName} {read : Value → Checked α}

theorem field_eq_ok {default : Checked α} {a : α} {name : String} {v : Value}
    (hf : f.find? record = some (name, v)) (h : field record f default read = .ok a) :
    read v = .ok a := by
  unfold field at h
  rw [hf] at h
  exact Checked.under_eq_ok_iff.mp h

/-- A field whose two spellings are one. -/
theorem find?_one (name : String) (record : List (Value × Value)) :
    (FieldName.mk name name).find? record =
      (Value.lookupText name record).map fun v => (name, v) := by
  unfold FieldName.find?
  cases Value.lookupText name record <;> rfl

theorem field_absent {default : Checked α} (hf : f.find? record = none) :
    field record f default read = default := by
  unfold field
  rw [hf]

/-- One of the two spellings of a field. -/
def FieldName.Spells (f : FieldName) (s : String) : Prop := s = f.camel ∨ s = f.snake

instance (f : FieldName) (s : String) : Decidable (f.Spells s) := inferInstanceAs (Decidable (_ ∨ _))

/-- Two fields without a spelling in common. -/
def FieldName.Apart (f g : FieldName) : Prop :=
  (f.camel ≠ g.camel ∧ f.camel ≠ g.snake) ∧ f.snake ≠ g.camel ∧ f.snake ≠ g.snake

instance (f g : FieldName) : Decidable (f.Apart g) := inferInstanceAs (Decidable (_ ∧ _))

instance : Std.Symm FieldName.Apart where
  symm _ _ h := ⟨⟨h.1.1.symm, h.2.1.symm⟩, h.1.2.symm, h.2.2.symm⟩

theorem FieldName.Apart.not_spells {g : FieldName} {s : String} (h : f.Apart g) (hs : f.Spells s) :
    ¬ g.Spells s := by
  rintro (hg | hg) <;> rcases hs with hf | hf
  · exact h.1.1 (hf.symm.trans hg)
  · exact h.2.1 (hf.symm.trans hg)
  · exact h.1.2 (hf.symm.trans hg)
  · exact h.2.2 (hf.symm.trans hg)

theorem spells_of_find? {s : String} {v : Value} (h : f.find? record = some (s, v)) :
    f.Spells s ∧ Value.lookupText s record = some v := by
  unfold FieldName.find? at h
  split at h
  · rename_i hcamel
    cases h
    exact ⟨.inl rfl, hcamel⟩
  · obtain ⟨w, hsnake, hw⟩ := Option.map_eq_some_iff.mp h
    cases hw
    exact ⟨.inr rfl, hsnake⟩

theorem find?_congr {other : List (Value × Value)}
    (h : ∀ s, f.Spells s → Value.lookupText s other = Value.lookupText s record) :
    f.find? other = f.find? record := by
  unfold FieldName.find?
  rw [h _ (.inl rfl), h _ (.inr rfl)]

/-- The value that a record gives for a field. -/
def FieldName.given? (f : FieldName) (record : List (Value × Value)) : Option Value :=
  (f.find? record).map Prod.snd

/-- A field has the value that is read from what the record gives for it, or else its default. -/
def FieldName.Gives (f : FieldName) (record : List (Value × Value)) (default : α)
    (reads : Value → α → Prop) (a : α) : Prop :=
  match f.given? record with
  | some v => reads v a
  | none => a = default

/-- A reader as a relation. -/
def Reads (read : Value → Checked α) (v : Value) (a : α) : Prop := read v = .ok a

theorem field_eq_ok_iff {default a : α} :
    field record f (.ok default) read = .ok a ↔ f.Gives record default (Reads read) a := by
  unfold field FieldName.Gives FieldName.given? Reads
  cases f.find? record with
  | none => exact ⟨fun h => (Except.ok.inj h).symm, congrArg Except.ok ∘ Eq.symm⟩
  | some found => exact Checked.under_eq_ok_iff

/-- Every entry of a record is the one under which a field is found. -/
def Covered (names : List FieldName) (record : List (Value × Value)) : Prop :=
  ∀ key ∈ record.map Prod.fst, ∃ s ∈ usedSpellings names record, key = .text s

theorem extras_eq_ok_iff {names : List FieldName} {u : Unit} :
    extras names record = .ok u ↔ Covered names record := by
  unfold extras Covered
  dsimp only
  have hempty : ∀ faults : List Fault,
      (if faults.isEmpty then Except.ok () else Except.error faults) = Except.ok u ↔ faults = [] := by
    rintro (_ | ⟨fault, faults⟩) <;> simp
  rw [hempty, List.filterMap_eq_nil_iff, List.forall_mem_map]
  refine forall₂_congr fun e _ => ?_
  obtain ⟨k, v⟩ := e
  cases k <;> simp

theorem entries_eq_ok_iff {es : List (Value × Value)} {xs : List (String × α)} :
    entries read es = .ok xs ↔
      List.Forall₂ (fun e x => text e.1 = .ok x.1 ∧ read e.2 = .ok x.2) es xs := by
  induction es generalizing xs with
  | nil => cases xs <;> simp [entries]
  | cons e es ih =>
    obtain ⟨k, v⟩ := e
    rw [entries]
    constructor
    · intro h
      obtain ⟨⟨x, xs⟩, hparts, rfl⟩ := ok_of_map h
      simp only [Checked.both_eq_ok_iff, Checked.under_eq_ok_iff] at hparts
      exact .cons hparts.1 (ih.mp hparts.2)
    · rintro (_ | @⟨_, x, _, xs, hx, hxs⟩)
      have hparts : Checked.both (Checked.both (((text k).under (.name "[key]")).under (keyPart k))
          ((read v).under (keyPart k))) (entries read es) = .ok (x, xs) := by
        simp only [Checked.both_eq_ok_iff, Checked.under_eq_ok_iff]
        exact ⟨hx, ih.mpr hxs⟩
      rw [hparts]
      rfl

end Reader

namespace Descriptor

open Reader

variable {r full : List (Value × Value)} {f g : FieldName} {rewrite : Value → Except ReadError Value}

/-- The entries that give a field stand in the place of what they were written out from. -/
theorem find?_rewriteField (h : rewriteField f rewrite r = .ok full) :
    f.find? full = none ∧ f.find? r = none ∨
      ∃ s v w, f.find? r = some (s, v) ∧ rewrite v = .ok w ∧ f.find? full = some (s, w) := by
  unfold rewriteField at h
  cases hfind : f.find? r with
  | none =>
    rw [hfind] at h
    cases h
    exact .inl ⟨hfind, rfl⟩
  | some found =>
    obtain ⟨s, v⟩ := found
    rw [hfind] at h
    obtain ⟨w, hw, rfl⟩ := ok_of_map h
    refine .inr ⟨s, v, w, rfl, hw, ?_⟩
    unfold FieldName.find? at hfind ⊢
    by_cases hs : s = f.camel
    · rw [hs, Value.lookupText_insertKeyed_self]
    · split at hfind
      · cases hfind
        exact absurd rfl hs
      · rename_i hcamel
        obtain ⟨v', hv', he⟩ := Option.map_eq_some_iff.mp hfind
        cases he
        rw [Value.lookupText_insertKeyed_of_ne hs, hcamel, Value.lookupText_insertKeyed_self]
        rfl

theorem rewriteField_eq_ok (h : rewriteField f rewrite r = .ok full) :
    full = r ∨ ∃ s v w, f.find? r = some (s, v) ∧ full = Value.insertKeyed (.text s) w r := by
  unfold rewriteField at h
  cases hfind : f.find? r with
  | none =>
    rw [hfind] at h
    exact .inl (Except.ok.inj h).symm
  | some found =>
    obtain ⟨s, v⟩ := found
    rw [hfind] at h
    obtain ⟨w, -, rfl⟩ := ok_of_map h
    exact .inr ⟨s, v, w, rfl, rfl⟩

/-- Writing out one field leaves the fields of other spellings. -/
theorem find?_rewriteField_of_ne (h : rewriteField f rewrite r = .ok full)
    (hapart : f.Apart g) : g.find? full = g.find? r := by
  rcases rewriteField_eq_ok h with rfl | ⟨s, v, w, hfind, rfl⟩
  · rfl
  · refine find?_congr fun s' hs' => Value.lookupText_insertKeyed_of_ne ?_ w r
    rintro rfl
    exact hapart.not_spells (spells_of_find? hfind).1 hs'

theorem map_fst_rewriteField (h : rewriteField f rewrite r = .ok full) :
    full.map Prod.fst = r.map Prod.fst := by
  rcases rewriteField_eq_ok h with rfl | ⟨s, v, w, hfind, rfl⟩
  · rfl
  · exact Value.map_fst_insertKeyed
      (List.mem_map_of_mem (Value.mem_of_lookupText (spells_of_find? hfind).2)) w

/-- Relation options that a record gives. -/
structure OptionsOf (r : List (Value × Value)) (o : RelationOptions) : Prop where
  joinAlias : joinAliasName.Gives r none (Reads (optional text)) o.joinAlias
  joinType : joinTypeName.Gives r .left (Reads readJoinType) o.joinType
  condition : joinConditionName.Gives r .null (Reads .ok) o.condition
  conditionType : joinConditionTypeName.Gives r none (Reads readConditionType) o.conditionType
  indexBy : indexByName.Gives r none (Reads (optional text)) o.indexBy
  fields : fieldsName.Gives r none (Reads (optional (list text))) o.fields
  covered : Covered relationNames r

theorem readRelationOptions_eq_ok_iff {o : RelationOptions} :
    readRelationOptions (.mapping r) = .ok o ↔ OptionsOf r o := by
  unfold readRelationOptions
  simp only [map_eq_ok_iff, Prod.exists, Checked.both_eq_ok_iff, field_eq_ok_iff, extras_eq_ok_iff]
  constructor
  · rintro ⟨a, t, c, ct, i, f, u, ⟨ha, ht, hc, hct, hi, hf, hcovered⟩, rfl⟩
    exact ⟨ha, ht, hc, hct, hi, hf, hcovered⟩
  · rintro ⟨ha, ht, hc, hct, hi, hf, hcovered⟩
    exact ⟨_, _, _, _, _, _, (), ⟨ha, ht, hc, hct, hi, hf, hcovered⟩, rfl⟩

/-- Cache options that a record gives. -/
structure CachingOf (r : List (Value × Value)) (c : CacheOptions) : Prop where
  ttl : ttlName.Gives r none (Reads (optional natural)) c.ttl
  name : nameName.Gives r none (Reads (optional text)) c.name
  covered : Covered cacheNames r

theorem readCacheOptions_eq_ok_iff {c : CacheOptions} :
    readCacheOptions (.mapping r) = .ok c ↔ CachingOf r c := by
  unfold readCacheOptions
  simp only [map_eq_ok_iff, Prod.exists, Checked.both_eq_ok_iff, field_eq_ok_iff, extras_eq_ok_iff]
  constructor
  · rintro ⟨t, n, u, ⟨ht, hn, hcovered⟩, rfl⟩
    exact ⟨ht, hn, hcovered⟩
  · rintro ⟨ht, hn, hcovered⟩
    exact ⟨_, _, (), ⟨ht, hn, hcovered⟩, rfl⟩

/-- A descriptor that a record gives, where relations and sort entries are read in a given way. -/
@[mk_iff]
structure DescriptorOf (relations : Value → OrderedMap RelationOptions → Prop)
    (sort : Value → OrderedMap Direction → Prop) (r : List (Value × Value)) (d : Descriptor) :
    Prop where
  parameters : parametersName.Gives r .empty (Reads (readMap .ok)) d.parameters
  relations : relationsName.Gives r .empty relations d.relations
  sort : sortName.Gives r .empty sort d.sort
  limit : limitName.Gives r none (Reads (optional natural)) d.limit
  offset : offsetName.Gives r none (Reads (optional natural)) d.offset
  fields : fieldsName.Gives r [] (Reads (list text)) d.fields
  indexBy : indexByName.Gives r none (Reads (optional text)) d.indexBy
  hydration : hydrationName.Gives r .entities
    (Reads fun v => choice Hydration.all Hydration.text (lowerText v)) d.hydration
  cache : cacheName.Gives r none (Reads (optional readCacheOptions)) d.cache
  countAvailableRows : countAvailableRowsName.Gives r false (Reads boolean) d.countAvailableRows
  covered : Covered fieldNames r

def readDirection : Value → Checked Direction := choice Direction.all Direction.text

theorem readRecord_eq_ok_iff {d : Descriptor} :
    readRecord r = .ok d ↔
      DescriptorOf (Reads (readMap readRelationOptions)) (Reads (readMap readDirection)) r d := by
  unfold readRecord readDirection
  simp only [map_eq_ok_iff, Prod.exists, Checked.both_eq_ok_iff, field_eq_ok_iff, extras_eq_ok_iff]
  constructor
  · rintro ⟨p, re, s, l, o, f, i, h, c, n, u, ⟨hp, hre, hs, hl, ho, hf, hi, hh, hc, hn, hcovered⟩, rfl⟩
    exact ⟨hp, hre, hs, hl, ho, hf, hi, hh, hc, hn, hcovered⟩
  · rintro ⟨hp, hre, hs, hl, ho, hf, hi, hh, hc, hn, hcovered⟩
    exact ⟨_, _, _, _, _, _, _, _, _, _, (), ⟨hp, hre, hs, hl, ho, hf, hi, hh, hc, hn, hcovered⟩, rfl⟩

/-- Reading what a value is written out to. -/
def ReadsFull {α : Type} (rewrite : Value → Except ReadError Value) (read : Value → Checked α) (v : Value)
    (a : α) : Prop := ∃ w, rewrite v = .ok w ∧ read w = .ok a

theorem gives_rewriteField {α : Type} {read : Value → Checked α} {default a : α}
    (h : rewriteField f rewrite r = .ok full) :
    f.Gives full default (Reads read) a ↔ f.Gives r default (ReadsFull rewrite read) a := by
  unfold FieldName.Gives FieldName.given?
  rcases find?_rewriteField h with ⟨hfull, hr⟩ | ⟨s, v, w, hr, hw, hfull⟩
  · rw [hfull, hr]
    rfl
  · rw [hfull, hr]
    exact ⟨fun hread => ⟨w, hw, hread⟩, fun ⟨w', hw', hread⟩ => Except.ok.inj (hw.symm.trans hw') ▸ hread⟩

/-- The fields of a descriptor have no spelling in common. -/
theorem apart_fieldNames : fieldNames.Pairwise FieldName.Apart := by decide

theorem gives_rewriteField_of_ne {α : Type} {reads : Value → α → Prop} {default a : α}
    (h : rewriteField f rewrite r = .ok full) (hf : f ∈ fieldNames) (hg : g ∈ fieldNames) (hne : g ≠ f) :
    g.Gives full default reads a ↔ g.Gives r default reads a := by
  unfold FieldName.Gives FieldName.given?
  rw [find?_rewriteField_of_ne h (apart_fieldNames.forall hf hg hne.symm)]

theorem covered_rewriteField (h : rewriteField f rewrite r = .ok full) (hf : f ∈ fieldNames) :
    Covered fieldNames full ↔ Covered fieldNames r := by
  have hused : usedSpellings fieldNames full = usedSpellings fieldNames r := by
    refine List.filterMap_congr fun g hg => ?_
    by_cases hgf : g = f
    · subst hgf
      rcases find?_rewriteField h with ⟨hfull, hr⟩ | ⟨s, v, w, hr, -, hfull⟩
      · rw [hfull, hr]
      · rw [hfull, hr]
        rfl
    · rw [find?_rewriteField_of_ne h (apart_fieldNames.forall hf hg (Ne.symm hgf))]
  unfold Covered
  rw [hused, map_fst_rewriteField h]

theorem exists_rewriteField {α : Type} {read : Value → Checked α} {default a : α}
    (h : f.Gives r default (ReadsFull rewrite read) a) : ∃ full, rewriteField f rewrite r = .ok full := by
  unfold rewriteField
  unfold FieldName.Gives FieldName.given? at h
  cases hfind : f.find? r with
  | none => exact ⟨r, rfl⟩
  | some found =>
    rw [hfind] at h
    obtain ⟨w, hw, -⟩ := h
    exact ⟨_, congrArg (Except.map _) hw⟩

/-- How the relations of a descriptor are read. -/
def relationsRead : Value → OrderedMap RelationOptions → Prop :=
  ReadsFull fullRelations (readMap readRelationOptions)

def sortRead : Value → OrderedMap Direction → Prop := ReadsFull fullSort (readMap readDirection)

/-- A mapping writes the descriptor that its entries give. -/
theorem ofValue_eq_ok_iff {d : Descriptor} :
    ofValue (.mapping r) = .ok d ↔ DescriptorOf relationsRead sortRead r d := by
  have hwritten : ∀ {full sorted}, rewriteField relationsName fullRelations r = .ok full →
      rewriteField sortName fullSort full = .ok sorted →
      (readRecord sorted = .ok d ↔ DescriptorOf relationsRead sortRead r d) := by
    intro full sorted hfull hsorted
    rw [readRecord_eq_ok_iff, descriptorOf_iff, descriptorOf_iff]
    simp (disch := decide) only [gives_rewriteField_of_ne hsorted, gives_rewriteField_of_ne hfull,
      gives_rewriteField hsorted, gives_rewriteField hfull, covered_rewriteField hsorted,
      covered_rewriteField hfull, relationsRead, sortRead]
  constructor
  · intro h
    unfold ofValue at h
    cases hfull : rewriteField relationsName fullRelations r with
    | error e => simp [hfull, Except.bind] at h
    | ok full =>
      cases hsorted : rewriteField sortName fullSort full with
      | error e => simp [hfull, hsorted, Except.bind] at h
      | ok sorted =>
        refine (hwritten hfull hsorted).mp ?_
        simp only [hfull, hsorted, Except.bind] at h
        cases hread : readRecord sorted with
        | error fs => simp [hread] at h
        | ok e => simpa [hread] using h
  · intro h
    obtain ⟨full, hfull⟩ := exists_rewriteField h.relations
    obtain ⟨sorted, hsorted⟩ := exists_rewriteField
      ((gives_rewriteField_of_ne hfull (by decide) (by decide) (by decide)).mpr h.sort)
    unfold ofValue
    simp only [hfull, hsorted, Except.bind, (hwritten hfull hsorted).mpr h]

end Descriptor
end EntityQuery
