import Mathlib.Logic.Relation
import EntityQuery.Proofs.RecordReading
/-!
The spellings of a descriptor. A field has two names, relations and sort entries have short forms, and the
letters of choices may be capital or small. Whatever of this is changed in a mapping that writes a
descriptor, at any of its places and any number of times, it writes the same descriptor.
-/
namespace EntityQuery

namespace Value

theorem map_insertKeyed {α β : Type} (g : α → β) (key : Value) (v : α) (es : List (Value × α)) :
    (insertKeyed key v es).map (fun e => (e.1, g e.2)) =
      insertKeyed key (g v) (es.map fun e => (e.1, g e.2)) := by
  induction es with
  | nil => rfl
  | cons e es ih =>
    obtain ⟨k, w⟩ := e
    rw [List.map_cons, insertKeyed, insertKeyed]
    by_cases hk : sameKey k key = true
    · rw [if_pos hk, if_pos hk, List.map_cons]
    · rw [if_neg hk, if_neg hk, List.map_cons, ih]

/-- A mapping with its values changed is made from the changed pairs. -/
theorem map_keyedOfList {α β : Type} (g : α → β) (pairs : List (Value × α)) :
    (keyedOfList pairs).map (fun e => (e.1, g e.2)) =
      keyedOfList (pairs.map fun e => (e.1, g e.2)) := by
  induction pairs using List.reverseRecOn with
  | nil => rfl
  | append_singleton pairs p ih =>
    simp only [keyedOfList, List.map_append, List.map_cons, List.map_nil, List.foldl_append,
      List.foldl_cons, List.foldl_nil] at ih ⊢
    rw [map_insertKeyed, ih]

end Value

namespace Reader

/-- One entry of a record is changed: the spelling of its field, which the record gives nowhere else, or
its value. -/
inductive RecordRewrite (names : List FieldName) (change : FieldName → Value → Value → Prop) :
    List (Value × Value) → List (Value × Value) → Prop
  | spelling {front back : List (Value × Value)} {f : FieldName} {s t : String} {v : Value}
      (hf : f ∈ names) (hs : f.Spells s) (ht : f.Spells t) (honce : f.find? (front ++ back) = none) :
      RecordRewrite names change (front ++ (.text s, v) :: back) (front ++ (.text t, v) :: back)
  | value {front back : List (Value × Value)} {f : FieldName} {s : String} {v w : Value}
      (hf : f ∈ names) (hs : f.Spells s) (h : change f v w) :
      RecordRewrite names change (front ++ (.text s, v) :: back) (front ++ (.text s, w) :: back)

variable {names : List FieldName} {change : FieldName → Value → Value → Prop} {f g : FieldName}
  {front back r r' : List (Value × Value)} {s t : String} {v w : Value}

theorem find?_eq_none_iff : f.find? r = none ↔ ∀ s, f.Spells s → Value.lookupText s r = none := by
  unfold FieldName.find? FieldName.Spells
  simp only [forall_eq_or_imp, forall_eq]
  cases Value.lookupText f.camel r <;> simp

theorem lookupText_place (n : String) :
    Value.lookupText n (front ++ (.text s, v) :: back) =
      (Value.lookupText n front).or (if s = n then some v else Value.lookupText n back) := by
  rw [Value.lookupText_append, Value.lookupText_cons]

/-- A field that a record gives once is found there. -/
theorem find?_once (hs : f.Spells s) (honce : f.find? (front ++ back) = none) :
    f.find? (front ++ (.text s, v) :: back) = some (s, v) := by
  rw [find?_eq_none_iff] at honce
  simp only [Value.lookupText_append, Option.or_eq_none_iff] at honce
  unfold FieldName.find?
  rw [lookupText_place, lookupText_place, (honce _ (.inl rfl)).1, (honce _ (.inr rfl)).1,
    (honce _ (.inl rfl)).2]
  rcases hs with rfl | rfl
  · simp
  · by_cases hsame : f.snake = f.camel <;> simp [hsame]

/-- An entry under a spelling of one field does not tell where another is found. -/
theorem find?_place_of_not_spells (hs : ¬ g.Spells s) (ht : ¬ g.Spells t) :
    g.find? (front ++ (.text t, w) :: back) = g.find? (front ++ (.text s, v) :: back) := by
  refine find?_congr fun n hn => ?_
  have hsn : s ≠ n := fun h => hs (h ▸ hn)
  have htn : t ≠ n := fun h => ht (h ▸ hn)
  rw [lookupText_place, lookupText_place, if_neg hsn, if_neg htn]

/-- With another value under the same key, a field is found as before or has the new value. -/
theorem find?_place_value (hs : f.Spells s) :
    f.find? (front ++ (.text s, w) :: back) = f.find? (front ++ (.text s, v) :: back) ∨
      f.find? (front ++ (.text s, v) :: back) = some (s, v) ∧
        f.find? (front ++ (.text s, w) :: back) = some (s, w) := by
  have hother : ∀ n, s ≠ n → Value.lookupText n (front ++ (.text s, w) :: back) =
      Value.lookupText n (front ++ (.text s, v) :: back) := fun n hn => by
    rw [lookupText_place, lookupText_place, if_neg hn, if_neg hn]
  cases hfront : Value.lookupText s front with
  | some u =>
    refine .inl (find?_congr fun n _ => ?_)
    by_cases hn : s = n
    · rw [← hn, lookupText_place, lookupText_place, hfront]
      rfl
    · exact hother n hn
  | none =>
    have hthere : ∀ u, Value.lookupText s (front ++ (.text s, u) :: back) = some u := fun u => by
      rw [lookupText_place, hfront, if_pos rfl]
      rfl
    unfold FieldName.find?
    by_cases hcamel : s = f.camel
    · rw [← hcamel, hthere, hthere]
      exact .inr ⟨rfl, rfl⟩
    · rw [hother _ hcamel, ← hs.resolve_left hcamel, hthere, hthere]
      cases Value.lookupText f.camel (front ++ (.text s, v) :: back) with
      | some u => exact .inl rfl
      | none => exact .inr ⟨rfl, rfl⟩

/-- A field in another spelling is found in that spelling, and all other fields as before. -/
theorem find?_spelling (hapart : names.Pairwise FieldName.Apart) (hf : f ∈ names) (hg : g ∈ names)
    (hs : f.Spells s) (ht : f.Spells t) (honce : f.find? (front ++ back) = none) :
    g = f ∧ g.find? (front ++ (.text s, v) :: back) = some (s, v) ∧
        g.find? (front ++ (.text t, v) :: back) = some (t, v) ∨
      g ≠ f ∧ g.find? (front ++ (.text t, v) :: back) = g.find? (front ++ (.text s, v) :: back) := by
  by_cases hgf : g = f
  · subst hgf
    exact .inl ⟨rfl, find?_once hs honce, find?_once ht honce⟩
  · have hfg := hapart.forall hf hg (Ne.symm hgf)
    exact .inr ⟨hgf, find?_place_of_not_spells (hfg.not_spells hs) (hfg.not_spells ht)⟩

/-- A field with another value is found with that value, and all other fields as before. -/
theorem find?_value (hapart : names.Pairwise FieldName.Apart) (hf : f ∈ names) (hg : g ∈ names)
    (hs : f.Spells s) :
    g = f ∧ g.find? (front ++ (.text s, v) :: back) = some (s, v) ∧
        g.find? (front ++ (.text s, w) :: back) = some (s, w) ∨
      g.find? (front ++ (.text s, w) :: back) = g.find? (front ++ (.text s, v) :: back) := by
  by_cases hgf : g = f
  · subst hgf
    exact (find?_place_value hs).symm.imp_left (And.intro rfl)
  · have hs' := (hapart.forall hf hg (Ne.symm hgf)).not_spells hs
    exact .inr (find?_place_of_not_spells hs' hs')

/-- After a change, a field has the value that it had before, or a changed one. -/
theorem given?_rewrite (hapart : names.Pairwise FieldName.Apart) (h : RecordRewrite names change r r')
    (hg : g ∈ names) :
    g.given? r' = g.given? r ∨
      ∃ v w, change g v w ∧ g.given? r = some v ∧ g.given? r' = some w := by
  unfold FieldName.given?
  cases h with
  | spelling hf hs ht honce =>
    rcases find?_spelling hapart hf hg hs ht honce with ⟨-, hold, hnew⟩ | ⟨-, hsame⟩
    · exact .inl (by rw [hold, hnew]; rfl)
    · exact .inl (congrArg _ hsame)
  | value hf hs hchange =>
    rcases find?_value hapart hf hg hs with ⟨rfl, hold, hnew⟩ | hsame
    · exact .inr ⟨_, _, hchange, congrArg _ hold, congrArg _ hnew⟩
    · exact .inl (congrArg _ hsame)

/-- A change leaves no entry without its field. -/
theorem covered_rewrite (hapart : names.Pairwise FieldName.Apart) (h : RecordRewrite names change r r')
    (hcovered : Covered names r) : Covered names r' := by
  cases h with
  | @spelling front back f s t v hf hs ht honce =>
    have hthere : t ∈ usedSpellings names (front ++ (.text t, v) :: back) :=
      List.mem_filterMap.mpr ⟨f, hf, congrArg _ (find?_once ht honce)⟩
    have hother : ∀ key ∈ (front ++ back).map Prod.fst,
        ∃ n ∈ usedSpellings names (front ++ (.text t, v) :: back), key = .text n := by
      intro key hkey
      obtain ⟨n, hn, rfl⟩ := hcovered key (by simp_all; tauto)
      obtain ⟨g, hg, hfound⟩ := List.mem_filterMap.mp hn
      rcases find?_spelling hapart hf hg hs ht honce with ⟨rfl, hold, -⟩ | ⟨-, hsame⟩
      · -- the entry in question is not the changed one, which alone gives the field
        rw [hold] at hfound
        cases hfound
        exact absurd (find?_eq_none_iff.mp honce s hs) (Value.lookupText_ne_none hkey)
      · exact ⟨n, List.mem_filterMap.mpr ⟨g, hg, by rw [hsame, hfound]⟩, rfl⟩
    intro key hkey
    rw [List.map_append, List.map_cons, List.mem_append, List.mem_cons] at hkey
    rcases hkey with hkey | rfl | hkey
    · exact hother key (by simp [hkey])
    · exact ⟨t, hthere, rfl⟩
    · exact hother key (by simp [hkey])
  | @value front back f s v w hf hs hchange =>
    have hused : usedSpellings names (front ++ (.text s, w) :: back) =
        usedSpellings names (front ++ (.text s, v) :: back) := by
      refine List.filterMap_congr fun g hg => ?_
      rcases find?_value hapart hf hg hs with ⟨-, hold, hnew⟩ | hsame
      · rw [hold, hnew]
        rfl
      · rw [hsame]
    unfold Covered at hcovered ⊢
    rw [hused]
    simpa using hcovered

variable {α : Type} {reads : Value → α → Prop} {default a : α}

/-- A field keeps its value if changed values are read as before. -/
theorem gives_rewrite (hapart : names.Pairwise FieldName.Apart) (h : RecordRewrite names change r r')
    (hg : g ∈ names) (hreads : ∀ v w, change g v w → reads v a → reads w a)
    (hgives : g.Gives r default reads a) : g.Gives r' default reads a := by
  unfold FieldName.Gives at hgives ⊢
  rcases given?_rewrite hapart h hg with hsame | ⟨v, w, hchange, hold, hnew⟩
  · rwa [hsame]
  · rw [hold] at hgives
    rw [hnew]
    exact hreads v w hchange hgives

/-- A field whose values cannot be changed keeps its value. -/
theorem gives_rewrite_of_fixed (hapart : names.Pairwise FieldName.Apart)
    (h : RecordRewrite names change r r') (hg : g ∈ names) (hfixed : ∀ v w, ¬ change g v w)
    (hgives : g.Gives r default reads a) : g.Gives r' default reads a :=
  gives_rewrite hapart h hg (fun v w hchange => absurd hchange (hfixed v w)) hgives

/-- Entries are read as before if the changed value of one of them is. -/
theorem entries_place {read : Value → Checked α} {key : Value} {xs : List (String × α)}
    (h : ∀ a, read v = .ok a → read w = .ok a)
    (hread : entries read (front ++ (key, v) :: back) = .ok xs) :
    entries read (front ++ (key, w) :: back) = .ok xs := by
  rw [entries_eq_ok_iff] at hread ⊢
  induction front generalizing xs with
  | nil =>
    cases hread with
    | cons hx hxs => exact .cons ⟨hx.1, h _ hx.2⟩ hxs
  | cons e front ih =>
    cases hread with
    | cons hx hxs => exact .cons hx (ih hxs)

end Reader

namespace Descriptor

open Reader

/-- A text is written in other letters that one case mapping does not tell apart. -/
def Letters (fold : String → String) (v w : Value) : Prop :=
  ∃ s t, v = .text s ∧ w = .text t ∧ fold s = fold t

/-- The value of one field of relation options is changed. -/
def RelationFieldRewrite (f : FieldName) (v w : Value) : Prop :=
  (f = joinTypeName ∨ f = joinConditionTypeName) ∧ Letters Text.upper v w

/-- The options of a relation are changed: a join type alone is written as a record or in other letters,
or a record is changed. -/
inductive OptionsRewrite : Value → Value → Prop
  | joinType (s : String) : OptionsRewrite (.text s) (.mapping [(.text "join_type", .text s)])
  | letters {v w : Value} (h : Letters Text.upper v w) : OptionsRewrite v w
  | record {r r' : List (Value × Value)} (h : RecordRewrite relationNames RelationFieldRewrite r r') :
      OptionsRewrite (.mapping r) (.mapping r')

/-- Relations are changed: a sequence of names is written as a mapping of each to no options, or the
options of one relation are changed. -/
inductive RelationsRewrite : Value → Value → Prop
  | names {v : Value} {pairs : List (Value × Value)}
      (hv : v = .list (pairs.map Prod.fst) ∨ v = .tuple (pairs.map Prod.fst))
      (h : ∀ p ∈ pairs, p.2 = .null ∨ p.2 = .mapping []) :
      RelationsRewrite v (.mapping (Value.keyedOfList pairs))
  | options {front back : List (Value × Value)} {name v w : Value} (h : OptionsRewrite v w) :
      RelationsRewrite (.mapping (front ++ (name, v) :: back)) (.mapping (front ++ (name, w) :: back))

/-- Sort entries are changed: a sequence of names is written as a mapping of each to the ascending
direction, or one direction is written in other letters. -/
inductive SortRewrite : Value → Value → Prop
  | names {v : Value} {names : List Value} (hv : v = .list names ∨ v = .tuple names) :
      SortRewrite v (.mapping (Value.keyedOfList (names.map fun name => (name, .text "asc"))))
  | direction {front back : List (Value × Value)} {name v w : Value} (h : Letters Text.upper v w) :
      SortRewrite (.mapping (front ++ (name, v) :: back)) (.mapping (front ++ (name, w) :: back))

/-- Cache options are changed: a field is spelled otherwise. -/
inductive CacheRewrite : Value → Value → Prop
  | record {r r' : List (Value × Value)} (h : RecordRewrite cacheNames (fun _ _ _ => False) r r') :
      CacheRewrite (.mapping r) (.mapping r')

/-- The value of one field of a descriptor is changed. -/
def FieldRewrite (f : FieldName) (v w : Value) : Prop :=
  f = relationsName ∧ RelationsRewrite v w ∨ f = sortName ∧ SortRewrite v w ∨
    f = hydrationName ∧ Letters Text.lower v w ∨ f = cacheName ∧ CacheRewrite v w

/-- A mapping is changed at one place, in a way that should not matter. -/
inductive Rewrite : Value → Value → Prop
  | record {r r' : List (Value × Value)} (h : RecordRewrite fieldNames FieldRewrite r r') :
      Rewrite (.mapping r) (.mapping r')

theorem upperText_letters {v w : Value} (h : Letters Text.upper v w) : upperText w = upperText v := by
  obtain ⟨s, t, rfl, rfl, hst⟩ := h
  exact congrArg Value.text hst.symm

theorem lowerText_letters {v w : Value} (h : Letters Text.lower v w) : lowerText w = lowerText v := by
  obtain ⟨s, t, rfl, rfl, hst⟩ := h
  exact congrArg Value.text hst.symm

variable {r r' : List (Value × Value)} {v w : Value}

/-- Changed options are the same options. -/
theorem optionsOf_rewrite (h : RecordRewrite relationNames RelationFieldRewrite r r')
    {o : RelationOptions} (ho : OptionsOf r o) : OptionsOf r' o := by
  have hapart : relationNames.Pairwise FieldName.Apart := by decide
  have hfixed : ∀ {α : Type} {g : FieldName} {reads : Value → α → Prop} {default a : α},
      g ∈ relationNames → ¬ (g = joinTypeName ∨ g = joinConditionTypeName) →
      g.Gives r default reads a → g.Gives r' default reads a := fun hg hother =>
    gives_rewrite_of_fixed hapart h hg fun v w hchange => hother hchange.1
  exact
    { joinAlias := hfixed (by decide) (by decide) ho.joinAlias
      joinType := gives_rewrite hapart h (by decide)
        (fun v w hchange hread => by rwa [Reads, readJoinType, upperText_letters hchange.2]) ho.joinType
      condition := hfixed (by decide) (by decide) ho.condition
      conditionType := gives_rewrite hapart h (by decide)
        (fun v w hchange hread => by rwa [Reads, readConditionType, upperText_letters hchange.2])
        ho.conditionType
      indexBy := hfixed (by decide) (by decide) ho.indexBy
      fields := hfixed (by decide) (by decide) ho.fields
      covered := covered_rewrite hapart h ho.covered }

theorem readRelationOptions_rewrite (h : OptionsRewrite v w) {o : RelationOptions}
    (ho : readRelationOptions (fullOptions v) = .ok o) : readRelationOptions (fullOptions w) = .ok o := by
  cases h with
  | joinType s => exact ho
  | letters h =>
    obtain ⟨s, t, rfl, rfl, hst⟩ := h
    have hrewrite : RecordRewrite relationNames RelationFieldRewrite
        ([] ++ (.text joinTypeName.snake, .text s) :: []) ([] ++ (.text joinTypeName.snake, .text t) :: []) :=
      .value (by decide : joinTypeName ∈ relationNames) (.inr rfl) ⟨.inl rfl, s, t, rfl, rfl, hst⟩
    exact readRelationOptions_eq_ok_iff.mpr
      (optionsOf_rewrite hrewrite (readRelationOptions_eq_ok_iff.mp ho))
  | record h =>
    exact readRelationOptions_eq_ok_iff.mpr (optionsOf_rewrite h (readRelationOptions_eq_ok_iff.mp ho))

theorem readMap_place {α : Type} {read : Value → Checked α} {front back : List (Value × Value)}
    {key : Value} {m : OrderedMap α} (h : ∀ a, read v = .ok a → read w = .ok a)
    (hread : readMap read (.mapping (front ++ (key, v) :: back)) = .ok m) :
    readMap read (.mapping (front ++ (key, w) :: back)) = .ok m := by
  obtain ⟨xs, hxs, rfl⟩ := ok_of_map hread
  exact congrArg (Except.map OrderedMap.ofList) (entries_place h hxs)

/-- A sequence of names is written out to the mapping of each to one value. -/
theorem sequenceAsMapping_eq_ok {value u : Value} {names : List Value}
    (h : sequenceAsMapping value names = .ok u) :
    u = .mapping (Value.keyedOfList (names.map fun name => (name, value))) := by
  unfold sequenceAsMapping at h
  split at h
  · cases h
  · exact (Except.ok.inj h).symm

/-- Changed relations are the same relations. -/
theorem relationsRead_rewrite (h : RelationsRewrite v w) {m : OrderedMap RelationOptions}
    (hm : relationsRead v m) : relationsRead w m := by
  obtain ⟨u, hu, hread⟩ := hm
  cases h with
  | @names v pairs hv h =>
    have hu' : sequenceAsMapping (.mapping []) (pairs.map Prod.fst) = .ok u := by
      rcases hv with rfl | rfl <;> exact hu
    obtain rfl := sequenceAsMapping_eq_ok hu'
    refine ⟨_, ?_, hread⟩
    have hpairs : pairs.map (fun p => (p.1, fullOptions p.2)) =
        (pairs.map Prod.fst).map fun name => (name, .mapping []) := by
      rw [List.map_map]
      refine List.map_congr_left fun p hp => ?_
      rcases h p hp with hp | hp <;> rw [hp] <;> rfl
    change Except.ok (Value.mapping ((Value.keyedOfList pairs).map fun e => (e.1, fullOptions e.2))) = _
    rw [Value.map_keyedOfList, hpairs]
  | @options front back name v w h =>
    cases hu
    refine ⟨_, rfl, ?_⟩
    simp only [List.map_append, List.map_cons] at hread ⊢
    exact readMap_place (fun o => readRelationOptions_rewrite h) hread

/-- Changed sort entries are the same sort entries. -/
theorem sortRead_rewrite (h : SortRewrite v w) {m : OrderedMap Direction} (hm : sortRead v m) :
    sortRead w m := by
  obtain ⟨u, hu, hread⟩ := hm
  cases h with
  | @names v names hv =>
    have hu' : sequenceAsMapping (.text Direction.ascending.text) names = .ok u := by
      rcases hv with rfl | rfl <;> exact hu
    obtain rfl := sequenceAsMapping_eq_ok hu'
    refine ⟨_, ?_, hread⟩
    have hupper : upperText (.text "asc") = .text Direction.ascending.text :=
      congrArg Value.text (by decide +kernel)
    change Except.ok (Value.mapping ((Value.keyedOfList (names.map fun name => (name, .text "asc"))).map
      fun e => (e.1, upperText e.2))) = _
    rw [Value.map_keyedOfList, List.map_map]
    simp only [Function.comp_def, hupper]
  | @direction front back name v w h =>
    cases hu
    refine ⟨_, rfl, ?_⟩
    simpa only [List.map_append, List.map_cons, upperText_letters h] using hread

/-- Changed cache options are the same cache options. -/
theorem readCacheOptions_rewrite (h : CacheRewrite v w) {c : Option CacheOptions}
    (hc : optional readCacheOptions v = .ok c) : optional readCacheOptions w = .ok c := by
  have hapart : cacheNames.Pairwise FieldName.Apart := by decide
  cases h with
  | @record r r' h =>
    obtain ⟨c', hc', rfl⟩ := ok_of_map (x := readCacheOptions (.mapping r)) hc
    have hof := readCacheOptions_eq_ok_iff.mp hc'
    have hread : readCacheOptions (.mapping r') = .ok c' := readCacheOptions_eq_ok_iff.mpr
      { ttl := gives_rewrite_of_fixed hapart h (by decide) (fun _ _ => not_false) hof.ttl
        name := gives_rewrite_of_fixed hapart h (by decide) (fun _ _ => not_false) hof.name
        covered := covered_rewrite hapart h hof.covered }
    exact congrArg (Except.map some) hread

theorem fieldRewrite_iff : (FieldRewrite relationsName v w ↔ RelationsRewrite v w) ∧
    (FieldRewrite sortName v w ↔ SortRewrite v w) ∧
    (FieldRewrite hydrationName v w ↔ Letters Text.lower v w) ∧
    (FieldRewrite cacheName v w ↔ CacheRewrite v w) := by
  simp [FieldRewrite, relationsName, sortName, hydrationName, cacheName]

/-- A descriptor survives one change of the mapping that writes it. -/
theorem ofValue_rewrite (h : Rewrite v w) {d : Descriptor} (hd : ofValue v = .ok d) :
    ofValue w = .ok d := by
  obtain @⟨r, r', h⟩ := h
  have hof := ofValue_eq_ok_iff.mp hd
  have hapart := apart_fieldNames
  have hfixed : ∀ {α : Type} {g : FieldName} {reads : Value → α → Prop} {default a : α},
      g ∈ fieldNames → g ∉ [relationsName, sortName, hydrationName, cacheName] →
      g.Gives r default reads a → g.Gives r' default reads a := fun {_ g _ _ _} hg hother => by
    refine gives_rewrite_of_fixed hapart h hg fun v w hchange => ?_
    simp only [List.mem_cons, List.not_mem_nil, or_false, not_or] at hother
    rcases hchange with h | h | h | h
    exacts [hother.1 h.1, hother.2.1 h.1, hother.2.2.1 h.1, hother.2.2.2 h.1]
  exact ofValue_eq_ok_iff.mpr
    { parameters := hfixed (by decide) (by decide) hof.parameters
      relations := gives_rewrite hapart h (by decide)
        (fun v w hchange => relationsRead_rewrite (fieldRewrite_iff.1.mp hchange)) hof.relations
      sort := gives_rewrite hapart h (by decide)
        (fun v w hchange => sortRead_rewrite (fieldRewrite_iff.2.1.mp hchange)) hof.sort
      limit := hfixed (by decide) (by decide) hof.limit
      offset := hfixed (by decide) (by decide) hof.offset
      fields := hfixed (by decide) (by decide) hof.fields
      indexBy := hfixed (by decide) (by decide) hof.indexBy
      hydration := gives_rewrite hapart h (by decide)
        (fun v w hchange hread => by
          rwa [Reads, lowerText_letters (fieldRewrite_iff.2.2.1.mp hchange)]) hof.hydration
      cache := gives_rewrite hapart h (by decide)
        (fun v w hchange => readCacheOptions_rewrite (fieldRewrite_iff.2.2.2.mp hchange)) hof.cache
      countAvailableRows := hfixed (by decide) (by decide) hof.countAvailableRows
      covered := covered_rewrite hapart h hof.covered }

/-- All spellings of a descriptor are read to the same descriptor. -/
theorem ofValue_of_rewrites (h : Relation.ReflTransGen Rewrite v w) {d : Descriptor}
    (hd : ofValue v = .ok d) : ofValue w = .ok d := by
  induction h with
  | refl => exact hd
  | tail _ hlast ih => exact ofValue_rewrite hlast ih

/-- Articles with their authors in order of title, and their number. -/
def authoredArticles (relations sort : Value) (count : String) : Value :=
  .mapping [(.text "relations", relations), (.text "sort", sort), (.text count, .boolean true)]

/-- The author as a relation whose join type is given in a record. -/
def authorRelation (field joinType : String) : Value :=
  .mapping [(.text "author", .mapping [(.text field, .text joinType)])]

theorem rewrites_authoredArticles :
    Relation.ReflTransGen Rewrite
      (authoredArticles (.mapping [(.text "author", .text "inner")]) (.list [.text "title"])
        "count_available_rows")
      (authoredArticles (authorRelation "joinType" "INNER") (.mapping [(.text "title", .text "asc")])
        "countAvailableRows") := by
  have hrelations : ∀ {v w s c}, RelationsRewrite v w →
      Rewrite (authoredArticles v s c) (authoredArticles w s c) := fun h =>
    ⟨@RecordRewrite.value _ _ [] _ relationsName _ _ _ (by decide) (.inr rfl) (.inl ⟨rfl, h⟩)⟩
  have hsort : ∀ {v w r c}, SortRewrite v w →
      Rewrite (authoredArticles r v c) (authoredArticles r w c) := fun h =>
    ⟨@RecordRewrite.value _ _ [_] _ sortName _ _ _ (by decide) (.inr rfl) (.inr (.inl ⟨rfl, h⟩))⟩
  have hcount : ∀ {r s}, Rewrite (authoredArticles r s "count_available_rows")
      (authoredArticles r s "countAvailableRows") :=
    ⟨@RecordRewrite.spelling _ _ [_, _] [] countAvailableRowsName _ _ _ (by decide) (.inr rfl)
      (.inl rfl) (by simp [FieldName.find?, Value.lookupText, countAvailableRowsName])⟩
  have hrecord : ∀ {r r'}, RecordRewrite relationNames RelationFieldRewrite r r' →
      RelationsRewrite (.mapping [(.text "author", .mapping r)]) (.mapping [(.text "author", .mapping r')]) :=
    fun h => @RelationsRewrite.options [] [] _ _ _ (.record h)
  refine .head (hrelations (@RelationsRewrite.options [] [] _ _ _ (.joinType _))) ?_
  refine .head (hrelations (hrecord (@RecordRewrite.spelling _ _ [] [] joinTypeName _ "joinType" _
    (by decide) (.inr rfl) (.inl rfl) rfl))) ?_
  refine .head (hrelations (hrecord (@RecordRewrite.value _ _ [] [] joinTypeName _ _ (.text "INNER")
    (by decide) (.inl rfl) ⟨.inl rfl, _, _, rfl, rfl, by decide +kernel⟩))) ?_
  exact .head (hsort (.names (.inl rfl))) (.single hcount)

theorem ofValue_authoredArticles : ∃ d,
    ofValue (authoredArticles (.mapping [(.text "author", .text "inner")]) (.list [.text "title"])
      "count_available_rows") = .ok d ∧
    ofValue (authoredArticles (authorRelation "joinType" "INNER")
      (.mapping [(.text "title", .text "asc")]) "countAvailableRows") = .ok d := by
  obtain ⟨d, hd⟩ := exists_ok_of_toOption (x := ofValue (authoredArticles
    (.mapping [(.text "author", .text "inner")]) (.list [.text "title"]) "count_available_rows"))
    (by decide +kernel)
  exact ⟨d, hd, ofValue_of_rewrites rewrites_authoredArticles hd⟩

end Descriptor
end EntityQuery
