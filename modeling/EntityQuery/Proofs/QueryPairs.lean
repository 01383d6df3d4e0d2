import EntityQuery.Proofs.QueryStrings
/-!
Query strings by the pairs of each key. A query that is written out as pairs is read back, whatever the
order in which pairs of different keys stand and whatever other keys are among them.
-/
namespace EntityQuery

/-- A list that is put together from several lists, each of which keeps its order. -/
inductive Interleaved {α : Type} : List (List α) → List α → Prop
  | nil {groups : List (List α)} (h : ∀ g ∈ groups, g = []) : Interleaved groups []
  | cons {groups : List (List α)} {i : Nat} {x : α} {g xs : List α} (h : groups[i]? = some (x :: g))
      (rest : Interleaved (groups.set i g) xs) : Interleaved groups (x :: xs)

/-- Where each element tells its list, each list is found again. -/
theorem Interleaved.filter_eq {α : Type} {groups : List (List α)} {xs : List α}
    (h : Interleaved groups xs) {place : α → Nat}
    (hplace : ∀ i g, groups[i]? = some g → ∀ x ∈ g, place x = i)
    {i : Nat} {g : List α} (hg : groups[i]? = some g) : xs.filter (fun x => place x = i) = g := by
  induction h generalizing g with
  | nil hempty => rw [hempty g (List.mem_of_getElem? hg), List.filter_nil]
  | @cons groups k x rest xs hk _ ih =>
    have hlt : k < groups.length := (List.getElem?_eq_some_iff.mp hk).1
    have hx : place x = k := hplace k _ hk x List.mem_cons_self
    have hset : ∀ m other, (groups.set k rest)[m]? = some other → ∀ y ∈ other, place y = m := by
      intro m other hm y hy
      by_cases hmk : m = k
      · subst hmk
        rw [List.getElem?_set_self hlt] at hm
        cases hm
        exact hplace m _ hk y (List.mem_cons_of_mem x hy)
      · rw [List.getElem?_set_ne (Ne.symm hmk)] at hm
        exact hplace m other hm y hy
    rw [List.filter_cons, hx]
    by_cases hki : k = i
    · subst hki
      cases hk.symm.trans hg
      rw [if_pos (by simp), ih hset (List.getElem?_set_self hlt)]
    · rw [if_neg (by simpa using hki), ih hset (by rwa [List.getElem?_set_ne hki])]

/-- The last entry takes a new value. -/
theorem OrderedMap.insertEntry_last {α : Type} {name : String} {v w : α} {before : List (String × α)}
    (h : name ∉ before.map Prod.fst) :
    insertEntry name w (before ++ [(name, v)]) = before ++ [(name, w)] := by
  induction before with
  | nil => simp [insertEntry]
  | cons e before ih =>
    simp only [List.map_cons, List.mem_cons, not_or] at h
    rw [List.cons_append, insertEntry, if_neg fun he => h.1 he.symm, ih h.2, List.cons_append]

theorem Text.dropPrefix?_self (pre rest : String) : Text.dropPrefix? pre (pre ++ rest) = some rest := by
  unfold Text.dropPrefix?
  rw [if_pos (by simp)]
  simp [← String.length_toList]

/-! ### Keys -/

/-- A name that can stand in brackets. -/
def CanStandInBrackets (name : String) : Prop := name ≠ "" ∧ '\n' ∉ name.toList

instance (name : String) : Decidable (CanStandInBrackets name) :=
  inferInstanceAs (Decidable (_ ∧ _))

/-- A key with a name in brackets. -/
def BracketKind.key (kind : BracketKind) (name : String) : String := kind.word ++ "[" ++ name ++ "]"

theorem bracketName?_closed {name : String} (h : CanStandInBrackets name) :
    bracketName? (name ++ "]").toList = some name := by
  obtain ⟨hne, hnewline⟩ := h
  have hempty : name.toList ≠ [] := by simpa using hne
  unfold bracketName?
  simp [hempty, hnewline]

/-- The words of the kinds start with different letters. -/
theorem dropPrefix?_other {kind other : BracketKind} (h : other ≠ kind) (rest : String) :
    Text.dropPrefix? (other.word ++ "[") (kind.word ++ rest) = none := by
  have hno : (other.word ++ "[").toList.isPrefixOf (kind.word ++ rest).toList = false := by
    have happend : (kind.word ++ rest).toList = kind.word.toList ++ rest.toList := String.toList_append
    rw [happend]
    cases kind <;> cases other <;> first | exact absurd rfl h | rfl
  unfold Text.dropPrefix?
  rw [hno]
  rfl

/-- A name in brackets is read back. -/
theorem bracketKey?_key {kind : BracketKind} {name : String} (h : CanStandInBrackets name) :
    bracketKey? (kind.key name) = some (kind, name) := by
  have hkind : bracketKey? (kind.key name) =
      BracketKind.all.findSome? fun k => if k = kind then some (kind, name) else none := by
    unfold bracketKey?
    congr 1
    funext k
    by_cases hk : k = kind
    · subst hk
      rw [if_pos rfl, BracketKind.key, String.append_assoc, Text.dropPrefix?_self]
      dsimp only
      rw [bracketName?_closed h]
      rfl
    · rw [if_neg hk, BracketKind.key, String.append_assoc, String.append_assoc, dropPrefix?_other hk]
  rw [hkind]
  cases kind <;> rfl

namespace QueryString

/-- The keys that mean something without brackets. -/
def plainKeys : List String := ["fields", "limit", "offset", "index_by", "count"]

/-- A key that means nothing. -/
def Ignored (key : String) : Prop := bracketKey? key = none ∧ key ∉ plainKeys

instance (key : String) : Decidable (Ignored key) := inferInstanceAs (Decidable (_ ∧ _))

def kindPlace : BracketKind → Nat
  | .filter => 0
  | .sort => 1
  | .join => 2

/-- The group of a key: one for each kind of bracket, one for each plain key, one for all others. -/
def place (key : String) : Nat :=
  match bracketKey? key with
  | some (kind, _) => kindPlace kind
  | none => 3 + plainKeys.idxOf key

theorem place_key {kind : BracketKind} {name : String} (h : CanStandInBrackets name) :
    place (kind.key name) = kindPlace kind := by
  unfold place
  rw [bracketKey?_key h]

theorem place_of_ignored {key : String} (h : Ignored key) : place key = 8 := by
  unfold place
  rw [h.1]
  dsimp only
  rw [List.idxOf_eq_length h.2]
  rfl

theorem bracketKey?_plainKeys : ∀ key ∈ plainKeys, bracketKey? key = none := by decide

/-! ### Reading by keys -/

/-- The pairs under keys of one kind, by the names in the brackets. -/
def named (kind : BracketKind) (pairs : List (String × String)) : List (String × String) :=
  pairs.filterMap fun p => match bracketKey? p.1 with
    | some (k, name) => if k = kind then some (name, p.2) else none
    | none => none

/-- The values of a plain key. -/
def given (key : String) (pairs : List (String × String)) : List String :=
  pairs.filterMap fun p => if bracketKey? p.1 = none ∧ p.1 = key then some p.2 else none

/-- One more value under a name. -/
def addValue (m : OrderedMap (List String)) (p : String × String) : OrderedMap (List String) :=
  m.insert p.1 ((m.find? p.1).getD [] ++ [p.2])

/-- Values under their names, each name at its first place with all its values. -/
def gather (pairs : List (String × String)) : OrderedMap (List String) :=
  pairs.foldl addValue .empty

/-- A query string is read key by key: filters gather their values, all other keys take the last. -/
theorem ofPairs_eq (pairs : List (String × String)) : ofPairs pairs =
    { filters := gather (named .filter pairs)
      sort := .ofList ((named .sort pairs).map fun e => (e.1, orElse e.2 "asc"))
      joins := .ofList ((named .join pairs).map fun e => (e.1, orElse e.2 "left"))
      fields := (given "fields" pairs).getLast?.map splitNames
      limit := (given "limit" pairs).getLast?
      offset := (given "offset" pairs).getLast?
      indexBy := (given "index_by" pairs).getLast?
      count := (given "count" pairs).getLast?.map fun v => affirmations.contains (Text.lower v) } := by
  induction pairs using List.reverseRecOn with
  | nil => rfl
  | append_singleton pairs p ih =>
    rw [ofPairs_concat, ih]
    unfold addPair
    cases hkey : bracketKey? p.1 with
    | some named' =>
      obtain ⟨kind, name⟩ := named'
      cases kind <;>
        simp [named, given, gather, addValue, hkey, OrderedMap.ofList]
    | none =>
      dsimp only
      split_ifs <;> simp_all [named, given]

/-- Pairs under keys of one kind are in one group. -/
theorem named_filter_place (kind : BracketKind) (pairs : List (String × String)) :
    named kind (pairs.filter fun p => place p.1 = kindPlace kind) = named kind pairs := by
  unfold named
  rw [List.filterMap_filter]
  refine List.filterMap_congr fun p _ => ?_
  cases hp : bracketKey? p.1 with
  | none => simp
  | some pair =>
    obtain ⟨k, name⟩ := pair
    cases k <;> cases kind <;> simp [place, hp, kindPlace]

/-- The pairs of a plain key are in one group. -/
theorem given_filter_place (key : String) (pairs : List (String × String)) :
    given key (pairs.filter fun p => place p.1 = place key) = given key pairs := by
  unfold given
  rw [List.filterMap_filter]
  refine List.filterMap_congr fun p _ => ?_
  by_cases h : p.1 = key
  · rw [h, if_pos (by simp)]
  · simp [h]

/-! ### Values -/

/-- A name that can stand between commas. -/
def CanStandBetweenCommas (name : String) : Prop :=
  name ≠ "" ∧ ',' ∉ name.toList ∧ Text.trimBy Text.isBlankOrSeparator name.toList = name.toList

instance (name : String) : Decidable (CanStandBetweenCommas name) :=
  inferInstanceAs (Decidable (_ ∧ _))

theorem splitAt_intercalate {name : String} {names : List String}
    (h : ∀ n ∈ name :: names, ',' ∉ n.toList) :
    Text.splitAt ',' (",".intercalate (name :: names)).toList = (name :: names).map String.toList := by
  induction names generalizing name with
  | nil => simpa using Text.splitAt_without (h name List.mem_cons_self)
  | cons next names ih =>
    have htext : (",".intercalate (name :: next :: names)).toList =
        name.toList ++ ',' :: (",".intercalate (next :: names)).toList := by
      simp [String.intercalate_cons_cons]
    rw [htext, Text.splitAt_append (h name List.mem_cons_self),
      ih fun n hn => h n (List.mem_cons_of_mem _ hn)]
    rfl

/-- Names between commas are read back. -/
theorem splitNames_intercalate {names : List String} (h : ∀ name ∈ names, CanStandBetweenCommas name) :
    splitNames (",".intercalate names) = names := by
  cases names with
  | nil => decide
  | cons name names =>
    have htrim : ((name :: names).map String.toList).map (Text.trimBy Text.isBlankOrSeparator) =
        (name :: names).map String.toList := by
      rw [List.map_map]
      exact List.map_congr_left fun n hn => (h n hn).2.2
    have hfull : ((name :: names).map String.toList).filter (fun cs => !cs.isEmpty) =
        (name :: names).map String.toList := by
      refine List.filter_eq_self.mpr fun cs hcs => ?_
      obtain ⟨n, hn, rfl⟩ := List.mem_map.mp hcs
      simpa using (h n hn).1
    have hback : (String.ofList ∘ String.toList) = id := funext fun _ => String.ofList_toList
    unfold splitNames
    rw [splitAt_intercalate fun n hn => (h n hn).2.1]
    dsimp only
    rw [htrim, hfull, List.map_map, hback, List.map_id]

/-- A further value of the last name. -/
theorem entries_insert_last {m : OrderedMap (List String)} {before : List (String × List String)}
    {name : String} {vs : List String} (hm : m.entries = before ++ [(name, vs)]) (v : String) :
    (m.insert name ((m.find? name).getD [] ++ [v])).entries = before ++ [(name, vs ++ [v])] := by
  have hfind : m.find? name = some vs := OrderedMap.mem_entries_iff.mp (by simp [hm])
  have hname : name ∉ before.map Prod.fst := by
    have hnodup := m.nodup
    rw [hm, List.map_append, List.nodup_append] at hnodup
    exact fun h => hnodup.2.2 _ h _ (by simp) rfl
  rw [OrderedMap.entries_insert, hfind, hm]
  exact OrderedMap.insertEntry_last hname

/-- The values of a new name are gathered under it. -/
theorem entries_gather_name {m : OrderedMap (List String)} {name : String} {vs : List String}
    (hname : name ∉ m.entries.map Prod.fst) (hvs : vs ≠ []) :
    ((vs.map fun v => (name, v)).foldl addValue m).entries = m.entries ++ [(name, vs)] := by
  induction vs using List.reverseRecOn with
  | nil => exact absurd rfl hvs
  | append_singleton vs v ih =>
    rw [List.map_append, List.foldl_append]
    by_cases hnil : vs = []
    · subst hnil
      have hnone : m.find? name = none := by
        refine Option.eq_none_iff_forall_ne_some.mpr fun w hw => hname ?_
        exact List.mem_map_of_mem (OrderedMap.mem_entries_iff.mpr hw)
      have hadd : (addValue m (name, v)).entries = insertEntry name [v] m.entries := by
        simp [addValue, hnone]
      exact hadd.trans (OrderedMap.insertEntry_of_not_mem hname)
    · exact entries_insert_last (ih hnil) v

/-- A map is gathered from the values of its names. -/
theorem gather_entries {m : OrderedMap (List String)} (hfull : ∀ e ∈ m.entries, e.2 ≠ []) :
    gather (m.entries.flatMap fun e => e.2.map fun v => (e.1, v)) = m := by
  have hlist : ∀ entries : List (String × List String), (entries.map Prod.fst).Nodup →
      (∀ e ∈ entries, e.2 ≠ []) →
      (gather (entries.flatMap fun e => e.2.map fun v => (e.1, v))).entries = entries := by
    intro entries hnodup hvalues
    induction entries using List.reverseRecOn with
    | nil => rfl
    | append_singleton entries e ih =>
      rw [List.map_append, List.nodup_append] at hnodup
      have hbefore := ih hnodup.1 fun e he => hvalues e (List.mem_append_left _ he)
      have hfresh : e.1 ∉ entries.map Prod.fst := fun h => hnodup.2.2 _ h _ (by simp) rfl
      rw [List.flatMap_append, List.flatMap_singleton, gather, List.foldl_append]
      rw [entries_gather_name (by rwa [← gather, hbefore]) (hvalues e (by simp)), ← gather, hbefore]
  exact OrderedMap.ext (hlist m.entries m.nodup hfull)

/-! ### Writing -/

/-- A query that pairs can say: each filter has a value, each sort entry and each join has a text. -/
structure Writable (q : QueryString) : Prop where
  filters : ∀ e ∈ q.filters.entries, CanStandInBrackets e.1 ∧ e.2 ≠ []
  sort : ∀ e ∈ q.sort.entries, CanStandInBrackets e.1 ∧ e.2 ≠ ""
  joins : ∀ e ∈ q.joins.entries, CanStandInBrackets e.1 ∧ e.2 ≠ ""
  fields : ∀ names ∈ q.fields, ∀ name ∈ names, CanStandBetweenCommas name

/-- A filter is repeated for each of its values. -/
def filterPairs (m : OrderedMap (List String)) : List (String × String) :=
  m.entries.flatMap fun e => e.2.map fun v => (BracketKind.filter.key e.1, v)

def entryPairs (kind : BracketKind) (m : OrderedMap String) : List (String × String) :=
  m.entries.map fun e => (kind.key e.1, e.2)

def plainPairs (key : String) (v : Option String) : List (String × String) :=
  v.toList.map fun v => (key, v)

/-- The pairs that say what a query asks for, key by key; `word` says yes and no. -/
def groups (word : Bool → String) (q : QueryString) : List (List (String × String)) :=
  [filterPairs q.filters, entryPairs .sort q.sort, entryPairs .join q.joins,
    plainPairs "fields" (q.fields.map ",".intercalate), plainPairs "limit" q.limit,
    plainPairs "offset" q.offset, plainPairs "index_by" q.indexBy,
    plainPairs "count" (q.count.map word)]

theorem named_filterPairs {m : OrderedMap (List String)}
    (h : ∀ e ∈ m.entries, CanStandInBrackets e.1) :
    named .filter (filterPairs m) = m.entries.flatMap fun e => e.2.map fun v => (e.1, v) := by
  unfold named filterPairs
  rw [List.filterMap_flatMap]
  refine List.flatMap_congr fun e he => ?_
  rw [List.filterMap_map, ← List.filterMap_eq_map]
  refine List.filterMap_congr fun v _ => ?_
  simp [bracketKey?_key (h e he)]

theorem named_entryPairs {kind : BracketKind} {m : OrderedMap String}
    (h : ∀ e ∈ m.entries, CanStandInBrackets e.1) : named kind (entryPairs kind m) = m.entries := by
  unfold named entryPairs
  rw [List.filterMap_map]
  refine (List.filterMap_congr fun e he => ?_).trans List.filterMap_some
  simp [bracketKey?_key (h e he)]

/-- A map is read back from its entries, none of which is without text. -/
theorem ofList_entryPairs {kind : BracketKind} {m : OrderedMap String} (fallback : String)
    (h : ∀ e ∈ m.entries, CanStandInBrackets e.1 ∧ e.2 ≠ "") :
    .ofList ((named kind (entryPairs kind m)).map fun e => (e.1, orElse e.2 fallback)) = m := by
  have hentries : (m.entries.map fun e => (e.1, orElse e.2 fallback)) = m.entries := by
    refine (List.map_congr_left fun e he => ?_).trans (List.map_id _)
    have hno : ¬ e.2.isEmpty = true := by simpa using (h e he).2
    rw [orElse, if_neg hno]
    rfl
  rw [named_entryPairs fun e he => (h e he).1, hentries]
  exact OrderedMap.ext (OrderedMap.entries_ofList m.nodup)

theorem getLast?_given_plainPairs {key : String} (hkey : key ∈ plainKeys) (v : Option String) :
    (given key (plainPairs key v)).getLast? = v := by
  cases v with
  | none => rfl
  | some v => simp [given, plainPairs, bracketKey?_plainKeys key hkey]

theorem place_filterPairs {m : OrderedMap (List String)}
    (h : ∀ e ∈ m.entries, CanStandInBrackets e.1) : ∀ p ∈ filterPairs m, place p.1 = 0 := by
  intro p hp
  obtain ⟨e, he, hp⟩ := List.mem_flatMap.mp hp
  obtain ⟨v, -, rfl⟩ := List.mem_map.mp hp
  exact place_key (h e he)

theorem place_entryPairs {kind : BracketKind} {m : OrderedMap String}
    (h : ∀ e ∈ m.entries, CanStandInBrackets e.1) :
    ∀ p ∈ entryPairs kind m, place p.1 = kindPlace kind := by
  intro p hp
  obtain ⟨e, he, rfl⟩ := List.mem_map.mp hp
  exact place_key (h e he)

theorem place_plainPairs {key : String} {v : Option String} :
    ∀ p ∈ plainPairs key v, place p.1 = place key := by
  intro p hp
  obtain ⟨w, -, rfl⟩ := List.mem_map.mp hp
  rfl

variable {word : Bool → String} {q : QueryString}

/-- Each pair tells the group that it stands in. -/
theorem place_of_mem (h : q.Writable) {noise : List (String × String)}
    (hnoise : ∀ p ∈ noise, Ignored p.1) (i : Nat) (g : List (String × String))
    (hg : (groups word q ++ [noise])[i]? = some g) : ∀ p ∈ g, place p.1 = i := by
  have hi : i < 9 := (List.getElem?_eq_some_iff.mp hg).1
  interval_cases i <;> obtain rfl := Option.some.inj hg
  · exact place_filterPairs fun e he => (h.filters e he).1
  · exact place_entryPairs fun e he => (h.sort e he).1
  · exact place_entryPairs fun e he => (h.joins e he).1
  · exact place_plainPairs
  · exact place_plainPairs
  · exact place_plainPairs
  · exact place_plainPairs
  · exact place_plainPairs
  · exact fun p hp => place_of_ignored (hnoise p hp)

/-- A query that is written out as pairs is read back, in whatever order the pairs of different groups
stand and whatever pairs that mean nothing are among them. -/
theorem ofPairs_of_interleaved (h : q.Writable)
    (hword : ∀ b, affirmations.contains (Text.lower (word b)) = b)
    {noise pairs : List (String × String)} (hnoise : ∀ p ∈ noise, Ignored p.1)
    (hpairs : Interleaved (groups word q ++ [noise]) pairs) : ofPairs pairs = q := by
  have hgroup : ∀ i g, (groups word q ++ [noise])[i]? = some g →
      pairs.filter (fun p => place p.1 = i) = g :=
    fun i g hg => by
      have hplace : ∀ k other, (groups word q ++ [noise])[k]? = some other →
          ∀ p ∈ other, place p.1 = k := place_of_mem h hnoise
      exact hpairs.filter_eq hplace hg
  have hnamed : ∀ kind g, (groups word q ++ [noise])[kindPlace kind]? = some g →
      named kind pairs = named kind g := fun kind g hg => by
    rw [← named_filter_place, hgroup _ _ hg]
  have hgiven : ∀ key v, key ∈ plainKeys →
      (groups word q ++ [noise])[place key]? = some (plainPairs key v) →
      (given key pairs).getLast? = v := fun key v hkey hg => by
    rw [← given_filter_place, hgroup _ _ hg, getLast?_given_plainPairs hkey]
  have hfields : (q.fields.map ",".intercalate).map splitNames = q.fields := by
    cases hq : q.fields with
    | none => rfl
    | some names => exact congrArg some (splitNames_intercalate (h.fields names hq))
  have hcount : (q.count.map word).map (fun v => affirmations.contains (Text.lower v)) = q.count := by
    cases q.count with
    | none => rfl
    | some b => exact congrArg some (hword b)
  rw [ofPairs_eq, hnamed .filter _ rfl, hnamed .sort _ rfl, hnamed .join _ rfl,
    hgiven "fields" _ (by decide) rfl, hgiven "limit" _ (by decide) rfl,
    hgiven "offset" _ (by decide) rfl, hgiven "index_by" _ (by decide) rfl,
    hgiven "count" _ (by decide) rfl, hfields, hcount, ofList_entryPairs "asc" h.sort,
    ofList_entryPairs "left" h.joins, named_filterPairs fun e he => (h.filters e he).1,
    gather_entries fun e he => (h.filters e he).2]

/-- A query whose names have brackets, dots and colons in them. -/
def bracketedQuery : QueryString where
  filters := .ofList [("comments.body:ilike", ["[a]", ""]), ("a]=[b", ["1"])]
  sort := .ofList [("title", "desc")]
  joins := .ofList [("article.comments", "inner")]
  fields := some ["id", "a b"]
  limit := some ""
  count := some false

def yesNo (b : Bool) : String := if b then "True" else "no"

theorem ofPairs_bracketedPairs : bracketedQuery.Writable ∧
    ofPairs [("fields", "id,a b"), ("filter[comments.body:ilike]", "[a]"), ("page", "2"),
      ("count", "no"), ("sort[title]", "desc"), ("filter[comments.body:ilike]", ""), ("limit", ""),
      ("filter[]", "x"), ("filter[a]=[b]", "1"), ("join[article.comments]", "inner")] =
      bracketedQuery := by
  have hwritable : bracketedQuery.Writable := by
    refine ⟨by decide, by decide, by decide, ?_⟩
    rintro names ⟨⟩
    decide
  have hpairs : Interleaved (groups yesNo bracketedQuery ++ [[("page", "2"), ("filter[]", "x")]])
      [("fields", "id,a b"), ("filter[comments.body:ilike]", "[a]"), ("page", "2"),
        ("count", "no"), ("sort[title]", "desc"), ("filter[comments.body:ilike]", ""), ("limit", ""),
        ("filter[]", "x"), ("filter[a]=[b]", "1"), ("join[article.comments]", "inner")] :=
    .cons (i := 3) rfl <| .cons (i := 0) rfl <| .cons (i := 8) rfl <| .cons (i := 7) rfl <|
    .cons (i := 1) rfl <| .cons (i := 0) rfl <| .cons (i := 4) rfl <| .cons (i := 8) rfl <|
    .cons (i := 0) rfl <| .cons (i := 2) rfl <| .nil (by decide)
  exact ⟨hwritable, ofPairs_of_interleaved hwritable (by decide) (by decide) hpairs⟩

end QueryString
end EntityQuery
