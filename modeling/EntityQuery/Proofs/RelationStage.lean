import EntityQuery.Proofs.Compilation
import EntityQuery.Proofs.Renaming
import EntityQuery.Proofs.TakenAliases
/-!
The relation stage. It adds one join for each entry, from what stands before it under its source alias, up
to the first entry that it refuses; of all that is wrong with an entry the first in a fixed order is told.
-/
namespace EntityQuery

namespace OrderedMap

variable {α : Type}

theorem entries_eq_filterMap (m : OrderedMap α) :
    m.entries = m.keys.filterMap fun name => (m.find? name).map fun v => (name, v) := by
  have hself : (m.keys.filterMap fun name => (m.find? name).map fun v => (name, v)) =
      m.entries.filterMap some := by
    rw [keys, List.filterMap_map]
    refine List.filterMap_congr fun e he => ?_
    rw [Function.comp_apply, mem_entries_iff.mp he]
    rfl
  rw [hself, List.filterMap_some]

/-- Maps with the same names in the same order and the same values are the same. -/
theorem ext_find? {m n : OrderedMap α} (hkeys : m.keys = n.keys)
    (hfind : ∀ name, m.find? name = n.find? name) : m = n := by
  refine ext ?_
  rw [entries_eq_filterMap m, entries_eq_filterMap n, hkeys]
  exact List.filterMap_congr fun name _ => by rw [hfind]

end OrderedMap

namespace Plan

/-! ### What an entry asks for -/

/-- The source alias and the relation that a key names: the text before its first dot, and the text after
it. A key without a dot is read with the alias of the root before it. -/
inductive KeyNames (rootAlias : String) : String → String → String → Prop
  | qualified {source : String} (hsource : '.' ∉ source.toList) (relation : String) :
      KeyNames rootAlias (source ++ "." ++ relation) source relation
  | bare {key source relation : String} (hkey : '.' ∉ key.toList) (hsource : '.' ∉ source.toList)
      (hfull : rootAlias ++ "." ++ key = source ++ "." ++ relation) :
      KeyNames rootAlias key source relation

/-- The alias of an entry: the one that is given and not empty, or else the last segment of its key. -/
inductive EntryNames (key : String) (o : RelationOptions) : String → Prop
  | given {a : String} (ha : o.joinAlias = some a) (hne : a ≠ "") : EntryNames key o a
  | segment {a : String} (hnone : ∀ b, o.joinAlias = some b → b = "") (ha : '.' ∉ a.toList)
      (hkey : key = a ∨ ∃ before, key = before ++ "." ++ a) : EntryNames key o a

theorem keyNames_iff {p : Plan} {key source relation : String} :
    KeyNames p.rootAlias key source relation ↔ p.splitRelation key = (source, relation) := by
  constructor
  · intro h
    cases h with
    | qualified hsource => simp [splitRelation, Text.splitFirstDot?_append hsource]
    | bare hkey hsource hfull =>
      simp [splitRelation, Text.splitFirstDot?_dotless hkey, hfull, Text.splitFirstDot?_append hsource]
  · intro h
    unfold splitRelation at h
    cases hkey : Text.splitFirstDot? key with
    | some parts =>
      simp only [hkey] at h
      subst h
      rw [Text.splitFirstDot?_eq_some hkey]
      exact .qualified (Text.not_mem_of_splitFirstDot? hkey) relation
    | none =>
      simp only [hkey] at h
      obtain ⟨parts, hparts⟩ := Option.isSome_iff_exists.mp (isSome_splitFirstDot? p.rootAlias key)
      rw [hparts, Option.getD_some] at h
      subst h
      exact .bare (Text.splitFirstDot?_eq_none hkey) (Text.not_mem_of_splitFirstDot? hparts)
        (Text.splitFirstDot?_eq_some hparts)

theorem entryNames_iff {key a : String} {o : RelationOptions} :
    EntryNames key o a ↔ joinAlias key o = a := by
  constructor
  · intro h
    cases h with
    | given ha hne => simp [joinAlias, ha, hne]
    | segment hnone ha hkey =>
      have hlast : Text.afterLastDot key = a := by
        rcases hkey with rfl | ⟨before, rfl⟩
        · exact Text.afterLastDot_dotless ha
        · exact Text.afterLastDot_append ha
      unfold joinAlias
      split
      · rename_i b hb
        simp [hnone b hb, hlast]
      · exact hlast
  · rintro rfl
    have hsegment : (∀ b, o.joinAlias = some b → b = "") → EntryNames key o (Text.afterLastDot key) :=
      fun hnone => by
        refine .segment hnone (Text.not_mem_splitLastDot key) ?_
        by_cases hdot : '.' ∈ key.toList
        · exact .inr ⟨_, Text.append_splitLastDot hdot⟩
        · exact .inl (Text.afterLastDot_dotless hdot).symm
    unfold joinAlias
    split
    · rename_i b hb
      by_cases hempty : b = ""
      · simpa [hempty] using hsegment fun c hc => by rwa [← Option.some.inj (hb.symm.trans hc)]
      · simpa [hempty] using .given hb hempty
    · rename_i hb
      exact hsegment fun c hc => by
        rw [hb] at hc
        cases hc

/-! ### Names of a root and its joins -/

/-- Names that stand for a root and what joins bring: they are exactly the aliases, in the order of their
first use, and each stands for the last occurrence under it. -/
structure NamesOf (names : OrderedMap Occurrence) (root : Entity) (joins : List JoinClause) : Prop where
  keys : names.keys = (root.aliasName :: joins.map (·.aliasName)).eraseDups
  last : ∀ a, names.find? a = lastNamed a (rootOccurrence root :: broughtBy joins)

variable {root : Entity} {joins earlier : List JoinClause} {names names' : OrderedMap Occurrence}
  {j : JoinClause}

theorem NamesOf.unique (h : NamesOf names root joins) (h' : NamesOf names' root joins) : names = names' :=
  OrderedMap.ext_find? (h.keys.trans h'.keys.symm) fun a => (h.last a).trans (h'.last a).symm

theorem namesOf_ofRoot (root : Entity) : NamesOf (ofRoot root).names root [] where
  keys := (eraseDups_eq_self (List.nodup_singleton _)).symm
  last := namesLast_ofRoot root

theorem broughtBy_append (joins : List JoinClause) (j : JoinClause) :
    broughtBy (joins ++ [j]) = broughtBy joins ++ [j.occurrence joins.length] := by
  simp [broughtBy, List.mapIdx_append]

/-- A join puts its target under its alias. -/
theorem NamesOf.insert (h : NamesOf names root joins) (j : JoinClause) :
    NamesOf (names.insert j.aliasName (j.occurrence joins.length)) root (joins ++ [j]) where
  keys := by
    rw [OrderedMap.keys_insert, h.keys, List.map_append, List.map_singleton, ← List.cons_append,
      eraseDups_append_singleton]
    simp only [List.mem_eraseDups]
  last a := by
    have hlast : lastNamed a (rootOccurrence root :: broughtBy (joins ++ [j])) =
        if j.aliasName = a then some (j.occurrence joins.length)
        else lastNamed a (rootOccurrence root :: broughtBy joins) := by
      rw [broughtBy_append, ← List.cons_append]
      exact lastNamed_append_singleton a _ _
    rw [hlast]
    by_cases ha : j.aliasName = a
    · rw [if_pos ha, ← ha, OrderedMap.find?_insert_self]
    · rw [if_neg ha, OrderedMap.find?_insert_of_ne _ _ (Ne.symm ha), h.last]

theorem NamesOf.find?_eq_none_iff (h : NamesOf names root joins) {a : String} :
    names.find? a = none ↔ a ∉ root.aliasName :: joins.map (·.aliasName) := by
  rw [← List.mem_eraseDups, ← h.keys]
  simp only [OrderedMap.find?, OrderedMap.keys, List.lookup_eq_none_iff, List.mem_map, not_exists, not_and]
  exact ⟨fun hnone e he hname => bne_iff_ne.mp (hnone e he) hname.symm,
    fun hnone e he => bne_iff_ne.mpr fun hname => hnone e he hname.symm⟩

/-! ### Entries that are joined and entries that are refused -/

/-- A key leads to a target: an association of what its source alias stands for after earlier joins. -/
structure LeadsTo (s : Schema) (root : Entity) (earlier : List JoinClause)
    (key source relation : String) (target : Entity) : Prop where
  key : KeyNames root.aliasName key source relation
  association : ∃ o r, lastNamed source (rootOccurrence root :: broughtBy earlier) = some o ∧
    o.entity.relationship? relation = some r ∧ s.entity? r.target = some target

/-- The condition of an entry, as it comes out against the names that are registered with its own join. -/
def ConditionGives (root : Entity) (joins : List JoinClause) (o : RelationOptions)
    (result : Except QueryError JoinCondition) : Prop :=
  ∃ names, NamesOf names root joins ∧ JoinCondition.ofValue names o.condition = result

/-- A join is the one that an entry adds behind earlier joins. -/
structure Joins (s : Schema) (root : Entity) (earlier : List JoinClause) (e : String × RelationOptions)
    (j : JoinClause) : Prop where
  source : j.sourceAlias ∈ root.aliasName :: earlier.map (·.aliasName)
  leads : LeadsTo s root earlier e.1 j.sourceAlias j.relation j.target
  aliasName : EntryNames e.1 e.2 j.aliasName
  condition : ConditionGives root (earlier ++ [j]) e.2 (.ok j.condition)
  fields : j.fields = e.2.fields.getD [] ∧ ∀ f ∈ j.fields, j.target.hasField f = true
  index : ∀ f, e.2.indexBy = some f → j.target.hasField f = true
  indexBy : j.indexBy = e.2.indexBy.bind fun f => if f.isEmpty then none else some (j.aliasName ++ "." ++ f)
  joinType : j.joinType = e.2.joinType
  conditionType : j.conditionType = if j.condition.isAbsent then none else e.2.conditionType

/-- The reasons to refuse an entry behind earlier joins; each supposes that those before it are absent. -/
inductive Refuses (s : Schema) (root : Entity) (earlier : List JoinClause) (key : String)
    (o : RelationOptions) : QueryError → Prop
  /-- The source alias is not registered yet. -/
  | source {source relation : String} (hkey : KeyNames root.aliasName key source relation)
      (hnone : source ∉ root.aliasName :: earlier.map (·.aliasName)) :
      Refuses s root earlier key o (.unregisteredAlias source)
  /-- The relation is no association of the source. -/
  | relation {source relation : String} {occurrence : Occurrence}
      (hkey : KeyNames root.aliasName key source relation)
      (hsource : lastNamed source (rootOccurrence root :: broughtBy earlier) = some occurrence)
      (hnone : ∀ r target, occurrence.entity.relationship? relation = some r →
        s.entity? r.target ≠ some target) :
      Refuses s root earlier key o (.notRelationship occurrence.entity.fullName relation)
  /-- The index is no field of the target. -/
  | index {source relation : String} {target : Entity} {f : String}
      (hleads : LeadsTo s root earlier key source relation target) (hindex : o.indexBy = some f)
      (hfield : target.hasField f = false) :
      Refuses s root earlier key o (.unknownJoinIndex (source ++ "." ++ relation) f target.fullName)
  /-- The condition fails. -/
  | condition {j : JoinClause} {err : QueryError}
      (hleads : LeadsTo s root earlier key j.sourceAlias j.relation j.target)
      (hindex : ∀ f, o.indexBy = some f → j.target.hasField f = true)
      (halias : EntryNames key o j.aliasName)
      (hcondition : ConditionGives root (earlier ++ [j]) o (.error err)) : Refuses s root earlier key o err
  /-- Some of the fields are no fields of the target. -/
  | fields {j : JoinClause} (hleads : LeadsTo s root earlier key j.sourceAlias j.relation j.target)
      (hindex : ∀ f, o.indexBy = some f → j.target.hasField f = true)
      (halias : EntryNames key o j.aliasName)
      (hcondition : ConditionGives root (earlier ++ [j]) o (.ok j.condition))
      (hfields : (o.fields.getD []).filter (fun f => !j.target.hasField f) ≠ []) :
      Refuses s root earlier key o
        (.unknownFields ((o.fields.getD []).filter fun f => !j.target.hasField f) j.target.fullName)

/-! ### One entry -/

section Entry

variable {s : Schema} {p q : Plan} {key source relation : String} {o : RelationOptions} {target : Entity}
  {err : QueryError}

theorem relationTarget_of_leadsTo (hnames : NamesOf p.names p.root p.joins)
    (h : LeadsTo s p.root p.joins key source relation target) : p.relationTarget s key = .ok target := by
  obtain ⟨occurrence, r, hsource, hr, htarget⟩ := h.association
  unfold relationTarget
  simp [keyNames_iff.mp h.key, (hnames.last source).trans hsource, hr, htarget]

theorem leadsTo_of_relationTarget (hnames : NamesOf p.names p.root p.joins)
    (h : p.relationTarget s key = .ok target) :
    LeadsTo s p.root p.joins key (p.splitRelation key).1 (p.splitRelation key).2 target := by
  obtain ⟨occurrence, r, hsource, hr, htarget⟩ := relationTarget_eq_ok h
  exact ⟨keyNames_iff.mpr rfl, occurrence, r, (hnames.last _).symm.trans hsource, hr, htarget⟩

theorem refuses_of_relationTarget (hnames : NamesOf p.names p.root p.joins)
    (h : p.relationTarget s key = .error err) : Refuses s p.root p.joins key o err := by
  unfold relationTarget at h
  dsimp only at h
  split at h
  · rename_i hnone
    cases h
    exact .source (keyNames_iff.mpr rfl) (hnames.find?_eq_none_iff.mp hnone)
  · rename_i occurrence hsource
    split at h
    · rename_i hnone
      cases h
      refine .relation (keyNames_iff.mpr rfl) ((hnames.last _).symm.trans hsource) ?_
      intro r target hr htarget
      rw [hr, Option.bind_some, htarget] at hnone
      cases hnone
    · cases h

theorem checkJoinIndex_eq_ok_iff :
    p.checkJoinIndex key o target = .ok () ↔ ∀ f, o.indexBy = some f → target.hasField f = true := by
  unfold checkJoinIndex
  cases o.indexBy with
  | none => simp
  | some f => by_cases hf : target.hasField f = true <;> simp [hf]

theorem checkedFields_eq_error_iff {e : Entity} {fields : List String} :
    checkedFields e fields = .error err ↔ (fields.filter fun f => !e.hasField f) ≠ [] ∧
      err = .unknownFields (fields.filter fun f => !e.hasField f) e.fullName := by
  unfold checkedFields
  by_cases hnone : (fields.filter fun f => !e.hasField f) = []
  · simp [hnone]
  · rw [if_neg (by simpa using hnone), Except.error.injEq]
    exact ⟨fun h => ⟨hnone, h.symm⟩, fun h => h.2.symm⟩

/-- The names that the condition of an entry is built against. -/
theorem namesOf_withTarget (hnames : NamesOf p.names p.root p.joins) {j : JoinClause}
    (hj : joinAlias key o = j.aliasName) :
    NamesOf (p.withTarget (joinAlias key o) j.target) p.root (p.joins ++ [j]) := by
  rw [hj]
  exact hnames.insert j

theorem ofValue_of_conditionGives (hnames : NamesOf p.names p.root p.joins) {j : JoinClause}
    (hj : joinAlias key o = j.aliasName) {result : Except QueryError JoinCondition}
    (h : ConditionGives p.root (p.joins ++ [j]) o result) :
    JoinCondition.ofValue (p.withTarget (joinAlias key o) j.target) o.condition = result := by
  obtain ⟨names, hof, hresult⟩ := h
  rw [(namesOf_withTarget hnames hj).unique hof, hresult]

/-- An entry that is accepted adds its join and puts its target among the names. -/
theorem joins_of_addRelation (hnames : NamesOf p.names p.root p.joins)
    (h : p.addRelation s key o = .ok q) : ∃ j, Joins s p.root p.joins (key, o) j ∧
      q = { p with names := p.names.insert j.aliasName (j.occurrence p.joins.length),
                   joins := p.joins ++ [j] } := by
  obtain ⟨target, condition, fields, htarget, hindex, hcondition, hfields, rfl⟩ := addRelation_eq_ok h
  let j := p.joinClause key o target condition fields
  have hleads := leadsTo_of_relationTarget hnames htarget
  obtain ⟨hsame, hchecked⟩ := checkedFields_eq_ok hfields
  refine ⟨j, ⟨?_, hleads, entryNames_iff.mpr rfl, ⟨_, namesOf_withTarget hnames (j := j) rfl, hcondition⟩,
    ⟨hsame, fun f hf => hchecked f (hsame ▸ hf)⟩, checkJoinIndex_eq_ok_iff.mp hindex, rfl, rfl, rfl⟩, rfl⟩
  obtain ⟨occurrence, r, hsource, -⟩ := hleads.association
  have hregistered : p.names.find? j.sourceAlias = some occurrence := (hnames.last _).trans hsource
  by_contra hnone
  rw [hnames.find?_eq_none_iff.mpr hnone] at hregistered
  cases hregistered

/-- What an entry is refused for comes first among what is wrong with it. -/
theorem refuses_of_addRelation (hnames : NamesOf p.names p.root p.joins)
    (h : p.addRelation s key o = .error err) : Refuses s p.root p.joins key o err := by
  unfold addRelation at h
  cases htarget : p.relationTarget s key with
  | error e =>
    rw [htarget] at h
    cases h
    exact refuses_of_relationTarget hnames htarget
  | ok target =>
    have hleads := leadsTo_of_relationTarget hnames htarget
    cases hindex : p.checkJoinIndex key o target with
    | error e =>
      simp only [htarget, bind, Except.bind, hindex] at h
      cases h
      unfold checkJoinIndex at hindex
      split at hindex
      · cases hindex
      · rename_i f hf
        split at hindex
        · cases hindex
        · rename_i hfield
          cases hindex
          exact .index hleads hf (by simpa using hfield)
    | ok =>
      -- the join as far as it is known before its condition is built
      let j : JoinClause := p.joinClause key o target .absent []
      cases hcondition : JoinCondition.ofValue (p.withTarget (joinAlias key o) target) o.condition with
      | error e =>
        simp only [htarget, bind, Except.bind, hindex, hcondition] at h
        cases h
        exact .condition (j := j) hleads (checkJoinIndex_eq_ok_iff.mp hindex) (entryNames_iff.mpr rfl)
          ⟨_, namesOf_withTarget hnames (j := j) rfl, hcondition⟩
      | ok condition =>
        cases hfields : checkedFields target (o.fields.getD []) with
        | error e =>
          simp only [htarget, bind, Except.bind, hindex, hcondition, hfields] at h
          cases h
          obtain ⟨hunknown, rfl⟩ := checkedFields_eq_error_iff.mp hfields
          exact .fields (j := { j with condition := condition }) hleads
            (checkJoinIndex_eq_ok_iff.mp hindex) (entryNames_iff.mpr rfl)
            ⟨_, namesOf_withTarget hnames (j := { j with condition := condition }) rfl, hcondition⟩ hunknown
        | ok fields =>
          simp only [htarget, bind, Except.bind, hindex, hcondition, hfields] at h
          cases h

theorem addRelation_of_refuses (hnames : NamesOf p.names p.root p.joins)
    (h : Refuses s p.root p.joins key o err) : p.addRelation s key o = .error err := by
  unfold addRelation
  cases h with
  | @source source relation hkey hnone =>
    have htarget : p.relationTarget s key = .error (.unregisteredAlias source) := by
      unfold relationTarget
      simp [keyNames_iff.mp hkey, hnames.find?_eq_none_iff.mpr hnone]
    rw [htarget]
    rfl
  | @relation source relation occurrence hkey hsource hnone =>
    have hbind : ((occurrence.entity.relationship? relation).bind fun r => s.entity? r.target) = none :=
      Option.bind_eq_none_iff.mpr fun r hr => Option.eq_none_iff_forall_ne_some.mpr (hnone r · hr)
    have htarget : p.relationTarget s key =
        .error (.notRelationship occurrence.entity.fullName relation) := by
      unfold relationTarget
      simp [keyNames_iff.mp hkey, (hnames.last source).trans hsource, hbind]
    rw [htarget]
    rfl
  | index hleads hindex hfield =>
    simp [relationTarget_of_leadsTo hnames hleads, checkJoinIndex, hindex, hfield,
      keyNames_iff.mp hleads.key, bind, Except.bind]
  | @condition j err hleads hindex halias hcondition =>
    simp only [relationTarget_of_leadsTo hnames hleads, checkJoinIndex_eq_ok_iff.mpr hindex,
      ofValue_of_conditionGives hnames (entryNames_iff.mp halias) hcondition, bind, Except.bind]
  | fields hleads hindex halias hcondition hfields =>
    simp only [relationTarget_of_leadsTo hnames hleads, checkJoinIndex_eq_ok_iff.mpr hindex,
      ofValue_of_conditionGives hnames (entryNames_iff.mp halias) hcondition,
      checkedFields_eq_error_iff.mpr ⟨hfields, rfl⟩, bind, Except.bind]

end Entry

/-! ### All entries -/

/-- What the entries of a stage add to a plan of its root alone: one join each, up to the first entry that
is refused. -/
structure RelationsAdded (s : Schema) (root : Entity) (relations : List (String × RelationOptions))
    (p q : Plan) (failure : Option QueryError) : Prop where
  unchanged : q = { p with names := q.names, joins := q.joins }
  names : NamesOf q.names root q.joins
  joined : ∀ i j, q.joins[i]? = some j → ∃ e, relations[i]? = some e ∧
    Joins s root (q.joins.take i) e j ∧ ∀ err, ¬ Refuses s root (q.joins.take i) e.1 e.2 err
  complete : failure = none → q.joins.length = relations.length
  refused : ∀ err, failure = some err → ∃ e, relations[q.joins.length]? = some e ∧
    Refuses s root q.joins e.1 e.2 err

section Entries

variable {s : Schema} {first p q : Plan} {done rest : List (String × RelationOptions)}
  {e : String × RelationOptions} {err : QueryError}

theorem RelationsAdded.root_eq (h : RelationsAdded s first.root done first p none) :
    p.root = first.root := by
  rw [h.unchanged]

theorem RelationsAdded.step (h : RelationsAdded s first.root done first p none)
    (hq : p.addRelation s e.1 e.2 = .ok q) : RelationsAdded s first.root (done ++ [e]) first q none := by
  have hlength := h.complete rfl
  have hnames := h.root_eq ▸ h.names
  have hnot : ∀ err, ¬ Refuses s p.root p.joins e.1 e.2 err := fun err hrefused => by
    rw [addRelation_of_refuses hnames hrefused] at hq
    cases hq
  obtain ⟨j, hj, rfl⟩ := joins_of_addRelation hnames hq
  rw [h.root_eq] at hj hnot
  refine ⟨?_, h.names.insert j, fun i k hk => ?_, fun _ => by simp [hlength], nofun⟩
  · rw [h.unchanged]
  · rcases getElem?_append_singleton hk with hk | ⟨rfl, rfl⟩
    -- what stands before an older join is not changed by the new one
    · have hi := (List.getElem?_eq_some_iff.mp hk).1
      obtain ⟨d, hd, hjoins⟩ := h.joined i k hk
      rw [List.take_append_of_le_length (Nat.le_of_lt hi)]
      exact ⟨d, by rwa [List.getElem?_append_left (by omega)], hjoins⟩
    · rw [List.take_left]
      exact ⟨e, by simp [hlength], hj, hnot⟩

theorem RelationsAdded.stop (h : RelationsAdded s first.root done first p none)
    (herr : p.addRelation s e.1 e.2 = .error err) :
    RelationsAdded s first.root (done ++ e :: rest) first p (some err) := by
  have hlength := h.complete rfl
  have hrefused := refuses_of_addRelation (h.root_eq ▸ h.names) herr
  rw [h.root_eq] at hrefused
  refine ⟨h.unchanged, h.names, fun i j hj => ?_, nofun, fun err' hsome => ?_⟩
  · have hi := (List.getElem?_eq_some_iff.mp hj).1
    obtain ⟨d, hd, hjoins⟩ := h.joined i j hj
    exact ⟨d, by rwa [List.getElem?_append_left (by omega)], hjoins⟩
  · cases hsome
    exact ⟨e, by simp [hlength], hrefused⟩

theorem RelationsAdded.run {failure : Option QueryError} (h : RelationsAdded s first.root done first p none)
    (hq : p.addRelations s rest = (q, failure)) :
    RelationsAdded s first.root (done ++ rest) first q failure := by
  induction rest generalizing done p with
  | nil =>
    cases hq
    simpa using h
  | cons e rest ih =>
    obtain ⟨next, hr, hq⟩ | ⟨err, hr, rfl, rfl⟩ := addRelations_cons_eq hq
    · simpa using ih (h.step hr) hq
    · exact h.stop hr

theorem relationsAdded_nil {d : Descriptor} (hstart : start root d = .ok p) :
    RelationsAdded s p.root [] p p none := by
  rw [start_eq_ok hstart]
  exact ⟨rfl, namesOf_ofRoot root, fun i j hj => by simp [ofRoot] at hj, fun _ => rfl, nofun⟩

/-- The relation stage of any root adds one join for each entry, in their order and each from what stands
before it, or it stops at the first entry that is refused. -/
theorem addRelations_stage {root : Entity} {d : Descriptor} {relations : List (String × RelationOptions)}
    {failure : Option QueryError} (hstart : start root d = .ok p)
    (h : p.addRelations s relations = (q, failure)) : RelationsAdded s root relations p q failure := by
  have hroot := root_start hstart
  exact hroot ▸ (relationsAdded_nil hstart).run h

/-- Comments under a condition, their authors, and a join whose source is not there. -/
def ghostRelations : List (String × RelationOptions) :=
  [("comments", {
      joinAlias := some "c",
      condition := .condition (.compareField .equal "c.author_id" "article.author_id") }),
    ("c.author", {}), ("ghost.comments", {})]

theorem relationsAdded_ghostRelations :
    ∃ p q, start Model.Blog.article {} = .ok p ∧
      p.addRelations Model.Blog.schema ghostRelations = (q, some (.unregisteredAlias "ghost")) ∧
      RelationsAdded Model.Blog.schema Model.Blog.article ghostRelations p q
        (some (.unregisteredAlias "ghost")) := by
  have hstart : start Model.Blog.article {} = .ok (ofRoot Model.Blog.article) := rfl
  have hstage : ((ofRoot Model.Blog.article).addRelations Model.Blog.schema ghostRelations).2 =
      some (.unregisteredAlias "ghost") := by decide +kernel
  exact ⟨_, _, hstart, Prod.ext rfl hstage, addRelations_stage hstart (Prod.ext rfl hstage)⟩

end Entries

end Plan
end EntityQuery
