import EntityQuery.Proofs.LowerCase
import EntityQuery.Proofs.QueryPairs
import EntityQuery.Proofs.RelationStage
/-!
Relations that start at the root. The alias of an entity inside another class has a dot, and a relation key
that is read with this alias before it is divided at this dot; so the relations of such an entity are not
found under their names, and those of all other entities are.
-/
namespace EntityQuery

/-- The head of the family of an entity stands inside another class: its path inside its scope has a dot. -/
def Entity.Nested (e : Entity) : Prop := e.scope ≠ "" ∧ '.' ∈ e.root.toList

instance (e : Entity) : Decidable e.Nested := inferInstanceAs (Decidable (_ ∧ _))

/-- The aliases of nested entities, and no others, have a dot. -/
theorem Entity.mem_aliasName_dot (e : Entity) : '.' ∈ e.aliasName.toList ↔ e.Nested := by
  unfold Entity.aliasName rootAlias Entity.rootName Entity.Nested
  rw [Text.mem_lower_iff (by decide) (by decide)]
  by_cases hscope : e.scope = ""
  · rw [if_pos (by simp [hscope])]
    exact iff_of_false (Text.not_mem_splitLastDot _) fun h => h.1 hscope
  · simp [hscope, Text.dropPrefix?_self]

/-- Options without a condition, an index and fields. -/
structure RelationOptions.Plain (o : RelationOptions) : Prop where
  condition : o.condition = .null
  indexBy : o.indexBy = none
  fields : o.fields.getD [] = []

/-- The descriptor that asks for one relation. -/
def Descriptor.ofRelation (name : String) (o : RelationOptions) : Descriptor :=
  { relations := OrderedMap.empty.insert name o }

namespace Plan

variable {s : Schema} {root target : Entity} {name source relation : String} {o : RelationOptions}

/-- A key without a dot is read from the alias of the root alone if this has no dot, or else it is divided
inside the alias. -/
theorem KeyNames.bare_cases {a : String} (h : KeyNames a name source relation) (hname : '.' ∉ name.toList) :
    ('.' ∉ a.toList ∧ source = a ∧ relation = name) ∨
      ∃ inner, a = source ++ "." ++ inner ∧ relation = inner ++ "." ++ name := by
  cases h with
  | qualified => simp at hname
  | bare _ hsource hfull =>
    have hsplit := congrArg Text.splitFirstDot? hfull
    rw [Text.splitFirstDot?_append hsource] at hsplit
    cases ha : Text.splitFirstDot? a with
    | none =>
      have hdot := Text.splitFirstDot?_eq_none ha
      rw [Text.splitFirstDot?_append hdot] at hsplit
      cases hsplit
      exact .inl ⟨hdot, rfl, rfl⟩
    | some parts =>
      obtain ⟨head, inner⟩ := parts
      obtain rfl := Text.splitFirstDot?_eq_some ha
      have hassoc : head ++ "." ++ inner ++ "." ++ name = head ++ "." ++ (inner ++ "." ++ name) := by
        simp only [String.append_assoc]
      rw [hassoc, Text.splitFirstDot?_append (Text.not_mem_of_splitFirstDot? ha)] at hsplit
      cases hsplit
      exact .inr ⟨inner, rfl, rfl⟩

theorem KeyNames.dotless {a key : String} (h : KeyNames a key source relation) : '.' ∉ source.toList := by
  cases h with
  | qualified hsource => exact hsource
  | bare _ hsource => exact hsource

/-- Behind the root alone only a key that is divided inside the alias of the root is not read from it. -/
theorem KeyNames.root_cases (h : KeyNames root.aliasName name source relation) (hname : '.' ∉ name.toList) :
    (¬ root.Nested ∧ source = root.aliasName ∧ relation = name) ∨
      (root.Nested ∧ source ≠ root.aliasName ∧ ∃ inner, root.aliasName = source ++ "." ++ inner) := by
  rw [← root.mem_aliasName_dot]
  rcases h.bare_cases hname with ⟨hdot, hsource, hrelation⟩ | ⟨inner, hinner, -⟩
  · exact .inl ⟨hdot, hsource, hrelation⟩
  · have hdot : '.' ∈ root.aliasName.toList := by simp [hinner]
    exact .inr ⟨hdot, fun hsame => h.dotless (hsame ▸ hdot), inner, hinner⟩

/-- A relation of the root is refused only if its key is divided inside the alias of the root. -/
theorem refuses_plain (hname : '.' ∉ name.toList) (ho : o.Plain) {r : Relationship}
    (hr : root.relationship? name = some r) (htarget : s.entity? r.target = some target) {err : QueryError}
    (h : Refuses s root [] name o err) : root.Nested ∧ ∃ source inner, '.' ∉ source.toList ∧
      root.aliasName = source ++ "." ++ inner ∧ err = .unregisteredAlias source := by
  cases h with
  | @source source relation hkey hnone =>
    rcases hkey.root_cases hname with ⟨-, hsource, -⟩ | ⟨hnested, -, inner, hinner⟩
    · exact absurd (hsource ▸ List.mem_cons_self) hnone
    · exact ⟨hnested, source, inner, hkey.dotless, hinner, rfl⟩
  | @relation source relation occurrence hkey hsource hnone =>
    obtain ⟨hmem, hnamed⟩ := mem_of_lastNamed hsource
    obtain rfl : occurrence = rootOccurrence root := by simpa [broughtBy] using hmem
    rcases hkey.root_cases hname with ⟨-, -, rfl⟩ | ⟨-, hother, -⟩
    · exact absurd htarget (hnone r target hr)
    · exact absurd hnamed.symm hother
  | index _ hindex => cases ho.indexBy.symm.trans hindex
  | condition _ _ _ hcondition =>
    obtain ⟨names, -, hresult⟩ := hcondition
    rw [ho.condition] at hresult
    cases hresult
  | fields _ _ _ _ hfields => simp [ho.fields] at hfields

/-- The join of a relation of the root starts at the root. -/
theorem joins_plain (hname : '.' ∉ name.toList) {r : Relationship}
    (hr : root.relationship? name = some r) (htarget : s.entity? r.target = some target) {j : JoinClause}
    (h : Joins s root [] (name, o) j) : ¬ root.Nested ∧ j.sourceAlias = root.aliasName ∧
      j.relation = name ∧ j.target = target := by
  have hsource : j.sourceAlias = root.aliasName := by simpa using h.source
  rcases h.leads.key.root_cases hname with ⟨hnested, -, hrelation⟩ | ⟨-, hother, -⟩
  · obtain ⟨occurrence, q, hlast, hq, hjoined⟩ := h.leads.association
    obtain ⟨hmem, -⟩ := mem_of_lastNamed hlast
    obtain rfl : occurrence = rootOccurrence root := by simpa [broughtBy] using hmem
    rw [hrelation] at hq
    cases hr.symm.trans hq
    exact ⟨hnested, hsource, hrelation, Option.some.inj (hjoined.symm.trans htarget)⟩
  · exact absurd hsource hother

/-- A plan has one join, that of a relation of its root. -/
def JoinsRoot (p : Plan) (name : String) (target : Entity) : Prop :=
  ∃ j, p.joins = [j] ∧ j.sourceAlias = p.rootAlias ∧ j.relation = name ∧ j.target = target

theorem build_ofRelation (operators : OperatorTable Operator) {first q : Plan}
    (hstart : start root (.ofRelation name o) = .ok first)
    (hjoins : first.addRelations s [(name, o)] = (q, none)) :
    ∃ p, (build s operators root (.ofRelation name o)).plan = .ok p ∧ p.root = q.root ∧
      p.joins = q.joins := by
  have hentries : (Descriptor.ofRelation name o).relations.entries = [(name, o)] := rfl
  unfold build
  rw [hstart]
  simp only [hentries, hjoins]
  exact ⟨_, rfl, rfl, rfl⟩

theorem build_ofRelation_error (operators : OperatorTable Operator) {first q : Plan} {err : QueryError}
    (hstart : start root (.ofRelation name o) = .ok first)
    (hjoins : first.addRelations s [(name, o)] = (q, some err)) :
    (build s operators root (.ofRelation name o)).plan = .error err := by
  have hentries : (Descriptor.ofRelation name o).relations.entries = [(name, o)] := rfl
  unfold build
  rw [hstart]
  simp only [hentries, hjoins]

/-- A relation of an entity is joined under its name, from the root, exactly if the entity is not nested;
the alias of a nested entity is divided at its first dot, and what stands there is no alias. -/
theorem build_relation_iff {operators : OperatorTable Operator} (hname : '.' ∉ name.toList) (ho : o.Plain)
    {r : Relationship} (hr : root.relationship? name = some r) (htarget : s.entity? r.target = some target) :
    ((∃ p, (build s operators root (.ofRelation name o)).plan = .ok p ∧ p.root = root ∧
        p.JoinsRoot name target) ↔ ¬ root.Nested) ∧
      (root.Nested → ∃ source inner, '.' ∉ source.toList ∧ root.aliasName = source ++ "." ++ inner ∧
        (build s operators root (.ofRelation name o)).plan = .error (.unregisteredAlias source)) := by
  obtain ⟨first, hstart⟩ : ∃ first, start root (.ofRelation name o) = .ok first := ⟨_, rfl⟩
  obtain ⟨q, failure, hjoins⟩ : ∃ q failure, first.addRelations s [(name, o)] = (q, failure) := ⟨_, _, rfl⟩
  have hroot := root_start hstart
  have hadded : RelationsAdded s root [(name, o)] first q failure :=
    hroot ▸ (relationsAdded_nil hstart).run hjoins
  cases failure with
  | none =>
    obtain ⟨p, hp, hproot, hpjoins⟩ := build_ofRelation operators hstart hjoins
    obtain ⟨j, hj⟩ := List.length_eq_one_iff.mp (hadded.complete rfl)
    obtain ⟨e, he, hjoined, -⟩ := hadded.joined 0 j (by simp [hj])
    cases he
    rw [List.take_zero] at hjoined
    obtain ⟨hnested, hsource, hrelation, htarget⟩ := joins_plain hname hr htarget hjoined
    have hsame : p.root = root := by rw [hproot, hadded.unchanged, hroot]
    have hone : p.JoinsRoot name target :=
      ⟨j, hpjoins.trans hj, by rw [rootAlias, hsame, hsource], hrelation, htarget⟩
    exact ⟨iff_of_true ⟨p, hp, hsame, hone⟩ hnested, fun h => absurd h hnested⟩
  | some err =>
    have hbuilt := build_ofRelation_error operators hstart hjoins
    obtain ⟨e, he, hrefused⟩ := hadded.refused err rfl
    have hnone : q.joins = [] := by
      have hlt := (List.getElem?_eq_some_iff.mp he).1
      exact List.length_eq_zero_iff.mp (by simpa using hlt)
    rw [hnone] at he hrefused
    cases he
    obtain ⟨hnested, source, inner, hdot, halias, rfl⟩ := refuses_plain hname ho hr htarget hrefused
    refine ⟨iff_of_false ?_ (not_not.mpr hnested), fun _ => ⟨source, inner, hdot, halias, hbuilt⟩⟩
    rintro ⟨p, hp, -⟩
    cases hbuilt.symm.trans hp

theorem build_relation_boss : ∃ p,
    (build Model.Shop.schema .builtIn Model.Shop.engineer (.ofRelation "boss" { joinType := .inner })).plan =
      .ok p ∧ p.root = Model.Shop.engineer ∧ p.JoinsRoot "boss" Model.Shop.staff := by
  have hname : '.' ∉ "boss".toList := by decide
  have hplain : RelationOptions.Plain { joinType := .inner } := ⟨rfl, rfl, rfl⟩
  have hrelation : Model.Shop.engineer.relationship? "boss" = some Model.Shop.boss := by decide +kernel
  have htarget : Model.Shop.schema.entity? "Staff" = some Model.Shop.staff := by decide +kernel
  have hnested : ¬ Model.Shop.engineer.Nested := by decide +kernel
  exact (build_relation_iff hname hplain hrelation htarget).1.mpr hnested

/-- The slots of storage bins cannot be joined under their name. -/
theorem not_build_relation_slots : Model.Shop.bin.hasAssociation "slots" = true ∧
    ∃ err, (build Model.Shop.schema .builtIn Model.Shop.bin (.ofRelation "slots" {})).plan = .error err ∧
      err = .unregisteredAlias "depot" ∧ err.kind = .missingKey := by
  have hstart : start Model.Shop.bin (.ofRelation "slots" {}) = .ok (ofRoot Model.Shop.bin) := rfl
  have hfailure : ((ofRoot Model.Shop.bin).addRelations Model.Shop.schema [("slots", {})]).2 =
      some (.unregisteredAlias "depot") := by decide +kernel
  exact ⟨by decide +kernel, _, build_ofRelation_error .builtIn hstart (Prod.ext rfl hfailure), rfl, rfl⟩

end Plan
end EntityQuery
