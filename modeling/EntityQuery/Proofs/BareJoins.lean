import EntityQuery.Proofs.Compilation
import EntityQuery.Proofs.Conditions
import EntityQuery.Proofs.OuterForm
import EntityQuery.Proofs.QueryStrings
/-!
Plans of joins without conditions, each under the name of its relation, as query strings write them. With
distinct aliases both statements of such a plan can be drawn up.
-/
namespace EntityQuery

namespace Plan

variable {s : Schema} {p : Plan} {js : List ResolvedJoin}

/-- The joins of a plan have no conditions and stand under the names of their relations. -/
structure BareJoins (p : Plan) : Prop where
  condition : ∀ j ∈ p.joins, j.condition = .absent
  aliasName : ∀ j ∈ p.joins, j.aliasName = j.relation

theorem identifier_relation (hids : s.Identifiers) (hp : p.Layout s) (hroot : p.root ∈ s.entities)
    {j : JoinClause} (hj : j ∈ p.joins) : Text.isIdentifier j.relation = true := by
  obtain ⟨i, hi⟩ := List.mem_iff_getElem?.mp hj
  obtain ⟨k, -, o, r, ho, -, hr, -⟩ := hp.source i j hi
  refine hids _ (entity_of_occurrence? hp hroot ho) _ (List.mem_append_right _ ?_)
  exact List.mem_map.mpr ⟨r, List.mem_of_find?_eq_some hr, relationship?_name hr⟩

/-- The joins that a query string asks for are bare. -/
theorem bareJoins_build (hids : s.Identifiers) {operators : OperatorTable Operator} {root : Entity}
    {d : Descriptor} {query : List (String × String)} (hd : d.FromQuery query)
    (hdistinct : d.DistinctAliases root) (hroot : root ∈ s.entities)
    (h : (build s operators root d).plan = .ok p) : p.BareJoins := by
  have hlayout := layout_build hdistinct h
  have hproot := (build_frame h).1
  have hasked : ∀ j ∈ p.joins, ∃ e ∈ d.relations.entries, Asked root e j := fun j hj =>
    exists_of_forall₂ (build_joins h) hj
  refine ⟨fun j hj => ?_, fun j hj => ?_⟩
  · obtain ⟨e, he, hask⟩ := hasked j hj
    obtain ⟨t, ht⟩ := hd.relations e he
    exact hask.condition (by rw [ht])
  · obtain ⟨e, he, hask⟩ := hasked j hj
    obtain ⟨t, ht⟩ := hd.relations e he
    have hrelation : j.relation = ((ofRoot root).splitRelation e.1).2 := congrArg Prod.snd hask.path
    have hidentifier := identifier_relation hids hlayout (hproot.symm ▸ hroot) hj
    rw [hask.aliasName, ht, hrelation]
    exact afterLastDot_of_splitRelation (Text.dotless_of_isIdentifier (hrelation ▸ hidentifier))

/-- A join without a condition follows its link alone. -/
theorem suitable_of_bareJoins (hbare : p.BareJoins) : p.SuitableConditions := fun j hj => by
  rw [hbare.condition j hj]
  trivial

theorem linked_of_absent (habsent : ∀ j ∈ p.joins, j.condition = .absent)
    (hfollows : List.Forall₂ Follows p.joins js) : ∀ j ∈ js, j.predicate = .linked none := by
  intro j hj
  obtain ⟨clause, hclause, -, -, hpredicate, -⟩ := exists_of_forall₂ hfollows hj
  unfold JoinClause.predicate at hpredicate
  rw [habsent clause hclause] at hpredicate
  exact (Except.ok.inj hpredicate).symm

/-- No two joins under the names of their relations load the same relationship. -/
theorem loadsApart_of_bareJoins (hp : p.Layout s) (hbare : p.BareJoins) : p.LoadsApart := by
  have hnames : (p.joins.map fun j => (j.sourceAlias, j.relation)).map Prod.snd =
      p.joins.map (·.aliasName) := by
    rw [List.map_map]
    exact List.map_congr_left fun j hj => (hbare.aliasName j hj).symm
  have hnodup : (p.joins.map (·.aliasName)).Nodup := (List.nodup_cons.mp hp.distinct).2
  exact List.Nodup.of_map Prod.snd (hnames ▸ hnodup)

end Plan
end EntityQuery
