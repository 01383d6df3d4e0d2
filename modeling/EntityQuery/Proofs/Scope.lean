import EntityQuery.Execution.Run
import EntityQuery.Proofs.Related
import EntityQuery.Proofs.Result
/-!
The names in reach of the statements of a plan. Each join brings the names of its link table and of its
target. The names in its condition are looked for in the whole statement, except that an outer join over
a link table reaches no further than the parentheses around its two tables.
-/
namespace EntityQuery

variable {s : Schema} {scope : NameScope}

theorem Select.resolves_of_check {q : Select} (h : q.check s = .ok ()) : q.resolves s = true := by
  unfold check at h
  split at h
  · cases h
  · split at h
    · cases h
    · rename_i hresolves
      simpa using hresolves

namespace Plan

/-- The names that a join brings, with their tables. -/
def ResolvedJoin.names (j : ResolvedJoin) (n : Nat) : NameScope :=
  (j.linkTable?.map fun table => (table ++ "_" ++ toString n, table)).toList ++
    [(j.target.aliasName, j.target.entity.table)]

/-- The names that joins bring, one after the other. -/
def namesFrom (used : List String) : List ResolvedJoin → NameScope
  | [] => []
  | j :: js => j.names (linkNumber used j) ++ namesFrom (usedAfter used j) js

/-- Whether the names in the condition of a join resolve. -/
def ResolvedJoin.resolves (s : Schema) (scope : NameScope) (n : Nat) (j : ResolvedJoin) : Bool :=
  match j.predicate with
  | .replaced p => p.columns.all (s.resolves scope)
  | .linked extra => match linkPredicate j n with
    | .direct p => (narrowed p extra).columns.all (s.resolves scope)
    | .through _ toSource toTarget =>
      (narrowed toTarget extra).columns.all (s.resolves (if j.outer then j.names n else scope)) &&
        toSource.columns.all (s.resolves scope)

/-- Whether the names in the conditions of joins resolve. -/
def resolvesFrom (s : Schema) (scope : NameScope) (used : List String) : List ResolvedJoin → Bool
  | [] => true
  | j :: js => j.resolves s scope (linkNumber used j) && resolvesFrom s scope (usedAfter used j) js

theorem linkTable?_through {j : ResolvedJoin} {extra : Option Predicate}
    (hp : j.predicate = .linked extra) {n : Nat} {table : String} {toSource toTarget : Predicate}
    (hl : linkPredicate j n = .through table toSource toTarget) : j.linkTable? = some table := by
  obtain ⟨_, _, _, _, hlink⟩ := exists_through hl
  simp [ResolvedJoin.linkTable?, hp, hlink]

theorem linkTable?_direct {j : ResolvedJoin} {n : Nat} {p : Predicate}
    (hl : linkPredicate j n = .direct p) : j.linkTable? = none := by
  unfold linkPredicate at hl
  unfold ResolvedJoin.linkTable?
  split at hl
  · rename_i hlink
    simp [hlink]
  · rename_i hlink
    simp [hlink]
  · cases hl

theorem linkTable?_replaced {j : ResolvedJoin} {p : Predicate} (hp : j.predicate = .replaced p) :
    j.linkTable? = none := by
  simp [ResolvedJoin.linkTable?, hp]

theorem scope_continued (left : Source) (j : ResolvedJoin) (n : Nat) :
    (continued left j n).scope = left.scope ++ j.names n := by
  unfold continued ResolvedJoin.names
  cases hp : j.predicate with
  | replaced p =>
    rw [linkTable?_replaced hp]
    simp [Source.scope, Source.tables, Occurrence.source]
  | linked extra =>
    cases hl : linkPredicate j n with
    | direct p =>
      rw [linkTable?_direct hl]
      simp [Source.scope, Source.tables, Occurrence.source]
    | through table toSource toTarget =>
      rw [linkTable?_through hp hl]
      dsimp only
      split <;> simp [Source.scope, Source.tables, Occurrence.source]

theorem scope_chain (left : Source) (used : List String) (js : List ResolvedJoin) :
    (chain left used js).scope = left.scope ++ namesFrom used js := by
  induction js generalizing left used with
  | nil => simp [chain, namesFrom]
  | cons j js ih => rw [chain, ih, scope_continued, namesFrom, List.append_assoc]

theorem resolves_continued (left : Source) (j : ResolvedJoin) (n : Nat) :
    (continued left j n).resolves s scope = (left.resolves s scope && j.resolves s scope n) := by
  unfold continued ResolvedJoin.resolves
  cases hp : j.predicate with
  | replaced p => simp [Source.resolves, Occurrence.source]
  | linked extra =>
    cases hl : linkPredicate j n with
    | direct p => simp [Source.resolves, Occurrence.source]
    | through table toSource toTarget =>
      unfold ResolvedJoin.names
      rw [linkTable?_through hp hl]
      dsimp only
      cases j.outer with
      | true => simp [Source.resolves, Occurrence.source, Source.scope, Source.tables, Bool.and_assoc]
      | false =>
        simp [Source.resolves, Occurrence.source, Bool.and_assoc, Bool.and_comm, Bool.and_left_comm]

theorem resolves_chain (left : Source) (used : List String) (js : List ResolvedJoin) :
    (chain left used js).resolves s scope =
      (left.resolves s scope && resolvesFrom s scope used js) := by
  induction js generalizing left used with
  | nil => simp [chain, resolvesFrom]
  | cons j js ih => rw [chain, ih, resolves_continued, resolvesFrom, Bool.and_assoc]

/-- The names of a statement over the joins of a plan: that of the root, then those that the joins bring. -/
def scopeOf (p : Plan) (js : List ResolvedJoin) : NameScope :=
  (p.rootAlias, p.root.table) :: namesFrom [] js

theorem scope_joined (p : Plan) (js : List ResolvedJoin) : (p.joined js).scope = p.scopeOf js := by
  rw [joined, scope_chain]
  rfl

theorem resolves_joined (p : Plan) (js : List ResolvedJoin) (scope : NameScope) :
    (p.joined js).resolves s scope = resolvesFrom s scope [] js := by
  rw [joined, resolves_chain]
  rfl

end Plan

namespace Schema

/-- A table has the columns of the entities that are stored in it. -/
theorem WellFormed.tableHas (hs : s.WellFormed) {e : Entity} (he : e ∈ s.entities) {c : Column}
    (hc : c ∈ e.columns) : s.tableHas e.table c.name = true := by
  obtain ⟨t, ht, hname, hcolumns, -⟩ := hs.stored e he
  have hfind : s.table? e.table = some t := by
    obtain ⟨u, hu⟩ : ∃ u, s.table? e.table = some u := by
      rw [← Option.isSome_iff_exists, table?, List.find?_isSome]
      exact ⟨t, ht, by simp [hname]⟩
    have huname : u.name = e.table := by simpa using List.find?_some hu
    rw [hu, List.inj_on_of_nodup_map hs.table_names (List.mem_of_find?_eq_some hu) ht
      (huname.trans hname.symm)]
  unfold Schema.tableHas
  rw [hfind]
  simp only [Option.map_some, Option.getD_some, List.any_eq_true]
  exact ⟨c, hcolumns c hc, by simp⟩

end Schema
end EntityQuery
