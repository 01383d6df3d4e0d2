import EntityQuery.Proofs.RenamedStatement
import EntityQuery.Proofs.Runnable
/-!
Names in statements under other aliases. A renaming that keeps which names of a statement are the same,
letters in any case, keeps whether the statement runs; and so it keeps what is loaded and counted.
-/
namespace EntityQuery

variable {s : Schema} {f : Renaming} {N : String → Prop}

/-- Names are the same before and after, where letters match in any case. -/
def Renaming.Faithful (f : Renaming) (N : String → Prop) : Prop :=
  ∀ a b, N a → N b →
    (Text.lowerAscii (f a) = Text.lowerAscii (f b) ↔ Text.lowerAscii a = Text.lowerAscii b)

/-- Names in reach under other aliases. -/
def renamedScope (f : Renaming) (scope : NameScope) : NameScope := scope.map fun t => (f t.1, t.2)

/-- The names of a source are among certain ones. -/
def Source.Within (N : String → Prop) : Source → Prop
  | table _ _ a => N a
  | join left right _ on => left.Within N ∧ right.Within N ∧ ∀ c ∈ on.columns, N c.aliasName

/-- The names of a selection are among certain ones. -/
structure Select.Within (N : String → Prop) (q : Select) : Prop where
  columns : ∀ c ∈ q.columns, N c.aliasName
  sources : ∀ src ∈ q.sources, src.Within N
  conditions : ∀ c ∈ Predicate.columnsOf q.conditions, N c.aliasName
  order : ∀ c ∈ q.order, N c.1.aliasName

theorem Schema.resolves_renamed (hf : f.Faithful N) {scope : NameScope} (hscope : ∀ t ∈ scope, N t.1)
    {c : ColumnRef} (hc : N c.aliasName) :
    s.resolves (renamedScope f scope) (c.renamed f) = s.resolves scope c := by
  unfold resolves renamedScope
  rw [List.countP_map]
  refine congrArg (· == 1) (List.countP_congr fun t ht => ?_)
  have hsame := hf t.1 c.aliasName (hscope t ht) hc
  simp only [Function.comp_apply, Bool.and_eq_true, beq_iff_eq, ColumnRef.renamed, hsame]

theorem Schema.all_resolves_renamed (hf : f.Faithful N) {scope : NameScope}
    (hscope : ∀ t ∈ scope, N t.1) {cs : List ColumnRef} (hcs : ∀ c ∈ cs, N c.aliasName) :
    (cs.map (ColumnRef.renamed f)).all (s.resolves (renamedScope f scope)) =
      cs.all (s.resolves scope) := by
  rw [List.all_map]
  refine Bool.eq_iff_iff.mpr ?_
  simp only [List.all_eq_true, Function.comp_apply]
  exact forall₂_congr fun c hc => by rw [Schema.resolves_renamed hf hscope (hcs c hc)]

namespace Source

theorem scope_renamed (f : Renaming) (src : Source) :
    (src.renamed f).scope = renamedScope f src.scope := by
  induction src with
  | table owner name a => rfl
  | join left right outer on ihl ihr =>
    have hjoin : ∀ (l r : Source) o p, (Source.join l r o p).scope = l.scope ++ r.scope :=
      fun l r o p => List.map_append
    unfold renamed
    rw [hjoin, hjoin, ihl, ihr]
    exact List.map_append.symm

theorem Within.scope {src : Source} (h : src.Within N) : ∀ t ∈ src.scope, N t.1 := by
  induction src with
  | table owner name a =>
    intro t ht
    rw [List.mem_singleton.mp ht]
    exact h
  | join left right outer on ihl ihr =>
    intro t ht
    have hboth : t ∈ left.scope ++ right.scope := by
      unfold Source.scope tables at ht
      rwa [List.map_append] at ht
    exact (List.mem_append.mp hboth).elim (ihl h.1 t) (ihr h.2.1 t)

/-- The right side of a join reaches its own tables, and a table has no names to resolve. -/
theorem resolves_join (scope : NameScope) (left right : Source) (outer : Bool) (on : Predicate) :
    (join left right outer on).resolves s scope = (left.resolves s scope &&
      right.resolves s right.scope && on.columns.all (s.resolves scope)) := by
  cases right <;> simp only [Source.resolves]

theorem resolves_renamed (hf : f.Faithful N) {src : Source} (hsrc : src.Within N) {scope : NameScope}
    (hscope : ∀ t ∈ scope, N t.1) :
    (src.renamed f).resolves s (renamedScope f scope) = src.resolves s scope := by
  induction src generalizing scope with
  | table owner name a => rfl
  | join left right outer on ihl ihr =>
    obtain ⟨hleft, hright, hon⟩ := hsrc
    unfold renamed
    rw [resolves_join, resolves_join, ihl hleft hscope, scope_renamed, ihr hright hright.scope,
      Predicate.columns_renamed, Schema.all_resolves_renamed hf hscope hon]

end Source

namespace Select

theorem resolves_renamed (hf : f.Faithful N) {q : Select} (hq : q.Within N) :
    (q.renamed f).resolves s = q.resolves s := by
  have hscope : ∀ t ∈ q.sources.flatMap Source.scope, N t.1 := fun t ht => by
    obtain ⟨src, hsrc, ht⟩ := List.mem_flatMap.mp ht
    exact (hq.sources src hsrc).scope t ht
  have hflat : (q.sources.map (Source.renamed f)).flatMap Source.scope =
      renamedScope f (q.sources.flatMap Source.scope) := by
    unfold renamedScope
    rw [List.flatMap_map, List.map_flatMap]
    exact congrArg (List.flatMap · q.sources) (funext fun src => Source.scope_renamed f src)
  have hsources : (q.sources.map (Source.renamed f)).all
        (Source.resolves s (renamedScope f (q.sources.flatMap Source.scope))) =
      q.sources.all (Source.resolves s (q.sources.flatMap Source.scope)) := by
    rw [List.all_map, Bool.eq_iff_iff]
    simp only [List.all_eq_true, Function.comp_apply]
    exact forall₂_congr fun src hsrc => by
      rw [Source.resolves_renamed hf (hq.sources src hsrc) hscope]
  have hconditions : (Predicate.columnsOf (q.conditions.map (Predicate.renamed f))).all
        (s.resolves (renamedScope f (q.sources.flatMap Source.scope))) =
      (Predicate.columnsOf q.conditions).all (s.resolves (q.sources.flatMap Source.scope)) := by
    rw [← Predicate.renamedAll_eq_map, Predicate.columnsOf_renamed]
    exact Schema.all_resolves_renamed hf hscope hq.conditions
  have horder : ((renamedOrder f q.order).all fun c =>
        s.resolves (renamedScope f (q.sources.flatMap Source.scope)) c.1) =
      q.order.all fun c => s.resolves (q.sources.flatMap Source.scope) c.1 := by
    unfold renamedOrder
    rw [List.all_map, Bool.eq_iff_iff]
    simp only [List.all_eq_true, Function.comp_apply]
    exact forall₂_congr fun c hc => by rw [Schema.resolves_renamed hf hscope (hq.order c hc)]
  unfold resolves renamed
  dsimp only
  rw [hflat, Schema.all_resolves_renamed hf hscope hq.columns, hsources, hconditions, horder]

theorem check_renamed (hf : f.Faithful N) {q : Select} (hq : q.Within N) :
    (q.renamed f).check s = q.check s := by
  unfold check checkStorable
  rw [resolves_renamed hf hq, parameters_renamed]

end Select

namespace Plan

variable {p : Plan} {js : List ResolvedJoin}

/-- The names in the statements of a plan: its aliases, and those that are numbered. -/
def InStatement (p : Plan) (a : String) : Prop := a ∈ p.aliasNames ∨ Text.IsNumbered a

theorem inStatement_of_names {c : ColumnRef}
    (h : ∃ k o, p.occurrence? k = some o ∧ o.Names c) : p.InStatement c.aliasName := by
  obtain ⟨k, o, ho, column, -, rfl⟩ := h
  exact .inl (mem_aliasNames ho)

/-- A join without a condition brings the names of its source, of its target and of its link table. -/
theorem within_continued (hnumbered : ∀ a, Text.IsNumbered a → N a) {left : Source}
    (hleft : left.Within N) {j : ResolvedJoin} (hsource : N j.source.aliasName)
    (htarget : N j.target.aliasName) (hlinked : j.predicate = .linked none) {n : Nat} (hn : 0 < n) :
    (continued left j n).Within N := by
  have hequality : ∀ {l r : ColumnRef}, N l.aliasName → N r.aliasName →
      ∀ c ∈ (equality l r).columns, N c.aliasName := by
    intro l r hl hr c hc
    rw [columns_equality] at hc
    rcases List.mem_pair.mp hc with rfl | rfl
    · exact hl
    · exact hr
  unfold continued linkPredicate
  rw [hlinked]
  cases j.relationship.link with
  | owns key foreign => exact ⟨hleft, htarget, hequality hsource htarget⟩
  | refers foreign key => exact ⟨hleft, htarget, hequality htarget hsource⟩
  | through table sourceKey linkSource targetKey linkTarget =>
    have hlink : N (table ++ "_" ++ toString n) := hnumbered _ ⟨table, n, hn, rfl⟩
    dsimp only
    split
    · exact ⟨hleft, ⟨hlink, htarget, hequality htarget hlink⟩, hequality hsource hlink⟩
    · exact ⟨⟨hleft, hlink, hequality hsource hlink⟩, htarget, hequality htarget hlink⟩

theorem within_chain (hnumbered : ∀ a, Text.IsNumbered a → N a) {left : Source} {used : List String}
    (hleft : left.Within N) (hjs : ∀ j ∈ js, N j.source.aliasName ∧ N j.target.aliasName ∧
      j.predicate = .linked none) : (chain left used js).Within N := by
  induction js generalizing left used with
  | nil => exact hleft
  | cons j js ih =>
    obtain ⟨hsource, htarget, hlinked⟩ := hjs j List.mem_cons_self
    exact ih (within_continued hnumbered hleft hsource htarget hlinked (Nat.succ_pos _))
      fun i hi => hjs i (List.mem_cons_of_mem j hi)

theorem within_joined (hst : p.Staged s 0 js) (hlinked : ∀ j ∈ js, j.predicate = .linked none) :
    (p.joined js).Within p.InStatement := by
  refine within_chain (fun a ha => .inr ha) (.inl List.mem_cons_self) fun j hj => ?_
  obtain ⟨⟨k, -, hsource⟩, ⟨l, -, htarget⟩, -⟩ := occurrences_of_staged hst j hj
  exact ⟨.inl (mem_aliasNames hsource), .inl (mem_aliasNames htarget), hlinked j hj⟩

theorem within_conditions (hpredicates : ∀ q ∈ p.predicates, ∀ c ∈ q.columns,
      p.InStatement c.aliasName) :
    ∀ c ∈ Predicate.columnsOf p.conditions, p.InStatement c.aliasName := by
  intro c hc
  obtain ⟨q, hq, hc⟩ := Predicate.mem_columnsOf.mp hc
  rcases mem_conditions hq with hq | ⟨f, -, rfl⟩
  · exact hpredicates q hq c hc
  · rw [List.mem_singleton.mp hc]
    exact .inl List.mem_cons_self

end Plan
end EntityQuery
