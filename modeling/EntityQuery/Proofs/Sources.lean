import Mathlib.Data.List.Forall2
import EntityQuery.Plan.Statement
import EntityQuery.Execution.Evaluate
import EntityQuery.Proofs.Layout
/-!
The sources of the statements of a plan. With distinct aliases the joins form one chain that starts
at the root, both in the selection of entities and in the selection of keys, so the two run over the
same joined rows. A joined row extends a row of the root by what each join adds to it in turn.
-/
namespace EntityQuery

namespace Plan

/-- Joins that have been followed to occurrences of a plan: each starts at or before its place and
brings the entity at the next one, by a relationship of its source. -/
def Staged (s : Schema) (p : Plan) : Nat → List ResolvedJoin → Prop
  | _, [] => True
  | place, j :: js =>
    (∃ k ≤ place, p.occurrence? k = some j.source) ∧ p.occurrence? (place + 1) = some j.target ∧
      j.source.entity.relationship? j.relationship.name = some j.relationship ∧
      s.entity? j.relationship.target = some j.target.entity ∧ Staged s p (place + 1) js

theorem occurrence?_position {p : Plan} {k : Nat} {o : Occurrence}
    (h : p.occurrence? k = some o) : o.position = k := by
  cases k with
  | zero =>
    cases h
    rfl
  | succ k =>
    obtain ⟨j, -, rfl⟩ := Option.map_eq_some_iff.mp h
    rfl

theorem occurrence?_name {s : Schema} {p : Plan} (hp : p.Layout s) {k : Nat} {o : Occurrence}
    (h : p.occurrence? k = some o) : p.names.find? o.aliasName = some o := by
  cases k with
  | zero =>
    cases h
    exact hp.root_name
  | succ k =>
    obtain ⟨j, hj, rfl⟩ := Option.map_eq_some_iff.mp h
    exact hp.join_name k j hj

theorem relationship?_name {e : Entity} {name : String} {r : Relationship}
    (h : e.relationship? name = some r) : r.name = name := by
  simpa using List.find?_some h

/-- Each join starts at or before its place, at what its source alias stands for in the end, and brings
the target of a relationship of that. -/
def Sourced (s : Schema) (p : Plan) : Prop :=
  ∀ i (j : JoinClause), p.joins[i]? = some j →
    (∃ k ≤ i, p.occurrence? k = some (p.source j)) ∧
      ∃ r, (p.source j).entity.relationship? j.relation = some r ∧ s.entity? r.target = some j.target

theorem Layout.sourced {s : Schema} {p : Plan} (hp : p.Layout s) : p.Sourced s := by
  intro i j hj
  obtain ⟨k, hk, o, rel, ho, hoa, hrel, ht⟩ := hp.source i j hj
  have hsource : p.source j = o := by
    unfold Plan.source
    rw [← hoa, occurrence?_name hp ho]
    rfl
  rw [hsource]
  exact ⟨⟨k, hk, ho⟩, rel, hrel, ht⟩

/-- What a join is followed to. -/
theorem Sourced.resolveJoin {s : Schema} {p : Plan} (hp : p.Sourced s) {i : Nat} {j : JoinClause}
    {r : ResolvedJoin} (hj : p.joins[i]? = some j) (h : p.resolveJoin i j = .ok r) :
    (∃ k ≤ i, p.occurrence? k = some r.source) ∧ r.target = j.occurrence i ∧
      r.source.entity.relationship? r.relationship.name = some r.relationship ∧
      s.entity? r.relationship.target = some j.target ∧ r.relationship.name = j.relation ∧
      j.predicate = .ok r.predicate ∧ r.outer = decide (j.joinType = .left) ∧
      r.fields = j.fields := by
  obtain ⟨⟨k, hk, ho⟩, rel, hrel, ht⟩ := hp i j hj
  have hrelationship : p.relationship j = .ok rel := by
    simp only [Plan.relationship, hrel]
  unfold Plan.resolveJoin at h
  rw [hrelationship] at h
  cases hpred : j.predicate with
  | error e =>
    simp only [bind, Except.bind, hpred] at h
    cases h
  | ok predicate =>
    simp only [bind, Except.bind, hpred, Except.ok.injEq] at h
    subst h
    have hname := relationship?_name hrel
    exact ⟨⟨k, hk, ho⟩, rfl, by rw [hname]; exact hrel, ht, hname, rfl, rfl, rfl⟩

/-- How a join and what it is followed to belong together. -/
def Follows (j : JoinClause) (r : ResolvedJoin) : Prop :=
  r.target.aliasName = j.aliasName ∧ r.relationship.name = j.relation ∧
    j.predicate = .ok r.predicate ∧ r.outer = decide (j.joinType = .left) ∧ r.fields = j.fields

theorem Sourced.resolveJoinsFrom {s : Schema} {p : Plan} (hp : p.Sourced s) {place : Nat}
    {js : List JoinClause} {rs : List ResolvedJoin} (hjs : p.joins.drop place = js)
    (h : p.resolveJoinsFrom place js = .ok rs) :
    Staged s p place rs ∧ List.Forall₂ Follows js rs := by
  induction js generalizing place rs with
  | nil =>
    cases h
    exact ⟨trivial, .nil⟩
  | cons j js ih =>
    have hj : p.joins[place]? = some j := by
      rw [← List.head?_drop, hjs]
      rfl
    unfold Plan.resolveJoinsFrom at h
    cases hr : p.resolveJoin place j with
    | error e =>
      rw [hr] at h
      cases h
    | ok r =>
      cases hrest : p.resolveJoinsFrom (place + 1) js with
      | error e =>
        simp only [bind, Except.bind, hr, hrest] at h
        cases h
      | ok rest =>
        simp only [bind, Except.bind, hr, hrest, Except.ok.injEq] at h
        subst h
        have hdrop : p.joins.drop (place + 1) = js := by
          rw [← List.drop_drop, hjs]
          rfl
        obtain ⟨hs, hf⟩ := ih hdrop hrest
        obtain ⟨h1, h2, h3, h4, h5, h6, h7, h8⟩ := hp.resolveJoin hj hr
        refine ⟨⟨h1, ?_, h3, ?_, hs⟩, .cons ⟨?_, h5, h6, h7, h8⟩ hf⟩
        · simp [occurrence?, hj, h2]
        · rw [h4, h2]
          rfl
        · exact congrArg Occurrence.aliasName h2

theorem resolveJoins_eq_ok {s : Schema} {p : Plan} (hp : p.Layout s) {rs : List ResolvedJoin}
    (h : p.resolveJoins = .ok rs) : Staged s p 0 rs ∧ List.Forall₂ Follows p.joins rs :=
  hp.sourced.resolveJoinsFrom List.drop_zero h

/-- Each join of a plan is the one that an entry of the relations asks for. -/
theorem exists_asked {root : Entity} {entries : List (String × RelationOptions)}
    {clauses : List JoinClause} {js : List ResolvedJoin}
    (hasked : List.Forall₂ (Asked root) entries clauses)
    (hfollows : List.Forall₂ Follows clauses js) :
    ∀ j ∈ js, ∃ e ∈ entries, ∃ c, Asked root e c ∧ Follows c j := by
  induction hasked generalizing js with
  | nil =>
    cases hfollows
    exact fun _ h => absurd h List.not_mem_nil
  | @cons e c entries clauses hc _ ih =>
    cases hfollows with
    | @cons _ j _ rest hj hrest =>
      intro i hi
      rcases List.mem_cons.mp hi with rfl | hi
      · exact ⟨e, List.mem_cons_self, c, hc, hj⟩
      · obtain ⟨e', he', hi⟩ := ih hrest i hi
        exact ⟨e', List.mem_cons_of_mem e he', hi⟩

/-- The number of the link table of a join beside those used before. -/
def linkNumber (used : List String) (j : ResolvedJoin) : Nat :=
  used.countP (j.linkTable?.toList.contains ·) + 1

/-- The link tables used once a join is there. -/
def usedAfter (used : List String) (j : ResolvedJoin) : List String := used ++ j.linkTable?.toList

/-- A source continued by all joins in order. -/
def chain (left : Source) (used : List String) : List ResolvedJoin → Source
  | [] => left
  | j :: js => chain (continued left j (linkNumber used j)) (usedAfter used j) js

theorem owners_continued {left : Source} {j : ResolvedJoin} {n : Nat} {owner : Owner}
    (h : owner ∈ left.owners ∨ owner = .entity j.target.position) :
    owner ∈ (continued left j n).owners := by
  unfold continued
  split
  · rcases h with h | rfl
    · simp_all [Source.owners, Source.tables, Occurrence.source]
    · simp [Source.owners, Source.tables, Occurrence.source]
  · split
    · rcases h with h | rfl
      · simp_all [Source.owners, Source.tables, Occurrence.source]
      · simp [Source.owners, Source.tables, Occurrence.source]
    · dsimp only
      split
      · rcases h with h | rfl
        · simp_all [Source.owners, Source.tables, Occurrence.source]
        · simp [Source.owners, Source.tables, Occurrence.source]
      · rcases h with h | rfl
        · simp_all [Source.owners, Source.tables, Occurrence.source]
        · simp [Source.owners, Source.tables, Occurrence.source]

theorem continueAt_singleton {owner : Owner} {left : Source} (f : Source → Source)
    (h : owner ∈ left.owners) : continueAt owner f [left] = some [f left] := by
  simp [continueAt, h]

/-- A join of a plan continues the one source that is there. -/
theorem addJoin_singleton {s : Schema} {p : Plan} {place n : Nat} {left : Source}
    {j : ResolvedJoin} {js : List ResolvedJoin} (root : Occurrence)
    (hs : Staged s p place (j :: js)) (hl : ∀ k ≤ place, Owner.entity k ∈ left.owners) :
    addJoin root [left] n j = .ok [continued left j n] := by
  obtain ⟨⟨k, hk, hsource⟩, htarget, -⟩ := hs
  unfold addJoin
  dsimp only
  split
  · rename_i q hq
    simp [candidateSources]
  · have h1 := occurrence?_position hsource
    have h2 := occurrence?_position htarget
    rw [if_neg (by omega), continueAt_singleton _ (hl _ (by omega))]
    rfl

/-- The first join brings the root in as its left side. -/
theorem addJoin_nil {s : Schema} {p : Plan} {n : Nat} {j : ResolvedJoin} {js : List ResolvedJoin}
    (hs : Staged s p 0 (j :: js)) :
    addJoin (rootOccurrence p.root) [] n j =
      .ok [continued (rootOccurrence p.root).source j n] := by
  obtain ⟨⟨k, hk, hsource⟩, htarget, -⟩ := hs
  have hk0 : k = 0 := by omega
  subst hk0
  have hroot : j.source = rootOccurrence p.root := (Option.some.inj hsource).symm
  unfold addJoin
  dsimp only
  split
  · simp
  · have h2 := occurrence?_position htarget
    have h1 : j.source.position = 0 := by
      rw [hroot]
      rfl
    rw [if_neg (by omega), hroot]
    rfl

theorem owners_step {s : Schema} {p : Plan} {place n : Nat} {left : Source} {j : ResolvedJoin}
    {js : List ResolvedJoin} (hs : Staged s p place (j :: js))
    (hl : ∀ k ≤ place, Owner.entity k ∈ left.owners) :
    ∀ k ≤ place + 1, Owner.entity k ∈ (continued left j n).owners := fun k hk => by
  have ht := occurrence?_position hs.2.1
  apply owners_continued
  rcases Nat.lt_or_ge place k with h | h
  · right
    rw [ht]
    congr
    omega
  · exact .inl (hl k h)

theorem addJoins_singleton {s : Schema} {p : Plan} {place : Nat} {left : Source}
    {used : List String} {js : List ResolvedJoin} (root : Occurrence) (hs : Staged s p place js)
    (hl : ∀ k ≤ place, Owner.entity k ∈ left.owners) :
    addJoins root [left] used js = .ok [chain left used js] := by
  induction js generalizing place left used with
  | nil => rfl
  | cons j js ih =>
    unfold addJoins
    simp only [addJoin_singleton root hs hl, bind, Except.bind]
    exact ih hs.2.2.2.2 (owners_step hs hl)

theorem owners_chain {left : Source} {used : List String} {js : List ResolvedJoin} {owner : Owner}
    (h : owner ∈ left.owners) : owner ∈ (chain left used js).owners := by
  induction js generalizing left used with
  | nil => exact h
  | cons j js ih => exact ih (owners_continued (.inl h))

theorem owners_root (p : Plan) :
    ∀ k ≤ 0, Owner.entity k ∈ (rootOccurrence p.root).source.owners := fun k hk => by
  have : k = 0 := by omega
  subst this
  simp [Source.owners, Source.tables, Occurrence.source, rootOccurrence]

/-- The joins of a plan start from its root, be it a source of its own yet or not. -/
theorem addJoins_nil {s : Schema} {p : Plan} {js : List ResolvedJoin} (hs : Staged s p 0 js) :
    ∃ sources, addJoins (rootOccurrence p.root) [] [] js = .ok sources ∧
      withRoot (rootOccurrence p.root) sources = [chain (rootOccurrence p.root).source [] js] := by
  cases js with
  | nil => exact ⟨[], rfl, rfl⟩
  | cons j js =>
    refine ⟨[chain (rootOccurrence p.root).source [] (j :: js)], ?_, ?_⟩
    · unfold addJoins
      simp only [addJoin_nil hs, bind, Except.bind]
      exact addJoins_singleton _ hs.2.2.2.2 (owners_step hs (owners_root p))
    · unfold withRoot
      have : Owner.entity 0 ∈ (chain (rootOccurrence p.root).source [] (j :: js)).owners :=
        owners_chain (owners_root p 0 (Nat.le_refl 0))
      simp [rootOccurrence] at this ⊢
      exact this

/-- The sources of both statements of a plan. -/
def joined (p : Plan) (js : List ResolvedJoin) : Source :=
  chain (rootOccurrence p.root).source [] js

/-- The selection of entities is drawn up over the chain of joins. -/
theorem assemble_eq_ok {s : Schema} {p : Plan} {js : List ResolvedJoin}
    {order : List (ColumnRef × Direction)} {selection : Selection} (hs : Staged s p 0 js)
    (h : p.assemble js order = .ok selection) :
    selection = ⟨{ columns := (p.loadTree js).columns, sources := [p.joined js],
                   conditions := p.conditions, order := order, limit := p.limit,
                   offset := p.offset }, p.loadTree js⟩ := by
  obtain ⟨sources, hsources, hroot⟩ := addJoins_nil hs
  unfold assemble at h
  split at h
  · cases h
  · simp only [hsources, bind, Except.bind] at h
    split at h
    · cases h
    · cases h
      rw [hroot]
      rfl

/-- The selection of keys is drawn up over the same chain. -/
theorem assembleKeys_eq_ok {s : Schema} {p : Plan} {js : List ResolvedJoin} {keys : Select}
    (hs : Staged s p 0 js) (h : p.assembleKeys js = .ok keys) :
    keys = { columns := p.root.keyColumns.map fun c => ⟨.entity 0, p.rootAlias, c⟩,
             sources := [p.joined js], conditions := p.conditions } := by
  unfold assembleKeys at h
  simp only [addJoins_singleton _ hs (owners_root p), bind, Except.bind] at h
  cases h
  rfl

theorem conditions_keySelection {p : Plan} {keys : Select} (h : p.keySelection = .ok keys) :
    keys.conditions = p.conditions := by
  obtain ⟨js, -, h⟩ := ok_of_bind h
  obtain ⟨sources, -, h⟩ := ok_of_bind h
  cases h
  rfl

/-- Conditions, order and bounds of a selection are those of the plan. -/
theorem frame_assemble {p : Plan} {js : List ResolvedJoin} {order : List (ColumnRef × Direction)}
    {selection : Selection} (h : p.assemble js order = .ok selection) :
    selection.select.conditions = p.conditions ∧ selection.select.order = order ∧
      selection.select.limit = p.limit ∧ selection.select.offset = p.offset := by
  unfold assemble at h
  dsimp only at h
  split at h
  · cases h
  · cases hsources : addJoins (rootOccurrence p.root) [] [] js with
    | error e =>
      rw [hsources] at h
      cases h
    | ok sources =>
      simp only [hsources, bind, Except.bind] at h
      split at h
      · cases h
      · cases h
        exact ⟨rfl, rfl, rfl, rfl⟩

/-! ### Plans with the same joins -/

/-- A plan has the root, the projection, the names and the joins of another one. Their conditions, orders
and bounds may be different. -/
structure JoinsAs (q p : Plan) : Prop where
  root : q.root = p.root
  fields : q.fields = p.fields
  names : q.names = p.names
  joins : q.joins = p.joins

namespace JoinsAs

variable {p q : Plan} (h : q.JoinsAs p)

include h

theorem occurrence? (k : Nat) : q.occurrence? k = p.occurrence? k := by
  cases k with
  | zero => exact congrArg (fun root => some (rootOccurrence root)) h.root
  | succ k => exact congrArg (fun js => js[k]?.map (·.occurrence k)) h.joins

theorem source (j : JoinClause) : q.source j = p.source j := by
  unfold Plan.source
  rw [h.names, h.root]

theorem resolveJoins : q.resolveJoins = p.resolveJoins := by
  have hfrom : ∀ (js : List JoinClause) place,
      q.resolveJoinsFrom place js = p.resolveJoinsFrom place js := by
    intro js
    induction js with
    | nil => exact fun _ => rfl
    | cons j js ih =>
      intro place
      unfold resolveJoinsFrom resolveJoin relationship
      rw [h.source, ih]
  unfold Plan.resolveJoins
  rw [h.joins, hfrom]

theorem checkLoads (loaded : OrderedMap Nat) (place : Nat) (js : List JoinClause) :
    q.checkLoads loaded place js = p.checkLoads loaded place js := by
  induction js generalizing loaded place with
  | nil => rfl
  | cons j js ih =>
    unfold Plan.checkLoads
    rw [h.source]
    simp only [ih]

theorem orderColumns (horder : q.orderBy = p.orderBy) : q.orderColumns = p.orderColumns := by
  have hcolumn : q.orderColumn = p.orderColumn := by
    funext c
    unfold orderColumn
    rw [h.names, h.root]
  unfold Plan.orderColumns
  rw [horder, hcolumn]

theorem outline (horder : q.orderBy = p.orderBy) : q.outline = p.outline := by
  unfold Plan.outline
  rw [h.resolveJoins, h.joins, h.checkLoads, h.orderColumns horder]

theorem hasReplacedRoot (earlier js : List JoinClause) :
    q.hasReplacedRoot earlier js = p.hasReplacedRoot earlier js := by
  induction js generalizing earlier with
  | nil => rfl
  | cons j js ih =>
    unfold Plan.hasReplacedRoot startsAtReplacedRoot
    rw [h.source, ih]

theorem staged {s : Schema} {place : Nat} {js : List ResolvedJoin} (hst : Staged s p place js) :
    Staged s q place js := by
  induction js generalizing place with
  | nil => trivial
  | cons j js ih =>
    unfold Staged at hst ⊢
    simp only [h.occurrence?]
    exact ⟨hst.1, hst.2.1, hst.2.2.1, hst.2.2.2.1, ih hst.2.2.2.2⟩

theorem loadTree (js : List ResolvedJoin) : q.loadTree js = p.loadTree js := by
  unfold Plan.loadTree
  rw [h.root, h.fields]

theorem joined (js : List ResolvedJoin) : q.joined js = p.joined js := by
  unfold Plan.joined
  rw [h.root]

/-- The selections of both plans are the same but for conditions and bounds. -/
theorem assemble (js : List ResolvedJoin) (order : List (ColumnRef × Direction)) :
    q.assemble js order = (p.assemble js order).map fun selection =>
      ⟨{ selection.select with
          conditions := q.conditions, limit := q.limit, offset := q.offset }, selection.tree⟩ := by
  unfold Plan.assemble
  dsimp only
  rw [h.joins, h.hasReplacedRoot, h.root, h.loadTree]
  split
  · rfl
  · cases addJoins (rootOccurrence p.root) [] [] js with
    | error e => rfl
    | ok sources =>
      simp only [bind, Except.bind]
      by_cases hpath : hasRepeatedPath js = true
      · rw [if_pos hpath, if_pos hpath]
        rfl
      · rw [if_neg hpath, if_neg hpath]
        rfl

/-- So are the selections of the keys of the root. -/
theorem keySelection : q.keySelection = p.keySelection.map fun keys =>
    { keys with conditions := q.conditions } := by
  unfold Plan.keySelection assembleKeys
  rw [h.resolveJoins, h.root]
  cases p.resolveJoins with
  | error e => rfl
  | ok js =>
    simp only [bind, Except.bind]
    cases addJoins (rootOccurrence p.root) [(rootOccurrence p.root).source] [] js <;> rfl

theorem collectionIndex : q.collectionIndex = p.collectionIndex := by
  unfold Plan.collectionIndex rootAlias
  rw [h.root, h.joins]

end JoinsAs

end Plan
end EntityQuery
