import EntityQuery.Proofs.Names
import EntityQuery.Proofs.Session
/-!
Aliases that are taken over. Each join was added from what its source alias stood for at that time. A plan
whose statement can be drawn up has no join whose source alias has been taken over since, so its joins form
a chain that starts at the root, whether its aliases are distinct or not.
-/
namespace EntityQuery.Plan

variable {s : Schema} {p q : Plan}

/-- The last of some occurrences under an alias. -/
def lastNamed (a : String) (os : List Occurrence) : Option Occurrence :=
  (os.filter (·.aliasName == a)).getLast?

theorem lastNamed_cons (a : String) (o : Occurrence) (os : List Occurrence) :
    lastNamed a (o :: os) = (lastNamed a os).or (if o.aliasName = a then some o else none) := by
  unfold lastNamed
  by_cases h : o.aliasName = a
  · simp [h, List.getLast?_cons]
  · simp [h]

theorem lastNamed_append_singleton (a : String) (os : List Occurrence) (o : Occurrence) :
    lastNamed a (os ++ [o]) = if o.aliasName = a then some o else lastNamed a os := by
  unfold lastNamed
  by_cases h : o.aliasName = a <;> simp [h, List.filter_append]

theorem mem_of_lastNamed {a : String} {os : List Occurrence} {o : Occurrence}
    (h : lastNamed a os = some o) : o ∈ os ∧ o.aliasName = a := by
  have hmem := List.mem_of_getLast? h
  rw [List.mem_filter, beq_iff_eq] at hmem
  exact hmem

theorem lastNamed_eq_none_iff {a : String} {os : List Occurrence} :
    lastNamed a os = none ↔ ∀ o ∈ os, o.aliasName ≠ a := by
  simp [lastNamed]

/-- What stands before the join at a place. -/
def before (p : Plan) (place : Nat) : List Occurrence := p.occurrences.take (place + 1)

/-- Each join follows a relationship of what its source alias stood for before it. -/
def Followed (s : Schema) (p : Plan) : Prop :=
  ∀ i (j : JoinClause), p.joins[i]? = some j → ∃ o r, lastNamed j.sourceAlias (p.before i) = some o ∧
    o.entity.relationship? j.relation = some r ∧ s.entity? r.target = some j.target

theorem length_occurrences (p : Plan) : p.occurrences.length = p.joins.length + 1 := by
  simp [occurrences]

theorem followed_ofRoot (s : Schema) (root : Entity) : (ofRoot root).Followed s := fun i j hj => by
  simp [ofRoot] at hj

theorem followed_addRelation (hlast : p.NamesLast) (hp : p.Followed s) {key : String}
    {o : RelationOptions} (h : p.addRelation s key o = .ok q) : q.Followed s := by
  obtain ⟨target, condition, fields, ht, -, -, -, hq⟩ := addRelation_eq_ok h
  obtain ⟨source, r, hsource, hr, htarget⟩ := relationTarget_eq_ok ht
  have hjoins : q.joins = p.joins ++ [p.joinClause key o target condition fields] :=
    congrArg Plan.joins hq
  have hroot : q.root = p.root := by rw [hq]
  have hbefore : ∀ i ≤ p.joins.length, q.before i = p.before i := fun i hi => by
    unfold before
    rw [occurrences_append hroot hjoins, List.take_append_of_le_length]
    rw [length_occurrences]
    omega
  intro i j hj
  rw [hjoins] at hj
  rcases getElem?_append_singleton hj with hj | ⟨rfl, rfl⟩
  · have hi := (List.getElem?_eq_some_iff.mp hj).1
    rw [hbefore i (by omega)]
    exact hp i j hj
  · refine ⟨source, r, ?_, hr, htarget⟩
    rw [hbefore _ (Nat.le_refl _), before, List.take_of_length_le (Nat.le_of_eq p.length_occurrences)]
    exact (hlast _).symm.trans hsource

theorem followed_addRelations {relations : List (String × RelationOptions)} (hlast : p.NamesLast)
    (hp : p.Followed s) (h : p.addRelations s relations = (q, none)) : q.Followed s := by
  induction relations generalizing p with
  | nil =>
    cases h
    exact hp
  | cons e rest ih =>
    obtain ⟨next, hr, h⟩ := addRelations_cons_eq_ok.mp h
    exact ih (namesLast_addRelation hlast hr) (followed_addRelation hlast hp hr) h

theorem followed_build {operators : OperatorTable Operator} {root : Entity} {d : Descriptor}
    (h : (build s operators root d).plan = .ok p) : p.Followed s := by
  obtain ⟨first, joined, filtered, hs, hr, hf, rfl⟩ := build_eq_ok h
  obtain ⟨predicates, -, rfl⟩ := addParameters_eq_ok hf
  have hfirst : first.NamesLast ∧ first.Followed s := by
    rw [start_eq_ok hs]
    exact ⟨namesLast_ofRoot root, followed_ofRoot s root⟩
  have hjoined : joined.Followed s := followed_addRelations hfirst.1 hfirst.2 hr
  exact hjoined

theorem occurrence?_of_mem {o : Occurrence} (h : o ∈ p.occurrences) :
    p.occurrence? o.position = some o := by
  obtain ⟨k, hk⟩ := List.mem_iff_getElem?.mp h
  rw [getElem?_occurrences] at hk
  rw [occurrence?_position hk, hk]

/-- What the source alias of a join stands for in the end is part of the statement. -/
theorem occurrence?_source (hlast : p.NamesLast) (j : JoinClause) :
    p.occurrence? (p.source j).position = some (p.source j) := by
  unfold source
  cases hfind : p.names.find? j.sourceAlias with
  | none => rfl
  | some o => exact occurrence?_of_mem (mem_of_lastNamed ((hlast _).symm.trans hfind)).1

/-- The joins before a place, as occurrences. -/
def broughtBy (earlier : List JoinClause) : List Occurrence := earlier.mapIdx fun i j => j.occurrence i

theorem before_eq {earlier js : List JoinClause} (h : p.joins = earlier ++ js) :
    p.before earlier.length = rootOccurrence p.root :: broughtBy earlier := by
  unfold before occurrences broughtBy
  rw [h, List.take_succ_cons, List.mapIdx_append, List.take_left']
  simp

theorem mem_occurrences_of_brought {earlier js : List JoinClause} (h : p.joins = earlier ++ js)
    {o : Occurrence} (ho : o ∈ broughtBy earlier) : o ∈ p.occurrences := by
  refine List.mem_of_mem_take (i := earlier.length + 1) ?_
  rw [← before, before_eq h]
  exact List.mem_cons_of_mem _ ho

/-- A join whose load can be checked, and that does not start at what has replaced the root, starts at
what its source alias stood for before it. -/
theorem source_of_check (hlast : p.NamesLast) {loaded : OrderedMap Nat} {earlier js : List JoinClause}
    {j : JoinClause} (hjoins : p.joins = earlier ++ j :: js)
    (hloaded : ∀ a, loaded.find? a = (lastNamed a (broughtBy earlier)).map (·.position))
    (hcheck : p.checkLoads loaded earlier.length (j :: js) = .ok ())
    (hroot : p.startsAtReplacedRoot j earlier = false) :
    (∀ o, lastNamed j.sourceAlias (p.before earlier.length) = some o → p.source j = o) ∧
      p.checkLoads (loaded.insert j.aliasName (earlier.length + 1)) (earlier.length + 1) js = .ok () := by
  have hsame : ∀ {o}, p.occurrence? (p.source j).position = some o → p.source j = o :=
    fun ho => Option.some.inj ((occurrence?_source hlast j).symm.trans ho)
  rw [before_eq hjoins, lastNamed_cons]
  unfold checkLoads at hcheck
  rw [hloaded] at hcheck
  cases hfound : lastNamed j.sourceAlias (broughtBy earlier) with
  | none =>
    rw [hfound] at hcheck
    refine ⟨fun o ho => hsame ?_, hcheck⟩
    obtain rfl : rootOccurrence p.root = o := by
      rw [Option.none_or] at ho
      split at ho
      · exact Option.some.inj ho
      · cases ho
    -- nothing but the root has been under the alias so far, and the root has not been replaced
    have hfresh : (earlier.any fun e => e.aliasName == j.sourceAlias) = false := by
      rw [List.any_eq_false]
      intro e he hname
      obtain ⟨i, hi⟩ := List.mem_iff_getElem?.mp he
      refine lastNamed_eq_none_iff.mp hfound (e.occurrence i) ?_ (beq_iff_eq.mp hname)
      exact List.mem_iff_getElem?.mpr ⟨i, by simp [broughtBy, hi]⟩
    have hzero : (p.source j).position = 0 := by
      simpa [startsAtReplacedRoot, hfresh] using hroot
    rw [hzero]
    rfl
  | some o' =>
    rw [hfound] at hcheck
    dsimp only [Option.map_some] at hcheck
    split at hcheck
    · rename_i hposition
      refine ⟨fun o ho => hsame ?_, hcheck⟩
      obtain rfl : o' = o := Option.some.inj ho
      rw [hposition]
      exact occurrence?_of_mem (mem_occurrences_of_brought hjoins (mem_of_lastNamed hfound).1)
    · cases hcheck

/-- If the loads of all joins can be checked, and none starts at what has replaced the root, then the
source alias of each stands for the same in the end as before the join. -/
theorem source_of_checks (hlast : p.NamesLast) {loaded : OrderedMap Nat} {earlier js : List JoinClause}
    (hjoins : p.joins = earlier ++ js)
    (hloaded : ∀ a, loaded.find? a = (lastNamed a (broughtBy earlier)).map (·.position))
    (hchecks : p.checkLoads loaded earlier.length js = .ok ())
    (hroot : p.hasReplacedRoot earlier js = false) :
    ∀ i (j : JoinClause), js[i]? = some j → ∀ o,
      lastNamed j.sourceAlias (p.before (earlier.length + i)) = some o → p.source j = o := by
  induction js generalizing loaded earlier with
  | nil => exact fun i j hj => by simp at hj
  | cons j js ih =>
    rw [hasReplacedRoot, Bool.or_eq_false_iff] at hroot
    obtain ⟨hsource, hrest⟩ := source_of_check hlast hjoins hloaded hchecks hroot.1
    intro i k hk
    cases i with
    | zero =>
      obtain rfl : j = k := by simpa using hk
      exact hsource
    | succ i =>
      have hlength : (earlier ++ [j]).length = earlier.length + 1 := by simp
      have hbrought : broughtBy (earlier ++ [j]) = broughtBy earlier ++ [j.occurrence earlier.length] := by
        simp [broughtBy, List.mapIdx_append]
      have hinserted : ∀ a, (loaded.insert j.aliasName (earlier.length + 1)).find? a =
          (lastNamed a (broughtBy (earlier ++ [j]))).map (·.position) := fun a => by
        rw [hbrought, lastNamed_append_singleton]
        by_cases ha : j.aliasName = a
        · subst ha
          rw [OrderedMap.find?_insert_self]
          simp [JoinClause.occurrence]
        · rw [OrderedMap.find?_insert_of_ne _ _ (Ne.symm ha), hloaded]
          simp [JoinClause.occurrence, ha]
      have hnext := ih (by simpa using hjoins) hinserted (hlength ▸ hrest) hroot.2 i k (by simpa using hk)
      rw [hlength] at hnext
      rwa [show earlier.length + (i + 1) = earlier.length + 1 + i by omega]

/-- The joins of a plan whose statement can be drawn up start where they were added from. -/
theorem sourced_of_assemble {operators : OperatorTable Operator} {root : Entity} {d : Descriptor}
    (h : (build s operators root d).plan = .ok p) {o : Repository.Outline} (ho : p.outline = .ok o)
    {selection : Selection} (hsel : p.assemble o.1 o.2 = .ok selection) : p.Sourced s := by
  have hlast := namesLast_build h
  have hchecks : p.checkLoads .empty 0 p.joins = .ok () := by
    obtain ⟨joins, -, h⟩ := ok_of_bind ho
    obtain ⟨⟨⟩, hchecks, -⟩ := ok_of_bind h
    exact hchecks
  have hroot : p.hasReplacedRoot [] p.joins = false := by
    unfold assemble at hsel
    split at hsel
    · cases hsel
    · rename_i hroot
      simpa using hroot
  have hempty : ∀ a, (OrderedMap.empty : OrderedMap Nat).find? a =
      (lastNamed a (broughtBy [])).map (·.position) := fun a => by
    simp [OrderedMap.find?, lastNamed, broughtBy]
  have hsource := source_of_checks hlast rfl hempty hchecks hroot
  intro i j hj
  obtain ⟨o, r, hbefore, hr, htarget⟩ := followed_build h i j hj
  have hsame : p.source j = o := hsource i j hj o (by simpa using hbefore)
  rw [hsame]
  refine ⟨?_, r, hr, htarget⟩
  obtain ⟨k, hk⟩ := List.mem_iff_getElem?.mp (mem_of_lastNamed hbefore).1
  rw [before, List.getElem?_take] at hk
  split at hk
  · rw [getElem?_occurrences] at hk
    exact ⟨k, by omega, hk⟩
  · cases hk

/-- The joins of a plan whose statement can be drawn up form a chain. -/
theorem staged_of_assemble {operators : OperatorTable Operator} {root : Entity} {d : Descriptor}
    (h : (build s operators root d).plan = .ok p) {o : Repository.Outline} (ho : p.outline = .ok o)
    {selection : Selection} (hsel : p.assemble o.1 o.2 = .ok selection) : p.Staged s 0 o.1 :=
  ((sourced_of_assemble h ho hsel).resolveJoinsFrom List.drop_zero (Repository.outline_eq_ok ho).1).1

end EntityQuery.Plan
