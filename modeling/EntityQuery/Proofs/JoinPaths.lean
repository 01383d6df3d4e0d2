import Mathlib.Data.List.Induction
import EntityQuery.Proofs.Compilation
/-!
Paths of joins. The joins of a plan have the relationships that lead to them from the root as their
paths: the path of the source, and the relation. Where no two joins load the same relationship of one
source, a path tells its join.
-/
namespace EntityQuery
namespace Plan

/-- The joins of a plan with their paths. -/
def joinedPaths (p : Plan) : List (JoinClause × RelationPath) :=
  joinPaths (OrderedMap.empty.insert p.rootAlias []) p.joins

/-- The path of an occurrence, by its position. -/
def pathAt? (p : Plan) : Nat → Option RelationPath
  | 0 => some []
  | place + 1 => p.joinedPaths[place]?.map Prod.snd

/-- The fields that are loaded at a path: those of the root, or of the join with this path. -/
def LoadsAt (p : Plan) (path : RelationPath) (field : String) : Prop :=
  (path = [] ∧ field ∈ (LoadTree.loadedColumns p.root p.fields).map (·.field)) ∨
    ∃ jp ∈ p.joinedPaths, jp.2 = path ∧
      field ∈ (LoadTree.loadedColumns jp.1.target jp.1.fields).map (·.field)

variable {s : Schema} {p : Plan} {js : List ResolvedJoin}

theorem length_joinPaths (paths : OrderedMap RelationPath) (clauses : List JoinClause) :
    (joinPaths paths clauses).length = clauses.length := by
  induction clauses generalizing paths with
  | nil => rfl
  | cons j clauses ih => simp [joinPaths, ih]

/-- The paths that are known where the join at a place comes: those of all occurrences before it. -/
def KnowsPaths (p : Plan) (place : Nat) (paths : OrderedMap RelationPath) : Prop :=
  ∀ k ≤ place, ∀ o, p.occurrence? k = some o →
    ∃ path, p.pathAt? k = some path ∧ paths.find? o.aliasName = some path

theorem knowsPaths_root (p : Plan) :
    p.KnowsPaths 0 (OrderedMap.empty.insert p.rootAlias []) := by
  intro k hk o ho
  obtain rfl := Nat.le_zero.mp hk
  cases ho
  exact ⟨[], rfl, OrderedMap.find?_insert_self _ _ _⟩

theorem KnowsPaths.next (hp : p.Layout s) {place : Nat} {paths : OrderedMap RelationPath}
    (h : p.KnowsPaths place paths) {j : JoinClause} (hj : p.joins[place]? = some j)
    {path : RelationPath} (hpath : p.joinedPaths[place]? = some (j, path)) :
    p.KnowsPaths (place + 1) (paths.insert j.aliasName path) := by
  intro k hk o ho
  rcases Nat.eq_or_lt_of_le hk with rfl | hlt
  · obtain ⟨j', hj', rfl⟩ := Option.map_eq_some_iff.mp ho
    cases hj.symm.trans hj'
    exact ⟨_, by rw [pathAt?, hpath]; rfl, OrderedMap.find?_insert_self _ _ _⟩
  · have hne : o.aliasName ≠ j.aliasName := fun hsame => by
      have hname := occurrence?_name hp ho
      rw [hsame, hp.join_name place j hj] at hname
      have hposition := occurrence?_position ho
      rw [← Option.some.inj hname] at hposition
      change place + 1 = k at hposition
      omega
    rw [OrderedMap.find?_insert_of_ne _ _ hne]
    exact h k (by omega) o ho

/-- The paths of the joins from a place on, where those before it are known. -/
theorem KnowsPaths.path_of_join (hp : p.Layout s) {place : Nat} {clauses : List JoinClause}
    {paths : OrderedMap RelationPath} (hclauses : p.joins.drop place = clauses)
    (hindexed : p.joinedPaths.drop place = joinPaths paths clauses) (h : p.KnowsPaths place paths)
    {i : Nat} (hi : place ≤ i) {j : JoinClause} (hj : p.joins[i]? = some j) :
    ∃ k ≤ i, ∃ o path, p.occurrence? k = some o ∧ o.aliasName = j.sourceAlias ∧
      p.pathAt? k = some path ∧ p.joinedPaths[i]? = some (j, path ++ [j.relation]) := by
  induction clauses generalizing place paths with
  | nil =>
    have hlt := (List.getElem?_eq_some_iff.mp hj).1
    have hle := List.drop_eq_nil_iff.mp hclauses
    omega
  | cons c clauses ih =>
    obtain ⟨hc, hrest⟩ := drop_eq_cons hclauses
    obtain ⟨hat, hothers⟩ := drop_eq_cons hindexed
    obtain ⟨k, hk, o, r, ho, hname, -⟩ := hp.source place c hc
    obtain ⟨path, hpath, hfind⟩ := h k hk o ho
    rw [hname] at hfind
    rw [hfind] at hat hothers
    rcases Nat.eq_or_lt_of_le hi with rfl | hlt
    · cases hc.symm.trans hj
      exact ⟨k, hk, o, path, ho, hname, hpath, hat⟩
    · exact ih hrest hothers (h.next hp hc hat) hlt

/-- The path of a join is that of its source, and its relation. -/
theorem path_of_join (hp : p.Layout s) {i : Nat} {j : JoinClause} (hj : p.joins[i]? = some j) :
    ∃ k ≤ i, ∃ o path, p.occurrence? k = some o ∧ o.aliasName = j.sourceAlias ∧
      p.pathAt? k = some path ∧ p.joinedPaths[i]? = some (j, path ++ [j.relation]) :=
  (knowsPaths_root p).path_of_join hp List.drop_zero List.drop_zero (Nat.zero_le i) hj

theorem resolveJoin_of_resolveJoinsFrom {place : Nat} {clauses : List JoinClause}
    (h : p.resolveJoinsFrom place clauses = .ok js) {i : Nat} {j : ResolvedJoin}
    (hj : js[i]? = some j) : ∃ c, clauses[i]? = some c ∧ p.resolveJoin (place + i) c = .ok j := by
  induction clauses generalizing place js i with
  | nil =>
    cases h
    cases hj
  | cons c clauses ih =>
    unfold resolveJoinsFrom at h
    obtain ⟨first, hfirst, h⟩ := ok_of_bind h
    obtain ⟨rest, hrest, h⟩ := ok_of_bind h
    cases h
    cases i with
    | zero =>
      cases hj
      exact ⟨c, rfl, hfirst⟩
    | succ i =>
      obtain ⟨e, he, hresolved⟩ := ih hrest hj
      exact ⟨e, he, by rw [← hresolved]; congr 1; omega⟩

/-- The clause of a resolved join, by the position of its target. -/
theorem clause_of_join (hp : p.Layout s) (hjoins : p.resolveJoins = .ok js) {j : ResolvedJoin}
    (hj : j ∈ js) : ∃ i c, p.joins[i]? = some c ∧ j.source = p.source c ∧ j.target = c.occurrence i ∧
      j.relationship.name = c.relation ∧ j.fields = c.fields := by
  obtain ⟨i, hi⟩ := List.mem_iff_getElem?.mp hj
  obtain ⟨c, hc, hresolved⟩ := resolveJoin_of_resolveJoinsFrom hjoins hi
  rw [Nat.zero_add] at hresolved
  have hsource : j.source = p.source c := by
    unfold resolveJoin at hresolved
    obtain ⟨r, -, hresolved⟩ := ok_of_bind hresolved
    obtain ⟨predicate, -, hresolved⟩ := ok_of_bind hresolved
    cases hresolved
    rfl
  obtain ⟨-, htarget, -, -, hname, -, -, hfields⟩ := hp.sourced.resolveJoin hc hresolved
  exact ⟨i, c, hc, hsource, htarget, hname, hfields⟩

/-- The path of a resolved join. -/
theorem path_of_resolved (hp : p.Layout s) (hjoins : p.resolveJoins = .ok js) {j : ResolvedJoin}
    (hj : j ∈ js) : ∃ path, p.pathAt? j.source.position = some path ∧
      p.pathAt? j.target.position = some (path ++ [j.relationship.name]) := by
  obtain ⟨i, c, hc, hsource, htarget, hname, -⟩ := clause_of_join hp hjoins hj
  obtain ⟨k, -, o, path, ho, hoc, hpath, hindexed⟩ := path_of_join hp hc
  refine ⟨path, ?_, ?_⟩
  · rw [hsource, source_eq hp ho hoc, occurrence?_position ho, hpath]
  · rw [htarget, JoinClause.occurrence, pathAt?, hindexed, hname]
    rfl

/-- Only an occurrence behind the root has a path with a last step. -/
theorem joinedPath_of_pathAt? {k : Nat} {path : RelationPath} {name : String}
    (h : p.pathAt? k = some (path ++ [name])) :
    ∃ i jp, k = i + 1 ∧ p.joinedPaths[i]? = some jp ∧ jp.2 = path ++ [name] := by
  cases k with
  | zero => simp [pathAt?] at h
  | succ i =>
    obtain ⟨jp, hjp, hpath⟩ := Option.map_eq_some_iff.mp h
    exact ⟨i, jp, rfl, hjp, hpath⟩

theorem exists_joinedPath {k : Nat} {path : RelationPath} {name : String}
    (h : p.pathAt? k = some (path ++ [name])) : ∃ jp ∈ p.joinedPaths, jp.2 = path ++ [name] := by
  obtain ⟨i, jp, -, hjp, hpath⟩ := joinedPath_of_pathAt? h
  exact ⟨jp, List.mem_of_getElem? hjp, hpath⟩

/-- The join whose target has a path, and the path of its source. -/
theorem join_of_joinedPath (hp : p.Layout s) {i : Nat} {jp : JoinClause × RelationPath}
    (h : p.joinedPaths[i]? = some jp) : p.joins[i]? = some jp.1 ∧
      ∃ k o path, p.occurrence? k = some o ∧ o.aliasName = jp.1.sourceAlias ∧
        p.pathAt? k = some path ∧ jp.2 = path ++ [jp.1.relation] := by
  have hlength : p.joinedPaths.length = p.joins.length := length_joinPaths _ _
  obtain ⟨hlt, -⟩ := List.getElem?_eq_some_iff.mp h
  have hj := List.getElem?_eq_getElem (hlength ▸ hlt)
  obtain ⟨k, -, o, path, ho, hname, hpath, hindexed⟩ := path_of_join hp hj
  cases h.symm.trans hindexed
  exact ⟨hj, k, o, path, ho, hname, hpath, rfl⟩

theorem eq_zero_of_pathAt?_nil (hp : p.Layout s) {k : Nat} (h : p.pathAt? k = some []) : k = 0 := by
  cases k with
  | zero => rfl
  | succ i =>
    obtain ⟨jp, hjp, hpath⟩ := Option.map_eq_some_iff.mp h
    obtain ⟨-, -, -, path, -, -, -, hlast⟩ := join_of_joinedPath hp hjp
    rw [hpath] at hlast
    simp at hlast

/-- Where joins load apart, a path tells its occurrence. -/
theorem pathAt?_inj (hp : p.Layout s) (hapart : p.LoadsApart) {k n : Nat} {path : RelationPath}
    (hk : p.pathAt? k = some path) (hn : p.pathAt? n = some path) : k = n := by
  -- the sources of two joins with one path have one path as well, so they are the same
  induction path using List.reverseRecOn generalizing k n with
  | nil => rw [eq_zero_of_pathAt?_nil hp hk, eq_zero_of_pathAt?_nil hp hn]
  | append_singleton path name ih =>
    obtain ⟨i, ⟨c, last⟩, rfl, hi, rfl⟩ := joinedPath_of_pathAt? hk
    obtain ⟨i', ⟨c', last'⟩, rfl, hi', rfl⟩ := joinedPath_of_pathAt? hn
    obtain ⟨hc, m, o, source, ho, hname, hsource, hpath⟩ := join_of_joinedPath hp hi
    obtain ⟨hc', m', o', source', ho', hname', hsource', hpath'⟩ := join_of_joinedPath hp hi'
    obtain ⟨rfl, hrelation⟩ := List.append_inj' hpath rfl
    obtain ⟨rfl, hrelation'⟩ := List.append_inj' hpath' rfl
    obtain rfl := ih hsource hsource'
    cases ho.symm.trans ho'
    have hkey : (fun j : JoinClause => (j.sourceAlias, j.relation)) c =
        (fun j : JoinClause => (j.sourceAlias, j.relation)) c' := by
      simp only [Prod.mk.injEq]
      exact ⟨hname.symm.trans hname', by simpa using hrelation.symm.trans hrelation'⟩
    obtain rfl : c = c' := List.inj_on_of_nodup_map hapart (List.mem_of_getElem? hc)
      (List.mem_of_getElem? hc') hkey
    have hnodup : p.joins.Nodup := .of_map _ hapart
    obtain ⟨hlt, hat⟩ := List.getElem?_eq_some_iff.mp hc
    obtain ⟨hlt', hat'⟩ := List.getElem?_eq_some_iff.mp hc'
    rw [(List.Nodup.getElem_inj_iff hnodup).mp (hat.trans hat'.symm)]

theorem mem_insertPath {path : RelationPath} {field : String} {index : List (RelationPath × String)}
    {e : RelationPath × String} (he : e ∈ insertPath path field index) :
    e = (path, field) ∨ e ∈ index := by
  induction index with
  | nil => exact .inl (List.mem_singleton.mp he)
  | cons q index ih =>
    unfold insertPath at he
    split at he
    · rename_i hq
      rw [hq] at he
      exact (List.mem_cons.mp he).imp_right (List.mem_cons_of_mem q)
    · rcases List.mem_cons.mp he with rfl | he
      · exact .inr List.mem_cons_self
      · exact (ih he).imp_right (List.mem_cons_of_mem q)

/-- A collection is keyed by a field of a join with its path. -/
theorem exists_keyedJoin {path : RelationPath} {field : String}
    (h : p.collectionIndex.lookup path = some field) :
    ∃ jp ∈ p.joinedPaths, jp.2 = path ∧ jp.1.indexField? = some field := by
  have hfold : ∀ {indexed : List (JoinClause × RelationPath)} {index : List (RelationPath × String)},
      (path, field) ∈ indexed.foldl withIndex index →
      (path, field) ∈ index ∨ ∃ jp ∈ indexed, jp.2 = path ∧ jp.1.indexField? = some field := by
    intro indexed
    induction indexed with
    | nil => exact .inl
    | cons jp indexed ih =>
      intro index h
      rw [List.foldl_cons] at h
      rcases ih h with h | ⟨q, hq, hsame⟩
      · unfold withIndex at h
        split at h
        · rename_i f hf
          rcases mem_insertPath h with h | h
          · cases h
            exact .inr ⟨jp, List.mem_cons_self, rfl, hf⟩
          · exact .inl h
        · exact .inl h
      · exact .inr ⟨q, List.mem_cons_of_mem jp hq, hsame⟩
  obtain ⟨before, after, hsplit, -⟩ := List.lookup_eq_some_iff.mp h
  have hmem : (path, field) ∈ p.collectionIndex := by
    rw [hsplit]
    exact List.mem_append_right before List.mem_cons_self
  exact (hfold hmem).resolve_left List.not_mem_nil

end Plan
end EntityQuery
