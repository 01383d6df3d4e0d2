import EntityQuery.Proofs.Sources
/-!
The joined rows of a chain of joins: each row of the left side is extended by what the first join
adds to it, then by what the joins after it add.
-/
namespace EntityQuery

namespace Source

/-- What a join adds to a row of its left side. -/
def additions (db : Database) (right : Source) (outer : Bool) (on : Predicate) (l : JoinedRow) :
    List JoinedRow :=
  let matched := (right.rows db).filter fun r => on.holds (l ++ r)
  if outer && matched.isEmpty then [[]] else matched

theorem rows_join (db : Database) (left right : Source) (outer : Bool) (on : Predicate) :
    (join left right outer on).rows db =
      (left.rows db).flatMap fun l => (additions db right outer on l).map (l ++ ·) := by
  simp only [rows, additions]
  congr 1
  funext l
  have hf : ((right.rows db).map (l ++ ·)).filter (fun row => on.holds row) =
      ((right.rows db).filter fun r => on.holds (l ++ r)).map (l ++ ·) := List.filter_map
  rw [hf, List.isEmpty_map]
  split <;> simp

theorem mem_additions {db : Database} {right : Source} {outer : Bool} {on : Predicate}
    {l x : JoinedRow} (h : x ∈ additions db right outer on l) : x = [] ∨ x ∈ right.rows db := by
  unfold additions at h
  dsimp only at h
  split at h
  · exact .inl (List.mem_singleton.mp h)
  · exact .inr (List.mem_filter.mp h).1

/-- An outer join keeps every row of its left side. -/
theorem additions_ne_nil (db : Database) (right : Source) (on : Predicate) (l : JoinedRow) :
    additions db right true on l ≠ [] := by
  unfold additions
  cases hm : (right.rows db).filter fun r => on.holds (l ++ r) <;> simp

end Source

namespace Plan

/-- The link table of a join under its number. -/
def ResolvedJoin.linkSource (j : ResolvedJoin) (table : String) (n : Nat) : Source :=
  .table (.link j.target.position) table (table ++ "_" ++ toString n)

/-- What a join adds to a row of the source that it continues. -/
def ResolvedJoin.additions (db : Database) (j : ResolvedJoin) (n : Nat) (l : JoinedRow) :
    List JoinedRow :=
  match j.predicate with
  | .replaced p => Source.additions db j.target.source j.outer p l
  | .linked extra => match linkPredicate j n with
    | .direct p => Source.additions db j.target.source j.outer (narrowed p extra) l
    | .through table toSource toTarget =>
      if j.outer then
        Source.additions db
          (.join (j.linkSource table n) j.target.source false (narrowed toTarget extra)) true
          toSource l
      else
        (Source.additions db (j.linkSource table n) false toSource l).flatMap fun k =>
          (Source.additions db j.target.source false (narrowed toTarget extra) (l ++ k)).map (k ++ ·)

theorem rows_continued (db : Database) (left : Source) (j : ResolvedJoin) (n : Nat) :
    (continued left j n).rows db =
      (left.rows db).flatMap fun l => (j.additions db n l).map (l ++ ·) := by
  unfold continued ResolvedJoin.additions
  cases j.predicate with
  | replaced p => exact Source.rows_join ..
  | linked extra =>
    cases linkPredicate j n with
    | direct p => exact Source.rows_join ..
    | through table toSource toTarget =>
      dsimp only
      cases j.outer with
      | true => exact Source.rows_join ..
      | false =>
        simp only [Bool.false_eq_true, if_false]
        rw [Source.rows_join, Source.rows_join, List.flatMap_assoc]
        congr 1
        funext l
        simp only [List.flatMap_map, List.map_flatMap, List.map_map, ResolvedJoin.linkSource]
        congr 1
        funext k
        congr 1
        funext m
        simp

/-- An outer join adds parts of one source on its right side. -/
theorem additions_outer (db : Database) {j : ResolvedJoin} (n : Nat) (h : j.outer = true) :
    ∃ right on, ∀ l, j.additions db n l = Source.additions db right true on l := by
  unfold ResolvedJoin.additions
  rw [h]
  cases j.predicate with
  | replaced p => exact ⟨_, _, fun _ => rfl⟩
  | linked extra => cases linkPredicate j n <;> exact ⟨_, _, fun _ => rfl⟩

/-- What joins add, one after the other, to a row. -/
def extensions (db : Database) (used : List String) (l : JoinedRow) :
    List ResolvedJoin → List JoinedRow
  | [] => [[]]
  | j :: js =>
    (j.additions db (linkNumber used j) l).flatMap fun x =>
      (extensions db (usedAfter used j) (l ++ x) js).map (x ++ ·)

theorem rows_chain (db : Database) (left : Source) (used : List String) (js : List ResolvedJoin) :
    (chain left used js).rows db =
      (left.rows db).flatMap fun l => (extensions db used l js).map (l ++ ·) := by
  induction js generalizing left used with
  | nil => simp [chain, extensions]
  | cons j js ih =>
    rw [chain, ih, rows_continued, List.flatMap_assoc]
    congr 1
    funext l
    simp only [extensions, List.flatMap_map, List.map_flatMap, List.map_map]
    congr 1
    funext x
    congr 1
    funext y
    simp

/-- Outer joins keep every row. -/
theorem extensions_ne_nil (db : Database) (used : List String) (l : JoinedRow)
    {js : List ResolvedJoin} (h : ∀ j ∈ js, j.outer = true) : extensions db used l js ≠ [] := by
  induction js generalizing used l with
  | nil => exact List.cons_ne_nil _ _
  | cons j js ih =>
    obtain ⟨right, on, hadd⟩ := additions_outer db (linkNumber used j) (h j List.mem_cons_self)
    obtain ⟨a, ha⟩ := List.exists_mem_of_ne_nil _ (Source.additions_ne_nil db right on l)
    rw [← hadd] at ha
    obtain ⟨b, hb⟩ := List.exists_mem_of_ne_nil _
      (ih (usedAfter used j) (l ++ a) fun k hk => h k (List.mem_cons_of_mem j hk))
    exact List.ne_nil_of_mem
      (List.mem_flatMap.mpr ⟨a, ha, List.mem_map.mpr ⟨b, hb, rfl⟩⟩)

/-- The rows of the table of the root. -/
def rootRows (db : Database) (p : Plan) : List Row := db.rows p.root.table

/-- The joined rows of a plan: each row of the root with all that the joins add to it. -/
theorem rows_joined (db : Database) (p : Plan) (js : List ResolvedJoin) :
    (p.joined js).rows db = (p.rootRows db).flatMap fun r =>
      (extensions db [] [(.entity 0, r)] js).map ((.entity 0, r) :: ·) := by
  unfold joined
  rw [rows_chain]
  simp [Occurrence.source, rootOccurrence, Source.rows, List.flatMap_map, rootRows]

/-- Each joined row starts with a row of the root. -/
theorem mem_rows_joined {db : Database} {p : Plan} {js : List ResolvedJoin} {row : JoinedRow}
    (h : row ∈ (p.joined js).rows db) : ∃ r ∈ p.rootRows db, ∃ rest, row = (.entity 0, r) :: rest := by
  rw [rows_joined] at h
  obtain ⟨r, hr, hrow⟩ := List.mem_flatMap.mp h
  obtain ⟨rest, -, rfl⟩ := List.mem_map.mp hrow
  exact ⟨r, hr, rest, rfl⟩

/-- Outer joins keep every row of the root. -/
theorem exists_joined {db : Database} {p : Plan} {js : List ResolvedJoin}
    (h : ∀ j ∈ js, j.outer = true) {r : Row} (hr : r ∈ p.rootRows db) :
    ∃ rest, (.entity 0, r) :: rest ∈ (p.joined js).rows db := by
  obtain ⟨rest, hrest⟩ := List.exists_mem_of_ne_nil _
    (extensions_ne_nil db [] [(.entity 0, r)] h)
  refine ⟨rest, ?_⟩
  rw [rows_joined]
  exact List.mem_flatMap.mpr ⟨r, hr, List.mem_map.mpr ⟨rest, hrest, rfl⟩⟩

end Plan

theorem productRows_singleton (db : Database) (s : Source) : productRows db [s] = s.rows db := by
  simp [productRows]

end EntityQuery
