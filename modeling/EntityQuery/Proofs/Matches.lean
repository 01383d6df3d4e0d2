import EntityQuery.Proofs.Mapping
import EntityQuery.Proofs.Roots
import EntityQuery.Proofs.Session
/-!
The matches of a plan: its joined rows that satisfy the conditions. A load answers with the distinct
roots of the matches between the bounds, a count with the number of distinct roots of all matches.
-/
namespace EntityQuery

theorem mem_within {α : Type} {limit offset : Option Nat} {xs : List α} {x : α}
    (h : x ∈ within limit offset xs) : x ∈ xs := by
  unfold within at h
  cases limit with
  | none => exact List.mem_of_mem_drop h
  | some n => exact List.mem_of_mem_drop (List.mem_of_mem_take h)

theorem within_none {α : Type} (xs : List α) : within none none xs = xs := rfl

namespace Plan

/-- The joined rows that satisfy the conditions. -/
def matched (db : Database) (p : Plan) (js : List ResolvedJoin) : List JoinedRow :=
  ((p.joined js).rows db).filter fun row => p.conditions.all (·.holds row)

/-- The matches in order. -/
def sorted (db : Database) (p : Plan) (js : List ResolvedJoin)
    (order : List (ColumnRef × Direction)) : List JoinedRow :=
  (p.matched db js).mergeSort fun a b => compareRows order a b != .gt

/-- The identity of the root of a joined row. -/
def rootKey (p : Plan) (row : JoinedRow) : EntityKey :=
  ⟨p.root.rootName, p.root.keyColumns.map fun c => row.get ⟨.entity 0, p.rootAlias, c⟩⟩

theorem mem_sorted {db : Database} {p : Plan} {js : List ResolvedJoin}
    {order : List (ColumnRef × Direction)} {row : JoinedRow} :
    row ∈ p.sorted db js order ↔ row ∈ p.matched db js := List.mem_mergeSort

theorem mem_joined_of_matched {db : Database} {p : Plan} {js : List ResolvedJoin} {row : JoinedRow}
    (h : row ∈ p.matched db js) : row ∈ (p.joined js).rows db := (List.mem_filter.mp h).1

variable {s : Schema} {db : Database} {p : Plan} {js : List ResolvedJoin}

/-- A match brings its root, whose key is there. -/
theorem key?_matched (hs : s.WellFormed) (hdb : db.Sound s) (hroot : p.root ∈ s.entities)
    {row : JoinedRow} (h : row ∈ p.matched db js) :
    (p.loadTree js).key? row = some (p.rootKey row) := by
  obtain ⟨r, hr, rest, rfl⟩ := mem_rows_joined (mem_joined_of_matched h)
  rw [key?_loadTree, entityKey?_stored hs hdb hroot hr]
  simp [rootKey, JoinedRow.get]

theorem filterMap_key?_matched (hs : s.WellFormed) (hdb : db.Sound s) (hroot : p.root ∈ s.entities)
    {rows : List JoinedRow} (h : ∀ row ∈ rows, row ∈ p.matched db js) :
    rows.filterMap (p.loadTree js).key? = rows.map p.rootKey := by
  rw [← List.filterMap_eq_map]
  exact List.filterMap_congr fun row hrow => key?_matched hs hdb hroot (h row hrow)

end Plan

namespace Repository

variable {s : Schema} {db : Database} {p : Plan}

/-- A load takes the matches between the bounds, in order. -/
theorem loadRows_of_load {o : Outline} (hst : p.Staged s 0 o.1) {out : List EntityKey × Graph}
    (h : load s db p o = .ok out) :
    loadRows s (p.loadTree o.1) (within p.limit p.offset (p.sorted db o.1 o.2)) = .ok out := by
  obtain ⟨selection, hsel, -, hrows⟩ := load_eq_ok h
  cases Plan.assemble_eq_ok hst hsel
  unfold Select.rows at hrows
  rw [productRows_singleton] at hrows
  exact hrows

/-- The roots of a load are those of the matches between the bounds. -/
theorem load_roots (hs : s.WellFormed) (hdb : db.Sound s) (hroot : p.root ∈ s.entities)
    {o : Outline} (hst : p.Staged s 0 o.1) {roots : List EntityKey} {g : Graph}
    (h : load s db p o = .ok (roots, g)) :
    roots = ((within p.limit p.offset (p.sorted db o.1 o.2)).map p.rootKey).eraseDups := by
  rw [(LoadTree.loadRows_eq_ok (loadRows_of_load hst h)).2]
  congr 1
  exact Plan.filterMap_key?_matched hs hdb hroot fun row hrow =>
    Plan.mem_sorted.mp (mem_within hrow)

/-- A count answers with the number of distinct roots of the matches. -/
theorem countRows_eq_ok {js : List Plan.ResolvedJoin} (hj : p.resolveJoins = .ok js)
    (hst : p.Staged s 0 js) {n : Nat} (h : countRows s db p = .ok n) :
    n = ((p.matched db js).map p.rootKey).eraseDups.length := by
  obtain ⟨keys, hkeys, hrun⟩ := ok_of_bind h
  obtain ⟨js', hj', hkeys⟩ := ok_of_bind hkeys
  cases hj.symm.trans hj'
  cases Plan.assembleKeys_eq_ok hst hkeys
  obtain ⟨⟨⟩, -, rfl⟩ := ok_of_map hrun
  unfold Select.countDistinct Select.rows
  rw [productRows_singleton]
  refine (length_eraseDups_eq (EntityKey.mk p.root.rootName) ?_ ?_).symm
  · intro a b hab
    exact (EntityKey.mk.inj hab).2
  · intro key
    simp only [List.mem_map, within_none, List.mem_mergeSort]
    constructor
    · rintro ⟨row, hrow, rfl⟩
      exact ⟨_, ⟨row, hrow, rfl⟩, by simp [Plan.rootKey, Select.cells]⟩
    · rintro ⟨cells, ⟨row, hrow, rfl⟩, rfl⟩
      exact ⟨row, hrow, by simp [Plan.rootKey, Select.cells]⟩

end Repository
end EntityQuery
