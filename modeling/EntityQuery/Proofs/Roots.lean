import EntityQuery.Graph.Load
import EntityQuery.Proofs.Result
import EntityQuery.Proofs.Rows
/-!
Loading rows one after the other. The roots are the keys that the rows bring at the root of the load
tree, each once and in order of first appearance.
-/
namespace EntityQuery

/-- The key that a row brings at the root of a load tree. -/
def LoadTree.key? (t : LoadTree) (row : JoinedRow) : Option EntityKey :=
  entityKey? t.occurrence.entity ((List.lookup (.entity t.occurrence.position) row).getD [])

theorem LoadTree.load_key {s : Schema} {row : JoinedRow} {g h : Graph} {t : LoadTree}
    {key : Option EntityKey} (hl : t.load s row g = .ok (key, h)) : key = t.key? row := by
  obtain ⟨o, fields, children⟩ := t
  unfold load at hl
  dsimp only at hl
  unfold LoadTree.key? LoadTree.occurrence
  split at hl
  · cases hl
  · split at hl
    · rename_i hk
      cases hl
      exact hk.symm
    · rename_i k hk
      split at hl
      all_goals
        obtain ⟨g', -, he⟩ := ok_of_map hl
        cases he
        exact hk.symm

/-- Items added one after the other are the distinct ones among all. -/
theorem foldl_addItem (items : List EntityKey) (keys : List (Option EntityKey)) :
    keys.foldl addItem items.eraseDups = (items ++ keys.filterMap id).eraseDups := by
  induction keys generalizing items with
  | nil => simp
  | cons key keys ih =>
    have hstep : addItem items.eraseDups key = (items ++ key.toList).eraseDups := by
      cases key with
      | none => simp [addItem]
      | some k =>
        simp only [addItem, Option.toList, eraseDups_append_singleton, List.contains_iff_mem,
          List.mem_eraseDups]
    rw [List.foldl_cons, hstep, ih]
    cases key <;> simp

namespace LoadTree

variable {s : Schema} {t : LoadTree}

/-- The graph that rows load, one after the other. -/
def loadAll (s : Schema) (t : LoadTree) (g : Graph) (rows : List JoinedRow) :
    Except QueryError Graph :=
  rows.foldlM (fun g row => (t.load s row g).map Prod.snd) g

/-- Loads one more row and notes its root. -/
def loadNext (s : Schema) (t : LoadTree) (out : List EntityKey × Graph) (row : JoinedRow) :
    Except QueryError (List EntityKey × Graph) := do
  let (root, h) ← t.load s row out.2
  .ok (addItem out.1 root, h)

theorem foldlM_loadNext (rows : List JoinedRow) (roots : List EntityKey) (g : Graph) :
    rows.foldlM (loadNext s t) (roots, g) =
      (t.loadAll s g rows).map fun h => ((rows.map t.key?).foldl addItem roots, h) := by
  unfold loadAll
  induction rows generalizing roots g with
  | nil => rfl
  | cons row rows ih =>
    rw [List.foldlM_cons, List.foldlM_cons]
    unfold loadNext
    cases hload : t.load s row g with
    | error e => rfl
    | ok out =>
      obtain ⟨root, h⟩ := out
      have hroot : root = t.key? row := load_key hload
      subst hroot
      exact ih _ h

/-- Loading rows answers with the distinct keys of their roots and the graph that they load. -/
theorem loadRows_eq (s : Schema) (t : LoadTree) (rows : List JoinedRow) : loadRows s t rows =
    (t.loadAll s {} rows).map fun g => ((rows.filterMap t.key?).eraseDups, g) := by
  have hfold : loadRows s t rows = rows.foldlM (loadNext s t) ([], {}) := rfl
  have hroots := foldl_addItem [] (rows.map t.key?)
  simp only [List.eraseDups_nil, List.nil_append, List.filterMap_map] at hroots
  rw [hfold, foldlM_loadNext, hroots]
  rfl

theorem loadRows_eq_ok {rows : List JoinedRow} {roots : List EntityKey} {g : Graph}
    (h : loadRows s t rows = .ok (roots, g)) :
    t.loadAll s {} rows = .ok g ∧ roots = (rows.filterMap t.key?).eraseDups := by
  rw [loadRows_eq] at h
  obtain ⟨g', hg, he⟩ := ok_of_map h
  cases he
  exact ⟨hg, rfl⟩

end LoadTree

namespace Plan

theorem occurrence_attach (parent : Nat) (r : Relationship) (target t : LoadTree) :
    (LoadTree.attach parent r target t).occurrence = t.occurrence := by
  obtain ⟨o, fields, children⟩ := t
  unfold LoadTree.attach
  split <;> rfl

theorem occurrence_loadTree (p : Plan) (js : List ResolvedJoin) :
    (p.loadTree js).occurrence = rootOccurrence p.root := by
  have h : ∀ t : LoadTree, (js.foldl (fun t j => LoadTree.attach j.source.position j.relationship
      (.node j.target j.fields []) t) t).occurrence = t.occurrence := by
    induction js with
    | nil => exact fun _ => rfl
    | cons j js ih =>
      intro t
      rw [List.foldl_cons, ih, occurrence_attach]
  exact h _

/-- The key of the root that a joined row starts with. -/
theorem key?_loadTree (p : Plan) (js : List ResolvedJoin) (r : Row) (rest : JoinedRow) :
    (p.loadTree js).key? ((.entity 0, r) :: rest) = entityKey? p.root r := by
  unfold LoadTree.key?
  rw [occurrence_loadTree]
  simp [rootOccurrence]

end Plan
end EntityQuery
