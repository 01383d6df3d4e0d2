import EntityQuery.Proofs.Session
import EntityQuery.Proofs.Sources
/-!
Queries without a sort take the joined rows in the order of their tables. Their answers can be
computed without sorting.
-/
namespace EntityQuery

/-- The rows of a selection in the order of their tables. -/
def Select.unsortedRows (q : Select) (db : Database) : List JoinedRow :=
  within q.limit q.offset ((productRows db q.sources).filter fun row =>
    q.conditions.all (·.holds row))

/-- The rows of a selection stand in order in their tables. -/
def Select.InOrder (q : Select) (db : Database) : Prop :=
  ((productRows db q.sources).filter fun row => q.conditions.all (·.holds row)).Pairwise
    fun a b => (compareRows q.order a b != .gt) = true

instance (q : Select) (db : Database) : Decidable (q.InOrder db) :=
  inferInstanceAs (Decidable (List.Pairwise _ _))

theorem Select.rows_inOrder {q : Select} {db : Database} (h : q.InOrder db) :
    q.rows db = q.unsortedRows db := by
  unfold rows unsortedRows
  dsimp only
  rw [List.mergeSort_of_pairwise h]

theorem Select.rows_unsorted {q : Select} (h : q.order = []) (db : Database) :
    q.rows db = q.unsortedRows db := by
  refine rows_inOrder ?_
  unfold InOrder
  rw [h]
  exact List.pairwise_iff_forall_sublist.mpr fun _ => rfl

namespace Plan

theorem order_assembleKeys {p : Plan} {js : List ResolvedJoin} {keys : Select}
    (h : p.assembleKeys js = .ok keys) : keys.order = [] := by
  obtain ⟨sources, -, h⟩ := ok_of_bind h
  cases h
  rfl

end Plan

namespace Repository

/-- A repository for an entity, without a store. -/
def ofRoot (root : Entity) : Repository := ⟨⟨root, .builtIn, false, {}⟩, none⟩

/-- The roots and the graph of an outline without order. -/
def loadUnsorted (s : Schema) (db : Database) (p : Plan) (js : List Plan.ResolvedJoin) :
    Except QueryError (List EntityKey × Graph) := do
  let selection ← p.assemble js []
  selection.select.check s
  loadRows s selection.tree (selection.select.unsortedRows db)

theorem load_unsorted (s : Schema) (db : Database) (p : Plan) (js : List Plan.ResolvedJoin) :
    load s db p (js, []) = loadUnsorted s db p js := by
  unfold load loadUnsorted
  cases h : p.assemble js [] with
  | error e => rfl
  | ok selection =>
    simp only [bind, Except.bind, Select.run]
    cases selection.select.check s with
    | error e => rfl
    | ok _ => simp only [Except.map, Select.rows_unsorted (Plan.frame_assemble h).2.1]

/-- The number of distinct keys, counted in the order of the tables. -/
def countUnsorted (s : Schema) (db : Database) (p : Plan) : Except QueryError Nat := do
  let keys ← p.keySelection
  keys.check s
  .ok ((keys.unsortedRows db).map keys.cells).eraseDups.length

theorem countRows_unsorted (s : Schema) (db : Database) (p : Plan) :
    countRows s db p = countUnsorted s db p := by
  unfold countRows countUnsorted
  cases h : p.keySelection with
  | error e => rfl
  | ok keys =>
    have horder : keys.order = [] := by
      obtain ⟨js, -, hkeys⟩ := ok_of_bind h
      exact Plan.order_assembleKeys hkeys
    simp only [bind, Except.bind, Select.runCount, Select.countDistinct]
    cases keys.check s with
    | error e => rfl
    | ok _ => simp only [Except.map, Select.rows_unsorted horder]

/-- What a count answers, computed without sorting. -/
theorem count_unsorted (s : Schema) (db : Database) (r : Repository) (d : Descriptor) :
    (run r (count s db (.descriptor d))).1 = (planOf s r d >>= countUnsorted s db) := by
  have h : (run r (count s db (.descriptor d))).1 = answerCount s db r d :=
    (outcome_count s db d ⟨r, []⟩).answer
  rw [h]
  unfold answerCount
  congr 1
  funext p
  exact countRows_unsorted s db p

/-- All matches of a query without a sort, computed without sorting. -/
def readUnsorted (s : Schema) (db : Database) (r : Repository) (d : Descriptor) :
    Except QueryError Fetched := do
  let p ← planOf s r d
  let o ← p.outline
  let (roots, g) ← loadUnsorted s db p o.1
  shape db p d.hydration g roots

theorem orderColumns_nil {p : Plan} (h : p.orderBy = []) : p.orderColumns = .ok [] := by
  unfold Plan.orderColumns
  rw [h]
  rfl

theorem orderBy_planOf {s : Schema} {r : Repository} {d : Descriptor} {p : Plan}
    (hd : d.sort.entries = []) (h : planOf s r d = .ok p) : p.orderBy = [] := by
  obtain ⟨first, joined, filtered, hs, hr, hf, rfl⟩ := Plan.build_eq_ok h
  obtain ⟨predicates, -, rfl⟩ := Plan.addParameters_eq_ok hf
  have hj := Plan.addRelations_frame hr
  rw [hd, hj, Plan.start_eq_ok hs]
  rfl

theorem load_planOf {s : Schema} (db : Database) {r : Repository} {d : Descriptor}
    (hsort : d.sort.entries = []) {p : Plan} {o : Outline} (hp : planOf s r d = .ok p)
    (ho : p.outline = .ok o) : load s db p o = loadUnsorted s db p o.1 := by
  have horder : o.2 = [] := by
    have := (outline_eq_ok ho).2
    rw [orderColumns_nil (orderBy_planOf hsort hp)] at this
    exact (Except.ok.inj this).symm
  rw [← load_unsorted, ← horder]

theorem readAll_unsorted {s : Schema} (db : Database) {r : Repository} {d : Descriptor}
    (hsort : d.sort.entries = []) {p : Plan} {o : Outline} (hp : planOf s r d = .ok p)
    (ho : p.outline = .ok o) (h : Hydration) :
    readAll s db p h o = loadUnsorted s db p o.1 >>= fun v => shape db p h v.2 v.1 := by
  unfold readAll
  rw [load_planOf db hsort hp ho]

/-- What a fetch of all matches answers, computed without sorting. -/
theorem fetchAll_unsorted (s : Schema) (db : Database) (r : Repository) {d : Descriptor}
    (hsort : d.sort.entries = []) (hcache : d.cache = none)
    (hpage : d.countAvailableRows = false) :
    (run r (fetchAll s db (.descriptor d))).1 = (readUnsorted s db r d).map .plain := by
  rw [run_fetchAll]
  unfold answerAll readUnsorted
  cases hp : planOf s r d with
  | error e => rfl
  | ok p =>
    simp only [bind, Except.bind]
    cases ho : p.outline with
    | error e => rfl
    | ok o =>
      simp only [readThrough, hcache, readAll_unsorted db hsort hp ho, hpage, bind, Except.bind,
        Bool.false_eq_true, if_false]
      cases loadUnsorted s db p o.1 with
      | error e => rfl
      | ok v => cases shape db p d.hydration v.2 v.1 <;> rfl

/-- All matches of a query whose rows stand in order, computed without sorting. -/
def readInOrder? (s : Schema) (db : Database) (r : Repository) (d : Descriptor) :
    Option Fetched := do
  let p ← (planOf s r d).toOption
  let o ← p.outline.toOption
  let selection ← (p.assemble o.1 o.2).toOption
  let _ ← (selection.select.check s).toOption
  guard (selection.select.InOrder db)
  let (roots, g) ← (loadRows s selection.tree (selection.select.unsortedRows db)).toOption
  (shape db p d.hydration g roots).toOption

/-- What a fetch of matches that stand in order answers, computed without sorting. -/
theorem fetchAll_inOrder {s : Schema} {db : Database} {r : Repository} {d : Descriptor}
    (hcache : d.cache = none) (hpage : d.countAvailableRows = false) {fetched : Fetched}
    (h : readInOrder? s db r d = some fetched) :
    (run r (fetchAll s db (.descriptor d))).1 = .ok (.plain fetched) := by
  obtain ⟨p, hp, h⟩ := Option.bind_eq_some_iff.mp h
  obtain ⟨o, ho, h⟩ := Option.bind_eq_some_iff.mp h
  obtain ⟨selection, hsel, h⟩ := Option.bind_eq_some_iff.mp h
  obtain ⟨⟨⟩, hcheck, h⟩ := Option.bind_eq_some_iff.mp h
  obtain ⟨⟨⟩, horder, h⟩ := Option.bind_eq_some_iff.mp h
  obtain ⟨⟨roots, g⟩, hload, hshape⟩ := Option.bind_eq_some_iff.mp h
  have hsorted : selection.select.InOrder db := by
    simpa [guard] using horder
  rw [run_fetchAll]
  unfold answerAll
  simp only [eq_ok_of_toOption hp, eq_ok_of_toOption ho, readThrough, hcache, readAll, load,
    eq_ok_of_toOption hsel, Select.run, eq_ok_of_toOption hcheck, Select.rows_inOrder hsorted,
    eq_ok_of_toOption hload, eq_ok_of_toOption hshape, hpage, bind, Except.bind, Except.map,
    Bool.false_eq_true, if_false]

def listed? : Fetched → Option (List Item)
  | .list items => some items
  | _ => none

/-- A fetch of matches that stand in order lists the items that can be computed without sorting. -/
theorem fetchAll_listed {r : Repository} {d : Descriptor} (s : Schema) (db : Database) {α : Type}
    (view : List Item → α) (hcache : d.cache = none) (hpage : d.countAvailableRows = false) {v : α}
    (h : ((readInOrder? s db r d).bind listed?).map view = some v) :
    ∃ items, (run r (fetchAll s db (.descriptor d))).1 = .ok (.plain (.list items)) ∧
      view items = v := by
  obtain ⟨items, hitems, rfl⟩ := Option.map_eq_some_iff.mp h
  obtain ⟨fetched, hfetched, hlisted⟩ := Option.bind_eq_some_iff.mp hitems
  cases fetched with
  | list found =>
    cases hlisted
    exact ⟨items, fetchAll_inOrder hcache hpage hfetched, rfl⟩
  | single item => cases hlisted
  | indexed entries => cases hlisted

end Repository
end EntityQuery
