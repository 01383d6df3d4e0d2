import EntityQuery.Proofs.OwnItems
import EntityQuery.Proofs.RowOrder
/-!
Walking through pages. Where joins follow references to single entities and the sort includes the whole
key of the root, the pages of one size that are read one after the other, as long as each announces a
next one, list the roots of all matches, each once and in order. Their items are those of the whole list
where the matches load entities alike.
-/
namespace EntityQuery

/-- The number of pages of a size that hold `n` roots; one page is read in any case. -/
def pageCount (limit n : Nat) : Nat := max 1 ((n + limit - 1) / limit)

theorem succ_lt_pageCount {limit : Nat} (hlimit : 0 < limit) (i n : Nat) :
    i + 1 < pageCount limit n ↔ i * limit + limit < n := by
  have hdiv : i + 2 ≤ (n + limit - 1) / limit ↔ (i + 2) * limit ≤ n + limit - 1 :=
    Nat.le_div_iff_mul_le hlimit
  have hmul : (i + 2) * limit = i * limit + 2 * limit := Nat.add_mul i 2 limit
  unfold pageCount
  omega

theorem le_pageCount_mul {limit : Nat} (hlimit : 0 < limit) (n : Nat) :
    n ≤ pageCount limit n * limit := by
  have hpos : 1 ≤ pageCount limit n := Nat.le_max_left _ _
  have hlast := (succ_lt_pageCount hlimit (pageCount limit n - 1) n).not.mp (by omega)
  have hmul : (pageCount limit n - 1) * limit + limit = pageCount limit n * limit := by
    rw [← Nat.succ_mul, Nat.succ_eq_add_one, Nat.sub_add_cancel hpos]
  omega

/-- The number of a page that starts behind `i` pages of its size. -/
theorem Page.number_at {α : Type} (items : α) (total : Int) {limit : Nat} (hlimit : 0 < limit)
    (i : Nat) : Page.number ⟨items, total, some limit, some (i * limit : Nat)⟩ = i + 1 := by
  have hne : (limit : Int) ≠ 0 := by omega
  have hdiv : ((i * limit : Nat) : Int).fdiv limit = i := by
    rw [Int.natCast_mul, Int.mul_fdiv_cancel _ hne]
  unfold Page.number
  split
  · rename_i h
    cases h
  · rename_i h
    exact absurd (Option.some.inj h) hne
  · rename_i h
    cases h
    exact congrArg (· + 1) hdiv

theorem Page.hasNext_at {α : Type} (items : α) (total limit offset : Nat) :
    Page.hasNext ⟨items, total, some limit, some offset⟩ = true ↔ offset + limit < total := by
  change decide ((offset : Int) + limit < total) = true ↔ _
  rw [decide_eq_true_iff]
  omega

/-- Parts of one size, one after the other. -/
theorem flatMap_within {α : Type} (limit : Nat) (xs : List α) (count : Nat) :
    (List.range count).flatMap (fun i => within (some limit) (some (i * limit)) xs) =
      xs.take (count * limit) := by
  induction count with
  | zero => simp
  | succ count ih =>
    rw [List.range_succ, List.flatMap_append, ih, List.flatMap_singleton, Nat.succ_mul, List.take_add]
    rfl

theorem forall₂_flatMap_range {α β : Type} {R : α → β → Prop} {f : Nat → List α} {g : Nat → List β}
    {count : Nat} (h : ∀ i < count, List.Forall₂ R (f i) (g i)) :
    List.Forall₂ R ((List.range count).flatMap f) ((List.range count).flatMap g) := by
  induction count with
  | zero => exact .nil
  | succ count ih =>
    rw [List.range_succ, List.flatMap_append, List.flatMap_append, List.flatMap_singleton,
      List.flatMap_singleton]
    exact List.rel_append (ih fun i hi => h i (Nat.lt_succ_of_lt hi)) (h count (Nat.lt_succ_self count))

/-- The query for a page of its matches from an offset on, with the number of all matches. -/
def Descriptor.pageAt (limit offset : Nat) (d : Descriptor) : Descriptor :=
  { d.bounded (some limit) (some offset) with countAvailableRows := true }

/-- A selection of some of the columns of a selection, without its order and its bounds, can be run like
that. -/
theorem Select.check_fewer {s : Schema} {q keys : Select} (hcolumns : ∀ c ∈ keys.columns, c ∈ q.columns)
    (hsources : keys.sources = q.sources) (hconditions : keys.conditions = q.conditions)
    (horder : keys.order = []) (hlimit : keys.limit = none) (hoffset : keys.offset = none)
    (h : q.check s = .ok ()) : keys.check s = .ok () := by
  have hparameters : ∀ x ∈ keys.parameters, x ∈ q.parameters := by
    unfold parameters
    rw [hsources, hconditions, hlimit, hoffset]
    simp only [Option.toList_none, List.append_nil, List.map_nil]
    exact fun x hx => List.mem_append_left _ hx
  unfold check at h ⊢
  split at h
  · cases h
  · rename_i hfits
    have hkeys : keys.parameters.all Parameter.fits = true := by
      simp only [Bool.not_eq_true, Bool.not_eq_false', List.all_eq_true] at hfits ⊢
      exact fun x hx => hfits x (hparameters x hx)
    rw [if_neg (by simp [hkeys])]
    split at h
    · cases h
    · rename_i hnames
      have hresolves : keys.resolves s = true := by
        unfold resolves at hnames ⊢
        simp only [Bool.not_eq_true, Bool.not_eq_false', Bool.and_eq_true, List.all_eq_true] at hnames ⊢
        rw [hsources, hconditions, horder]
        exact ⟨⟨⟨fun c hc => hnames.1.1.1 c (hcolumns c hc), hnames.1.1.2⟩, hnames.1.2⟩,
          fun _ hc => absurd hc List.not_mem_nil⟩
      rw [if_neg (by simp [hresolves])]
      exact forM_eq_ok_iff.mpr fun x hx => forM_eq_ok_iff.mp h x (hparameters x hx)

namespace Plan

variable {s : Schema} {db : Database} {p : Plan} {js : List ResolvedJoin}
  {order : List (ColumnRef × Direction)}

theorem exists_loadTree (p : Plan) (js : List ResolvedJoin) :
    ∃ cs, p.loadTree js = .node (rootOccurrence p.root) p.fields cs := by
  have hfold : ∀ o fields cs, ∃ cs', js.foldl (fun t j => LoadTree.attach j.source.position
      j.relationship (.node j.target j.fields []) t) (LoadTree.node o fields cs) =
        .node o fields cs' := by
    induction js with
    | nil => exact fun _ _ cs => ⟨cs, rfl⟩
    | cons j js ih =>
      intro o fields cs
      rw [List.foldl_cons, LoadTree.attach]
      split <;> exact ih o fields _
  exact hfold _ _ _

/-- The columns of a selection include the key of the root. -/
theorem mem_columns_loadTree {c : Column} (hc : c ∈ p.root.keyColumns) :
    ⟨.entity 0, p.rootAlias, c⟩ ∈ (p.loadTree js).columns := by
  obtain ⟨cs, hcs⟩ := exists_loadTree p js
  rw [hcs, LoadTree.columns]
  refine List.mem_append_right _ (List.mem_map.mpr ⟨c, ?_, rfl⟩)
  exact mem_loadedColumns_of_key p.fields hc

/-- Matches with distinct roots stand strictly in an order that includes the whole key. -/
theorem pairwise_sorted_lt (hs : s.WellFormed) (hdb : db.Sound s) (hroot : p.root ∈ s.entities)
    (hproper : ∀ row ∈ p.matched db js, row.ProperIn order) (hkey : p.OrdersKey order)
    (hone : ((p.matched db js).map p.rootKey).Nodup) :
    (p.sorted db js order).Pairwise fun a b => compareRows order a b = .lt := by
  have hnodup : ((p.sorted db js order).map p.rootKey).Nodup :=
    ((List.mergeSort_perm _ _).map _).nodup_iff.mpr hone
  refine ((pairwise_sorted hproper).and (List.pairwise_map.mp hnodup)).imp_of_mem
    fun {row other} hrow hother h => ?_
  obtain ⟨a, ha, rest, rfl⟩ := mem_rows_joined (mem_joined_of_matched (mem_sorted.mp hrow))
  obtain ⟨b, hb, rest', rfl⟩ := mem_rows_joined (mem_joined_of_matched (mem_sorted.mp hother))
  have hat := JoinedRow.rowAt_entity 0 a rest
  have hbt := JoinedRow.rowAt_entity 0 b rest'
  cases hc : compareRows order ((.entity 0, a) :: rest) ((.entity 0, b) :: rest') with
  | lt => rfl
  | gt => exact absurd hc h.1
  | eq =>
    refine absurd ?_ h.2
    rw [rootKey_of_rowAt hat, rootKey_of_rowAt hbt,
      root_of_compareRows hs hdb hroot hkey ha hb hat hbt hc]

/-- The distinct roots of the matches of a plan, strictly in the order of the matches. -/
structure RootsInOrder (db : Database) (p : Plan) (js : List ResolvedJoin)
    (order : List (ColumnRef × Direction)) (rs : List Row) : Prop where
  once : rs.Nodup
  mem : ∀ r, r ∈ rs ↔ Reached (p.matched db js) 0 r
  ordered : rs.Pairwise fun a b => ∀ row ∈ p.matched db js, ∀ other ∈ p.matched db js,
    row.rowAt 0 = some a → other.rowAt 0 = some b → compareRows order row other = .lt

theorem rootsOf_eq (hone : ((p.matched db js).map p.rootKey).Nodup) {rows : List JoinedRow}
    (hrows : rows.Sublist (p.sorted db js order)) : rootsOf rows = rows.filterMap (·.rowAt 0) := by
  have hmatched : ∀ row ∈ rows, row ∈ p.matched db js := fun row hrow =>
    mem_sorted.mp (hrows.subset hrow)
  have hnodup : (rows.map p.rootKey).Nodup :=
    (hrows.map _).nodup (((List.mergeSort_perm _ _).map _).nodup_iff.mpr hone)
  rw [map_rootKey_matched hmatched] at hnodup
  unfold rootsOf
  exact eraseDups_eq_self hnodup.of_map

theorem rootsInOrder_sorted (hs : s.WellFormed) (hdb : db.Sound s) (hroot : p.root ∈ s.entities)
    (hproper : ∀ row ∈ p.matched db js, row.ProperIn order) (hkey : p.OrdersKey order)
    (hone : ((p.matched db js).map p.rootKey).Nodup) :
    p.RootsInOrder db js order (rootsOf (p.sorted db js order)) where
  once := nodup_eraseDups _
  mem := fun r => by
    rw [mem_rootsOf]
    unfold Reached
    simp only [mem_sorted]
  ordered := by
    have hunique : ∀ {row other : JoinedRow} {a : Row}, row ∈ p.matched db js →
        other ∈ p.matched db js → row.rowAt 0 = some a → other.rowAt 0 = some a → row = other :=
      fun hrow hother ha hb => List.inj_on_of_nodup_map hone hrow hother
        ((rootKey_of_rowAt ha).trans (rootKey_of_rowAt hb).symm)
    rw [rootsOf_eq hone (List.Sublist.refl _), List.pairwise_filterMap]
    refine (pairwise_sorted_lt hs hdb hroot hproper hkey hone).imp_of_mem
      fun {row other} hrow hother hlt a ha b hb row' hrow' other' hother' ha' hb' => ?_
    rw [hunique hrow' (mem_sorted.mp hrow) ha' ha, hunique hother' (mem_sorted.mp hother) hb' hb]
    exact hlt

end Plan

namespace Repository

open Plan

variable {s : Schema} {db : Database} {r : Repository} {d : Descriptor} {p : Plan} {o : Outline}

/-- The matches of a plan can be counted if they can be loaded. -/
theorem exists_countRows (hst : p.Staged s 0 o.1) (hj : p.resolveJoins = .ok o.1)
    {out : List EntityKey × Graph} (h : load s db p o = .ok out) :
    countRows s db p = .ok ((p.matched db o.1).map p.rootKey).eraseDups.length := by
  obtain ⟨selection, hsel, hcheck, -⟩ := load_eq_ok h
  cases assemble_eq_ok hst hsel
  have hkeys : p.keySelection = .ok
      { columns := p.root.keyColumns.map fun c => ⟨.entity 0, p.rootAlias, c⟩,
        sources := [p.joined o.1], conditions := p.conditions } := by
    unfold keySelection assembleKeys
    simp only [hj, addJoins_singleton _ hst (owners_root p), bind, Except.bind]
    rfl
  have hkeycheck : Select.check s
      { columns := p.root.keyColumns.map fun c => ⟨.entity 0, p.rootAlias, c⟩,
        sources := [p.joined o.1], conditions := p.conditions } = .ok () := by
    refine Select.check_fewer (q := ⟨(p.loadTree o.1).columns, [p.joined o.1], p.conditions, o.2,
      p.limit, p.offset⟩) (fun c hc => ?_) rfl rfl rfl rfl rfl hcheck
    obtain ⟨column, hcolumn, rfl⟩ := List.mem_map.mp hc
    exact mem_columns_loadTree hcolumn
  have hrun : ∃ n, countRows s db p = .ok n := by
    unfold countRows
    simp only [hkeys, bind, Except.bind, Select.runCount, hkeycheck]
    exact ⟨_, rfl⟩
  obtain ⟨n, hn⟩ := hrun
  rw [hn, countRows_eq_ok hj hst hn]

theorem countRows_bounded (s : Schema) (db : Database) (p : Plan) (limit offset : Option Nat) :
    countRows s db (p.bounded limit offset) = countRows s db p :=
  countRows_congr (joinsAs_bounded limit offset p) rfl

/-- Repositories that answer alike: for one root, and with one table of operators. -/
def Peers (r w : Repository) : Prop :=
  w.builder.root = r.builder.root ∧ w.builder.operators = r.builder.operators

/-- The repository after a fetch. -/
def afterFetch (s : Schema) (db : Database) (r : Repository) (d : Descriptor) : Repository :=
  (run r (fetchAll s db (.descriptor d))).2.repository

theorem Peers.afterFetch {w : Repository} (h : r.Peers w) (s : Schema) (db : Database)
    (d : Descriptor) : r.Peers (w.afterFetch s db d) :=
  have hfetch := outcome_fetchAll s db d ⟨w, []⟩
  ⟨hfetch.root.trans h.1, hfetch.operators.trans h.2⟩

/-- A listed answer is drawn from a graph. -/
theorem exists_lists_of_list (hf : r.ReadsAfresh d) (hpage : d.countAvailableRows = false)
    (hindex : d.indexBy = none) {items : List Item}
    (h : (run r (fetchAll s db (.descriptor d))).1 = .ok (.plain (.list items))) :
    ∃ g, Lists s db r d items g := by
  obtain ⟨others, g, hlists⟩ := exists_lists hf hpage hindex h
  have hsame := hlists.answer.symm.trans h
  cases hsame
  exact ⟨g, hlists⟩

/-- What a fetch of a page answers, by what the list between its bounds is drawn from. -/
theorem fetchAll_pageAt {w : Repository} (hw : r.Peers w) (hcache : d.cache = none)
    (hp : planOf s r d = .ok p) {limit offset : Nat} {items : List Item} {g : Graph}
    (h : Lists s db r (d.bounded (some limit) (some offset)) items g) {n : Nat}
    (hn : countRows s db p = .ok n) :
    (run w (fetchAll s db (.descriptor (d.pageAt limit offset)))).1 =
      .ok (.page ⟨.list items, n, some limit, some offset⟩) := by
  obtain ⟨q, o, roots, hq, ho, hl, hh⟩ := h.drawn
  cases hq.symm.trans (build_bounded (some limit) (some offset) hp)
  have hplan : planOf s w (d.pageAt limit offset) = .ok (p.bounded (some limit) (some offset)) := by
    unfold planOf
    rw [hw.1, hw.2]
    exact hq
  have hread : readAll s db (p.bounded (some limit) (some offset)) d.hydration o =
      .ok (.list items) := by
    unfold readAll shape
    rw [hl]
    simp only [bind, Except.bind]
    rw [show (p.bounded (some limit) (some offset)).indexBy = none from rfl]
    simp only [show hydrate db _ d.hydration g roots = .ok items from hh]
    rfl
  rw [run_fetchAll]
  unfold answerAll
  simp only [hplan, ho, readThrough, show (d.pageAt limit offset).cache = none from hcache,
    show (d.pageAt limit offset).hydration = d.hydration from rfl, hread, bind, Except.bind,
    countRows_bounded, hn, show (d.pageAt limit offset).countAvailableRows = true from rfl, if_true]
  rfl

/-- Reading pages of a size from an offset on: a further page as long as the last one announces it. -/
inductive Walk (s : Schema) (db : Database) (d : Descriptor) (limit : Nat) :
    Repository → Nat → List (Page Fetched) → Prop
  | last {r offset page} :
      (run r (fetchAll s db (.descriptor (d.pageAt limit offset)))).1 = .ok (.page page) →
      page.hasNext = false → Walk s db d limit r offset [page]
  | further {r offset page pages} :
      (run r (fetchAll s db (.descriptor (d.pageAt limit offset)))).1 = .ok (.page page) →
      page.hasNext = true →
      Walk s db d limit (r.afterFetch s db (d.pageAt limit offset)) (offset + limit) pages →
      Walk s db d limit r offset (page :: pages)

/-- If all pages of a sequence are answered, and each but the last announces a next one, a walk meets
these pages and no others. -/
theorem walk_iff {limit count : Nat} {page : Nat → Page Fetched}
    (hpage : ∀ w, r.Peers w → ∀ i < count,
      (run w (fetchAll s db (.descriptor (d.pageAt limit (i * limit))))).1 = .ok (.page (page i)))
    (hnext : ∀ i < count, (page i).hasNext = true ↔ i + 1 < count) {w : Repository}
    (hw : r.Peers w) {i rest : Nat} (hi : i + (rest + 1) = count) (pages : List (Page Fetched)) :
    Walk s db d limit w (i * limit) pages ↔ pages = (List.range' i (rest + 1)).map page := by
  -- by the number of pages that are left; the repository changes on the way, but stays a peer
  induction rest generalizing i w pages with
  | zero =>
    have hanswer := hpage w hw i (by omega)
    have hlast : (page i).hasNext = false := by
      have := (hnext i (by omega)).not.mpr (by omega)
      simpa using this
    constructor
    · rintro (⟨h, -⟩ | ⟨h, hmore, -⟩)
      · cases hanswer.symm.trans h
        rfl
      · cases hanswer.symm.trans h
        rw [hlast] at hmore
        cases hmore
    · rintro rfl
      exact .last hanswer hlast
  | succ rest ih =>
    have hanswer := hpage w hw i (by omega)
    have hmore : (page i).hasNext = true := (hnext i (by omega)).mpr (by omega)
    have hstep := fun later => ih (hw.afterFetch s db (d.pageAt limit (i * limit)))
      (i := i + 1) (by omega) later
    rw [Nat.succ_mul] at hstep
    rw [List.range'_succ, List.map_cons]
    constructor
    · rintro (⟨h, hlast⟩ | ⟨h, -, hlater⟩)
      · cases hanswer.symm.trans h
        rw [hmore] at hlast
        cases hlast
      · cases hanswer.symm.trans h
        rw [(hstep _).mp hlater]
    · rintro rfl
      exact .further hanswer hmore ((hstep _).mpr rfl)

/-- What holds of the items between bounds of a fetch. -/
structure ListsPart (s : Schema) (db : Database) (p : Plan) (o : Outline) (h : Hydration)
    (rows : List JoinedRow) (items : List Item) : Prop where
  stands : List.Forall₂ (fun r item => item.StandsFor p.root r) (rows.filterMap (·.rowAt 0)) items
  own : p.LoadsAlike s db o.1 →
    List.Forall₂ (fun row item => ownItem s db p o.1 h row = .ok item) rows items

theorem Lists.part (hs : s.WellFormed) (hdb : db.Sound s) (hroot : r.builder.root ∈ s.entities)
    (hd : d.DistinctAliases r.builder.root) (hindexed : ∀ e ∈ d.relations.entries, e.2.indexBy = none)
    (hp : planOf s r d = .ok p) (ho : p.outline = .ok o) (hjs : ∀ j ∈ o.1, j.Single)
    {limit offset : Option Nat} {items : List Item} {g : Graph}
    (h : Lists s db r (d.bounded limit offset) items g) :
    ListsPart s db p o d.hydration (within limit offset (p.sorted db o.1 o.2)) items := by
  obtain ⟨roots, hl, hh⟩ := h.drawn_bounded hp ho
  have hst := (resolveJoins_eq_ok (layout_build hd hp) (outline_eq_ok ho).1).1
  have hstb := staged_bounded limit offset hst
  have hmem : p.root ∈ s.entities := by
    rw [(build_frame hp).1]
    exact hroot
  have hone := nodup_rootKeys hs hdb hmem hst hjs
  constructor
  · have hstands := load_standsFor (p := p.bounded limit offset) hs hdb hmem hstb hl hh
    rw [← rootsOf_eq hone (within_sublist limit offset _)]
    exact hstands
  · intro halike
    exact load_ownItems (p := p.bounded limit offset) hs hdb hmem hstb hjs halike
      (collectionIndex_build (build_bounded limit offset hp) hindexed) hl hh

/-- Items of one list of rows, each given by its row alone, are the same. -/
theorem eq_of_ownItems {h : Hydration} {rows : List JoinedRow} {items others : List Item}
    (ha : List.Forall₂ (fun row item => ownItem s db p o.1 h row = .ok item) rows items)
    (hb : List.Forall₂ (fun row item => ownItem s db p o.1 h row = .ok item) rows others) :
    items = others := by
  induction ha generalizing others with
  | nil =>
    cases hb
    rfl
  | cons hitem _ ih =>
    cases hb with
    | cons hother hrest =>
      cases hitem.symm.trans hother
      rw [ih hrest]

/-- A query follows references to single entities, is sorted by the whole key of its root, and is neither
cached nor indexed. -/
structure Walkable (s : Schema) (r : Repository) (d : Descriptor) (p : Plan) (o : Outline) : Prop where
  plan : planOf s r d = .ok p
  outline : p.outline = .ok o
  aliases : d.DistinctAliases r.builder.root
  single : ∀ j ∈ o.1, j.Single
  sorted : p.SortsKey
  uncached : d.cache = none
  unindexed : ∀ e ∈ d.relations.entries, e.2.indexBy = none

section

variable (hs : s.WellFormed) (hdb : db.Sound s) (hroot : r.builder.root ∈ s.entities)
  (hd : Walkable s r d p o) {all : List Item} {g : Graph} (hall : Lists s db r d.unbounded all g)

include hd in
theorem Walkable.staged : p.Layout s ∧ p.Staged s 0 o.1 :=
  have hlay := layout_build hd.aliases hd.plan
  ⟨hlay, (resolveJoins_eq_ok hlay (outline_eq_ok hd.outline).1).1⟩

include hroot hd in
theorem Walkable.root_mem : p.root ∈ s.entities := by
  rw [(build_frame hd.plan).1]
  exact hroot

include hs hdb hroot hd in
theorem Walkable.nodup_rootKeys : ((p.matched db o.1).map p.rootKey).Nodup :=
  Plan.nodup_rootKeys hs hdb (hd.root_mem hroot) hd.staged.2 hd.single

include hs hdb hroot hd hall in
/-- The whole list has one item for each match. -/
theorem Walkable.length_all : all.length = (p.sorted db o.1 o.2).length := by
  have hperm : (p.sorted db o.1 o.2).Perm (p.matched db o.1) := List.mergeSort_perm _ _
  rw [(hall.bounded_eq_ok hs hdb hroot hd.aliases hd.plan hd.outline).1, within_none,
    eraseDups_eq_self ((hperm.map _).nodup_iff.mpr (hd.nodup_rootKeys hs hdb hroot)),
    List.length_map]

include hs hdb hroot hd hall in
theorem Walkable.countRows_all : countRows s db p = .ok all.length := by
  have hperm : (p.sorted db o.1 o.2).Perm (p.matched db o.1) := List.mergeSort_perm _ _
  obtain ⟨roots, hl, -⟩ := hall.drawn_bounded hd.plan hd.outline
  have hcount := exists_countRows (staged_bounded none none hd.staged.2)
    ((resolveJoins_bounded none none p).trans (outline_eq_ok hd.outline).1) hl
  rw [countRows_bounded] at hcount
  rw [hcount]
  change Except.ok ((p.matched db o.1).map p.rootKey).eraseDups.length = _
  rw [eraseDups_eq_self (hd.nodup_rootKeys hs hdb hroot), List.length_map,
    hd.length_all hs hdb hroot hall, hperm.length_eq]

include hs hdb hroot hd hall in
/-- Every page of a storable size behind a storable offset is answered. -/
theorem Walkable.exists_page {limit offset : Nat} (hlimit : inCellRange limit = true)
    (hoffset : inCellRange offset = true) :
    ∃ items, (∀ w, r.Peers w → (run w (fetchAll s db (.descriptor (d.pageAt limit offset)))).1 =
        .ok (.page ⟨.list items, all.length, some limit, some offset⟩)) ∧
      ListsPart s db p o d.hydration (within (some limit) (some offset) (p.sorted db o.1 o.2))
        items := by
  have hstorable : ∀ {n : Nat}, inCellRange n = true → Storable (some n) := fun h m hm => by
    cases hm
    exact h
  obtain ⟨items, h, hitems, -⟩ := lists_of_references hs hdb hroot hd.aliases
    (readsAfresh_of_uncached hd.uncached) hd.unindexed hd.plan hd.outline hd.single hall
    (hstorable hlimit) (hstorable hoffset)
  exact ⟨items, fun w hw => fetchAll_pageAt hw hd.uncached hd.plan hitems
      (hd.countRows_all hs hdb hroot hall),
    hitems.part hs hdb hroot hd.aliases hd.unindexed hd.plan hd.outline hd.single⟩

include hs hdb hroot hd in
theorem Walkable.rootsInOrder :
    p.RootsInOrder db o.1 o.2 (rootsOf (p.sorted db o.1 o.2)) :=
  have horder := (outline_eq_ok hd.outline).2
  have hmem := hd.root_mem hroot
  rootsInOrder_sorted hs hdb hmem
    (fun _ hrow => properIn_matched hs hdb hd.staged.1 hmem hd.staged.2 horder hrow)
    (ordersKey_of_sortsKey hs hd.staged.1 hmem hd.sorted horder) (hd.nodup_rootKeys hs hdb hroot)

end

theorem inCellRange_offset {limit n i : Nat} (hlimit : 0 < limit) (hn : inCellRange n = true)
    (hi : i < pageCount limit n) : inCellRange (i * limit : Nat) = true := by
  refine inCellRange_of_le ?_ hn
  cases i with
  | zero => simp
  | succ i =>
    have := (succ_lt_pageCount hlimit i n).mp hi
    rw [Nat.succ_mul]
    omega

/-- A walk from the start meets as many pages as hold all roots, numbered from one. Together they list
the roots of all matches, each once and in order, as the whole list does, and the same items where the
matches load entities alike. -/
theorem walk_pages (hs : s.WellFormed) (hdb : db.Sound s) (hroot : r.builder.root ∈ s.entities)
    (hd : Walkable s r d p o) {all : List Item}
    (hall : (run r (fetchAll s db (.descriptor d.unbounded))).1 = .ok (.plain (.list all)))
    (hn : inCellRange all.length = true) {limit : Nat} (hpos : 0 < limit)
    (hlimit : inCellRange limit = true) :
    ∃ (pages : List (Page Fetched)) (lists : List (List Item)),
      (∀ other, Walk s db d limit r 0 other ↔ other = pages) ∧
      pages.length = pageCount limit all.length ∧ pages.map (·.items) = lists.map .list ∧
      (∀ (i : Nat) page, pages[i]? = some page → page.number = i + 1 ∧ page.total = all.length) ∧
      (∃ rs, p.RootsInOrder db o.1 o.2 rs ∧
        List.Forall₂ (fun r item => Item.StandsFor p.root r item) rs all ∧
        List.Forall₂ (fun r item => Item.StandsFor p.root r item) rs lists.flatten) ∧
      (p.LoadsAlike s db o.1 → lists.flatten = all) := by
  obtain ⟨g, hlists⟩ := exists_lists_of_list (d := d.unbounded)
    (readsAfresh_of_uncached hd.uncached) rfl rfl hall
  have hone := hd.nodup_rootKeys hs hdb hroot
  have hwhole := hlists.part hs hdb hroot hd.aliases hd.unindexed hd.plan hd.outline hd.single
  rw [within_none] at hwhole
  have hpages := fun i (hi : i < pageCount limit all.length) =>
    hd.exists_page hs hdb hroot hlists hlimit (inCellRange_offset hpos hn hi)
  choose! items hpages using hpages
  let page (i : Nat) : Page Fetched := ⟨.list (items i), all.length, some limit, some (i * limit)⟩
  -- the parts of the matches that the pages take are all matches
  have hcut : (List.range (pageCount limit all.length)).flatMap
      (fun i => within (some limit) (some (i * limit)) (p.sorted db o.1 o.2)) =
        p.sorted db o.1 o.2 := by
    rw [flatMap_within, List.take_of_length_le]
    rw [← hd.length_all hs hdb hroot hlists]
    exact le_pageCount_mul hpos _
  refine ⟨(List.range (pageCount limit all.length)).map page,
    (List.range (pageCount limit all.length)).map items, fun other => ?_, by simp, by simp [page],
    ?_, ⟨_, hd.rootsInOrder hs hdb hroot, ?_, ?_⟩, fun halike => ?_⟩
  · have hsome : 1 ≤ pageCount limit all.length := Nat.le_max_left _ _
    have hwalk : Walk s db d limit r (0 * limit) other ↔
        other = (List.range' 0 (pageCount limit all.length - 1 + 1)).map page :=
      walk_iff (fun w hw i hi => (hpages i hi).1 w hw)
        (fun i _ => (Page.hasNext_at _ _ _ _).trans (succ_lt_pageCount hpos i _).symm)
        ⟨rfl, rfl⟩ (by omega) other
    rw [Nat.zero_mul, Nat.sub_add_cancel hsome] at hwalk
    rw [hwalk, List.range_eq_range']
  · intro i q hq
    rw [List.getElem?_map] at hq
    obtain ⟨j, hj, rfl⟩ := Option.map_eq_some_iff.mp hq
    obtain ⟨hlt, hij⟩ := List.getElem?_eq_some_iff.mp hj
    rw [List.getElem_range] at hij
    subst hij
    exact ⟨Page.number_at _ _ hpos i, rfl⟩
  · rw [rootsOf_eq hone (List.Sublist.refl _)]
    exact hwhole.stands
  · rw [rootsOf_eq hone (List.Sublist.refl _), ← hcut, List.filterMap_flatMap, ← List.flatMap_def]
    exact forall₂_flatMap_range fun i hi => (hpages i hi).2.stands
  · refine eq_of_ownItems ?_ (hwhole.own halike)
    rw [← hcut, ← List.flatMap_def]
    exact forall₂_flatMap_range fun i hi => (hpages i hi).2.own halike

/-- Products by name with their categories, and those above them. -/
def categorizedProducts : Descriptor where
  relations := .ofList
    [("category", {}),
     ("category.parent",
      { joinAlias := some "above", conditionType := some .narrows,
        condition := .condition (.compareField .notEqual "above.id" "category.id") })]
  sort := .ofList [("id", .ascending)]
  hydration := .records

theorem exists_outline {P : Plan → Outline → Prop} [∀ p o, Decidable (P p o)]
    (h : (planOf s r d >>= fun p => p.outline.map fun o => decide (P p o)).toOption = some true) :
    ∃ p o, planOf s r d = .ok p ∧ p.outline = .ok o ∧ P p o := by
  obtain ⟨p, hp, h⟩ := ok_of_bind (eq_ok_of_toOption h)
  obtain ⟨o, ho, h⟩ := ok_of_map h
  exact ⟨p, o, hp, ho, of_decide_eq_true h⟩

theorem walk_categorizedProducts :
    ∃ p o all, ∃ (pages : List (Page Fetched)) (lists : List (List Item)),
      Walkable Model.sample (ofRoot Model.Shop.product) categorizedProducts p o ∧
      p.LoadsAlike Model.sample Model.sampleRows o.1 ∧
      (run (ofRoot Model.Shop.product) (fetchAll Model.sample Model.sampleRows
        (.descriptor categorizedProducts.unbounded))).1 = .ok (.plain (.list all)) ∧
      all.length = 5 ∧ pages.length = 3 ∧
      Walk Model.sample Model.sampleRows categorizedProducts 2 (ofRoot Model.Shop.product) 0 pages ∧
      pages.map (·.items) = lists.map .list ∧ lists.flatten = all := by
  obtain ⟨p, o, hp, ho, hjs, hkey, hnames⟩ := exists_outline (s := Model.sample)
    (r := ofRoot Model.Shop.product) (d := categorizedProducts)
    (P := fun p o => (∀ j ∈ o.1, j.Single) ∧ p.SortsKey ∧
      ∀ g ∈ p.ownGraphs Model.sample Model.sampleRows o.1,
      ∀ i ∈ p.ownGraphs Model.sample Model.sampleRows o.1, g.NamesAlike i) (by decide +kernel)
  obtain ⟨all, hall, hlength⟩ := fetchAll_listed Model.sample Model.sampleRows List.length
    (r := ofRoot Model.Shop.product) (d := categorizedProducts.unbounded) rfl rfl
    (v := 5) (by decide +kernel)
  have hd : Walkable Model.sample (ofRoot Model.Shop.product) categorizedProducts p o :=
    ⟨hp, ho, by decide +kernel, hjs, hkey, rfl, by decide +kernel⟩
  have halike := loadsAlike_of_names hnames
  have hlimit : 0 < 2 ∧ inCellRange (2 : Nat) = true := by decide
  obtain ⟨pages, lists, hwalk, hcount, hitems, -, -, hsame⟩ := walk_pages sample_wellFormed
    sampleRows_sound (by decide) hd hall (by rw [hlength]; decide) hlimit.1 hlimit.2
  rw [hlength] at hcount
  exact ⟨p, o, all, pages, lists, hd, halike, hall, hlength, hcount, (hwalk pages).mpr rfl, hitems,
    hsame halike⟩

/-- Categories with those above them. -/
def nestedCategories : Descriptor where
  relations := .ofList [("parent", {})]
  sort := .ofList [("id", .ascending)]
  hydration := .records

/-- Whether the item above each item shows what is above it in turn. -/
def showsTwice (name : String) (items : List Item) : List Bool :=
  items.map fun
    | .record (.mapping es) => match Value.lookupText name es with
      | some (.mapping fs) => (Value.lookupText name fs).isSome
      | _ => false
    | _ => false

theorem exists_page_nestedCategories (offset : Nat) (shown : List Bool) {p : Plan}
    (hp : planOf Model.sample (ofRoot Model.Shop.category) nestedCategories = .ok p)
    (hcount : countRows Model.sample Model.sampleRows p = .ok 5)
    (h : ((readInOrder? Model.sample Model.sampleRows (ofRoot Model.Shop.category)
      (nestedCategories.bounded (some 3) (some offset))).bind listed?).map (showsTwice "parent") =
        some shown) :
    ∃ items, showsTwice "parent" items = shown ∧ ∀ w, (ofRoot Model.Shop.category).Peers w →
      (run w (fetchAll Model.sample Model.sampleRows
        (.descriptor (nestedCategories.pageAt 3 offset)))).1 =
          .ok (.page ⟨.list items, 5, some 3, some offset⟩) := by
  obtain ⟨items, hitems, hshown⟩ := fetchAll_listed Model.sample Model.sampleRows _ rfl rfl h
  obtain ⟨g, hlists⟩ := exists_lists_of_list (readsAfresh_of_uncached rfl) rfl rfl hitems
  exact ⟨items, hshown, fun w hw => fetchAll_pageAt hw rfl hp hlists hcount⟩

/-- The fourth category is on the second page, where the one above it shows nothing above itself; in
the whole list it does, as a root of this list. -/
theorem walk_nestedCategories :
    ∃ p o all, ∃ (pages : List (Page Fetched)) (lists : List (List Item)),
      Walkable Model.sample (ofRoot Model.Shop.category) nestedCategories p o ∧
      (run (ofRoot Model.Shop.category) (fetchAll Model.sample Model.sampleRows
        (.descriptor nestedCategories.unbounded))).1 = .ok (.plain (.list all)) ∧
      Walk Model.sample Model.sampleRows nestedCategories 3 (ofRoot Model.Shop.category) 0 pages ∧
      pages.map (·.items) = lists.map .list ∧ lists.flatten ≠ all := by
  obtain ⟨p, o, hp, ho, hjs, hkey, hcount⟩ := exists_outline (s := Model.sample)
    (r := ofRoot Model.Shop.category) (d := nestedCategories)
    (P := fun p o => (∀ j ∈ o.1, j.Single) ∧ p.SortsKey ∧
      (countUnsorted Model.sample Model.sampleRows p).toOption = some 5) (by decide +kernel)
  have hd : Walkable Model.sample (ofRoot Model.Shop.category) nestedCategories p o :=
    ⟨hp, ho, by decide +kernel, hjs, hkey, rfl, by decide +kernel⟩
  have hcount' : countRows Model.sample Model.sampleRows p = .ok 5 :=
    (countRows_unsorted ..).trans (eq_ok_of_toOption hcount)
  obtain ⟨all, hall, hshown⟩ := fetchAll_listed Model.sample Model.sampleRows (showsTwice "parent")
    (r := ofRoot Model.Shop.category) (d := nestedCategories.unbounded) rfl rfl
    (v := [false, true, true, true, false]) (by decide +kernel)
  obtain ⟨front, hfront, hfirst⟩ := exists_page_nestedCategories 0 [false, true, true] hp hcount'
    (by decide +kernel)
  obtain ⟨back, hback, hsecond⟩ := exists_page_nestedCategories 3 [false, false] hp hcount'
    (by decide +kernel)
  refine ⟨p, o, all, [⟨.list front, 5, some 3, some 0⟩, ⟨.list back, 5, some 3, some 3⟩],
    [front, back], hd, hall, .further (hfirst _ ⟨rfl, rfl⟩) rfl
      (.last (hsecond _ (Peers.afterFetch ⟨rfl, rfl⟩ _ _ _)) rfl), rfl, fun h => ?_⟩
  have hsame : showsTwice "parent" (front ++ back) = showsTwice "parent" all := by
    rw [← h]
    simp
  unfold showsTwice at hsame hfront hback hshown
  rw [List.map_append, hfront, hback, hshown] at hsame
  cases hsame

end Repository
end EntityQuery
