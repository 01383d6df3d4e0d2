import Mathlib.Algebra.Group.Nat.Defs
import Mathlib.Data.List.Induction
import Mathlib.Data.Nat.Log
import EntityQuery.Proofs.Count
import EntityQuery.Proofs.Items
import EntityQuery.Proofs.Paging
import EntityQuery.Proofs.RowOrder
import EntityQuery.Service.Router
/-!
What a resource shows of stored rows. Rows of known kinds load, their items are entities that stand for
them, and an item has a record where the fields of the resource fit its row.
-/
namespace EntityQuery

variable {s : Schema} {db : Database}

/-- All stored rows are of kinds that their families have. -/
def Database.KindsKnown (s : Schema) (db : Database) : Prop :=
  ∀ e ∈ s.entities, ∀ row ∈ db.rows e.table, (memberEntity s e row).toOption.isSome = true

instance (s : Schema) (db : Database) : Decidable (db.KindsKnown s) :=
  inferInstanceAs (Decidable (∀ e ∈ s.entities, ∀ row ∈ db.rows e.table, _))

/-- An entity that has the columns of another shows their fields alike. -/
theorem column?_of_columns (hs : s.WellFormed) {e m : Entity} (hm : m ∈ s.entities)
    (hcolumns : ∀ c ∈ e.columns, c ∈ m.columns) {field : String} {c : Column}
    (hc : e.column? field = some c) : m.column? field = some c := by
  have hfield : c.field = field := by simpa using List.find?_some hc
  exact hfield ▸ Plan.column?_of_mem hs hm (hcolumns c (List.mem_of_find?_eq_some hc))

theorem memberEntity_nil (s : Schema) (e : Entity) : memberEntity s e [] = .ok e := by
  unfold memberEntity
  cases e.family <;> rfl

theorem exists_memberEntity (hkinds : db.KindsKnown s) {row : JoinedRow} {o : Occurrence}
    (ho : row.HoldsAt s db o) :
    ∃ m, memberEntity s o.entity ((List.lookup (.entity o.position) row).getD []) = .ok m := by
  cases hr : List.lookup (Owner.entity o.position) row with
  | none => exact ⟨_, memberEntity_nil s o.entity⟩
  | some r => exact exists_ok_of_toOption (hkinds _ ho.entity r (ho.stored r hr))

namespace LoadTree

variable {row : JoinedRow}

mutual

/-- Stored rows of known kinds load. -/
theorem exists_load_of_fills (hkinds : db.KindsKnown s) {t : LoadTree} (g : Graph)
    (hfills : row.Fills s db t) : ∃ out, t.load s row g = .ok out := by
  obtain ⟨o, fields, cs⟩ := t
  obtain ⟨member, hm⟩ := exists_memberEntity hkinds hfills.root
  have hbelow := fun key isNew g => exists_loadBelow_of_fills hkinds key isNew g hfills.edge
  dsimp only [occurrence] at hm
  unfold load
  simp only [hm]
  cases entityKey? o.entity ((List.lookup (.entity o.position) row).getD []) with
  | none => exact ⟨_, rfl⟩
  | some key =>
    cases hn : g.node? key with
    | none =>
      obtain ⟨h, hh⟩ := hbelow key true (g.add ⟨key, member, row.shownAt o fields, []⟩)
      simp only [hn]
      exact ⟨(some key, h), congrArg (Except.map fun h => (some key, h)) hh⟩
    | some n =>
      obtain ⟨h, hh⟩ := hbelow key false (g.modify key (·.addColumns (row.shownAt o fields)))
      simp only [hn]
      exact ⟨(some key, h), congrArg (Except.map fun h => (some key, h)) hh⟩

theorem exists_loadBelow_of_fills (hkinds : db.KindsKnown s) {o : Occurrence}
    {cs : List (Relationship × LoadTree)} (key : EntityKey) (isNew : Bool) (g : Graph)
    (hedges : ∀ e ∈ edgesBelow o cs, row.HoldsAt s db e.target) :
    ∃ h, loadBelow s row key isNew g cs = .ok h := by
  cases cs with
  | nil => exact ⟨g, rfl⟩
  | cons c rest =>
    obtain ⟨q, t⟩ := c
    obtain ⟨htarget, hbelow, hlater⟩ := forall_edgesBelow_cons.mp hedges
    obtain ⟨⟨target, i⟩, hi⟩ := exists_load_of_fills hkinds (t := t)
      (if isNew && q.many then g.modify key (·.setReference q.name (.many [])) else g)
      ⟨htarget, hbelow⟩
    unfold loadBelow
    simp only [hi]
    exact exists_loadBelow_of_fills hkinds key isNew _ hlater

end

end LoadTree

namespace Repository

open Plan

variable {p : Plan} {o : Outline} {g : Graph} {roots : List EntityKey}

/-- A selection that runs loads all its rows. -/
theorem exists_load_of_check (hs : s.WellFormed) (hdb : db.Sound s) (hkinds : db.KindsKnown s)
    (hroot : p.root ∈ s.entities) (hst : p.Staged s 0 o.1) {selection : Selection}
    (hsel : p.assemble o.1 o.2 = .ok selection) (hcheck : selection.select.check s = .ok ()) :
    ∃ out, load s db p o = .ok out := by
  have hloads : ∀ row ∈ within p.limit p.offset (p.sorted db o.1 o.2),
      ∃ out, (p.loadTree o.1).load s row {} = .ok out := fun row hrow =>
    LoadTree.exists_load_of_fills hkinds {}
      (fills_loadTree hs hdb hroot hst (mem_sorted.mp (mem_within hrow)))
  obtain ⟨out, hout⟩ := LoadTree.exists_loadRows hloads
  refine ⟨out, ?_⟩
  unfold load
  rw [hsel]
  cases assemble_eq_ok hst hsel
  simp only [bind, Except.bind, Select.run, hcheck, Except.map]
  unfold Select.rows
  rw [productRows_singleton]
  exact hout

/-- The fields of loaded entities can be read one after the other. -/
theorem exists_indexKeys (db : Database) {field : String}
    (hroots : ∀ k ∈ roots, ∃ n, g.node? k = some n ∧ n.entity.hasField field = true) :
    ∃ keys h, indexKeys db field g roots = .ok (keys, h) ∧ g.Keeps h := by
  have hread : ∀ h, g.Keeps h → ∃ keys i,
      unfoldItems (fun g k => g.readField (reader db) k field) h roots = .ok (keys, i) := by
    induction roots with
    | nil => exact fun h _ => ⟨[], h, rfl⟩
    | cons k ks ih =>
      intro h hh
      obtain ⟨n, hn, hf⟩ := hroots k List.mem_cons_self
      obtain ⟨m, hm, hentity, -⟩ := hh _ n hn
      obtain ⟨c, hc⟩ := Option.isSome_iff_exists.mp hf
      obtain ⟨⟨v, i⟩, hv⟩ : ∃ out, h.readField (reader db) k field = .ok out := by
        unfold Graph.readField
        simp only [hm, hentity, hc]
        cases m.column? field <;> exact ⟨_, rfl⟩
      have hi : g.Keeps i := hh.trans (keeping_readField (reader db) field h k v i hv)
      obtain ⟨vs, j, hvs⟩ := ih (fun k hk => hroots k (List.mem_cons_of_mem _ hk)) i hi
      refine ⟨v :: vs, j, ?_⟩
      unfold unfoldItems
      simp only [hv, hvs, bind, Except.bind]
  obtain ⟨keys, h, hkeys⟩ := hread g (.refl g)
  exact ⟨keys, h, hkeys, keeping_unfoldItems (keeping_readField (reader db) field) g roots keys h hkeys⟩

/-- The row under an identity is found again. -/
theorem storedRow_keyOf (hs : s.WellFormed) (hdb : db.Sound s) {e : Entity} (he : e ∈ s.entities)
    {r : Row} (hr : r ∈ db.rows e.table) : storedRow db ⟨e.keyOf r, e, [], []⟩ = r := by
  have hcells : decide (e.keyColumns.map (fun c => r.get c.name) = (e.keyOf r).cells) = true :=
    decide_eq_true rfl
  unfold storedRow
  dsimp only
  cases hfind : (db.rows e.table).find? fun row =>
      decide (e.keyColumns.map (fun c => row.get c.name) = (e.keyOf r).cells) with
  | none =>
    have hmiss := List.find?_eq_none.mp hfind r hr
    exact absurd (decide_eq_true rfl) hmiss
  | some a =>
    have hfound := List.find?_some hfind
    exact hdb.row_of_cells hs he (List.mem_of_find?_eq_some hfind) hr (of_decide_eq_true hfound)

/-- An item is the entity that is loaded from a row of a root. -/
def LoadedFrom (s : Schema) (db : Database) (root : Entity) (row : Row) (item : Item) : Prop :=
  ∃ (n : Node) (v : Value), n.StandsFor s db row ∧ n.key = root.keyOf row ∧
    (∀ c ∈ root.columns, c ∈ n.entity.columns) ∧ item = .entity n.entity.name n.key v

theorem loadedFrom_entityItem {root : Entity} {row : Row} {h : Graph} (hg : g.Keeps h) {n : Node}
    (hn : g.node? (root.keyOf row) = some n) (hstands : n.StandsFor s db row)
    (hcolumns : ∀ c ∈ root.columns, c ∈ n.entity.columns) {item : Item}
    (hitem : entityItem h (root.keyOf row) = .ok item) : LoadedFrom s db root row item := by
  obtain ⟨m, hm, hentity, -⟩ := hg _ n hn
  obtain ⟨⟨v, i⟩, -, rfl⟩ := ok_of_map hitem
  refine ⟨n, v, hstands, Graph.key_of_node? hn, hcolumns, ?_⟩
  simp [hm, hentity, Graph.key_of_node? hn]

/-- The roots of a load are entities of their rows, in the graph of the load and in any later one. -/
theorem exists_items (hs : s.WellFormed) (hdb : db.Sound s) (hroot : p.root ∈ s.entities)
    (hst : p.Staged s 0 o.1) (hl : load s db p o = .ok (roots, g)) (hcollection : p.collectionIndex = [])
    {h : Graph} (hh : g.Keeps h) :
    ∃ items, hydrate db p .entities h roots = .ok items ∧ ∀ item ∈ items,
      ∃ row ∈ rootsOf (within p.limit p.offset (p.sorted db o.1 o.2)),
        LoadedFrom s db p.root row item := by
  obtain ⟨rfl, hnodes⟩ := nodes_of_load hs hdb hroot hst hl
  obtain ⟨items, hitems⟩ := exists_hydrate db hcollection .entities h
    ((rootsOf (within p.limit p.offset (p.sorted db o.1 o.2))).map p.root.keyOf)
  refine ⟨items, hitems, fun item hitem => ?_⟩
  obtain ⟨k, hk, hitem⟩ := mem_of_mapM hitems hitem
  obtain ⟨row, hrow, rfl⟩ := List.mem_map.mp hk
  obtain ⟨n, hn, hstands, -, hcolumns⟩ := hnodes row hrow
  exact ⟨row, hrow, loadedFrom_entityItem hh hn hstands hcolumns hitem⟩

/-- Entities in a list or under the values of a field, as a plan asks for. -/
theorem exists_shape (hs : s.WellFormed) (hdb : db.Sound s) (hroot : p.root ∈ s.entities)
    (hst : p.Staged s 0 o.1) (hl : load s db p o = .ok (roots, g)) (hcollection : p.collectionIndex = [])
    (hindex : ∀ f ∈ p.indexBy, p.root.hasField f = true) :
    ∃ fetched, shape db p .entities g roots = .ok fetched ∧
      ∀ item ∈ Resource.pageItems fetched,
        ∃ row ∈ rootsOf (within p.limit p.offset (p.sorted db o.1 o.2)),
          LoadedFrom s db p.root row item := by
  unfold shape
  cases hfield : p.indexBy with
  | none =>
    obtain ⟨items, hhydrate, hitems⟩ := exists_items hs hdb hroot hst hl hcollection (.refl g)
    exact ⟨.list items, by simp only [hhydrate, Except.map], hitems⟩
  | some field =>
    have hread : ∀ k ∈ roots, ∃ n, g.node? k = some n ∧ n.entity.hasField field = true := by
      obtain ⟨rfl, hnodes⟩ := nodes_of_load hs hdb hroot hst hl
      intro k hk
      obtain ⟨row, hrow, rfl⟩ := List.mem_map.mp hk
      obtain ⟨n, hn, hstands, -, hcolumns⟩ := hnodes row hrow
      obtain ⟨c, hc⟩ := Option.isSome_iff_exists.mp (hindex field hfield)
      refine ⟨n, hn, ?_⟩
      rw [Entity.hasField, column?_of_columns hs hstands.entity hcolumns hc]
      rfl
    obtain ⟨keys, h, hkeys, hh⟩ := exists_indexKeys db hread
    obtain ⟨items, hhydrate, hitems⟩ := exists_items hs hdb hroot hst hl hcollection hh
    have hmap := hhydrate
    dsimp only [hydrate] at hmap
    refine ⟨.indexed (Value.keyedOfList (keys.zip items)), ?_, fun item hitem => ?_⟩
    · simp only [hydrateIndexed, hkeys, hmap, bind, Except.bind, Except.map]
    · obtain ⟨e, he, rfl⟩ := List.mem_map.mp hitem
      obtain ⟨q, hq, hsame⟩ := Value.mem_keyedOfList he
      exact hsame ▸ hitems q.2 (List.of_mem_zip hq).2

end Repository

namespace Resource

/-- The fields of a resource fit the stored rows of an entity. -/
def Fits (r : Resource) (db : Database) (e : Entity) : Prop :=
  ∀ row ∈ db.rows e.table, e.Owns row → ∀ f ∈ r.fields,
    ((e.column? f.name).bind fun c => f.read (c.shown (row.get c.name))).isSome = true

instance (r : Resource) (db : Database) (e : Entity) : Decidable (r.Fits db e) :=
  inferInstanceAs (Decidable (∀ row ∈ db.rows e.table, e.Owns row → ∀ f ∈ r.fields, _))

theorem isSome_mapM {α β : Type} {f : α → Option β} {xs : List α}
    (h : ∀ x ∈ xs, (f x).isSome = true) : (xs.mapM f).isSome = true := by
  induction xs with
  | nil => rfl
  | cons x xs ih =>
    obtain ⟨y, hy⟩ := Option.isSome_iff_exists.mp (h x List.mem_cons_self)
    obtain ⟨ys, hys⟩ := Option.isSome_iff_exists.mp (ih fun z hz => h z (List.mem_cons_of_mem x hz))
    rw [List.mapM_cons, hy, hys]
    rfl

/-- An entity that is loaded from a row has a record where the fields of the resource fit the row. -/
theorem isSome_record? (hs : s.WellFormed) (hdb : db.Sound s) {r : Resource} {root : Entity}
    (hfits : r.Fits db root) {row : Row} (hrow : row ∈ db.rows root.table) (howns : root.Owns row)
    {item : Item} (hitem : Repository.LoadedFrom s db root row item) :
    (r.record? s db item).isSome = true := by
  obtain ⟨n, v, hstands, -, hcolumns, rfl⟩ := hitem
  have hentity : s.entity? n.entity.name = some n.entity := by
    obtain ⟨e, he⟩ : ∃ e, s.entity? n.entity.name = some e := by
      rw [← Option.isSome_iff_exists, Schema.entity?, List.find?_isSome]
      exact ⟨n.entity, hstands.entity, by simp⟩
    have hname : e.name = n.entity.name := by simpa using List.find?_some he
    rw [he, List.inj_on_of_nodup_map hs.entity_names (List.mem_of_find?_eq_some he) hstands.entity
      hname]
  unfold record?
  rw [Option.isSome_map]
  refine isSome_mapM fun f hf => ?_
  obtain ⟨w, hw⟩ := Option.isSome_iff_exists.mp (hfits row hrow howns f hf)
  obtain ⟨c, hc, hread⟩ := Option.bind_eq_some_iff.mp hw
  have hstored : Repository.storedRow db ⟨n.key, n.entity, [], []⟩ = row := by
    rw [hstands.key]
    exact Repository.storedRow_keyOf hs hdb hstands.entity hstands.stored
  simp [hentity, storedField, column?_of_columns hs hstands.entity hcolumns hc, hstored, hread]

end Resource

namespace Double

theorem powerFor_eq (num den : Nat) :
    powerFor num den = Nat.log2 (num * unitsPerOne / den) - 52 := by
  unfold powerFor
  dsimp only
  split
  · rename_i h
    by_cases hzero : num * unitsPerOne / den = 0
    · rw [hzero, Nat.log2_zero]
    · have hlog : Nat.log2 (num * unitsPerOne / den) < 53 := (Nat.log2_lt hzero).mpr h
      omega
  · rfl

/-- The significand of a quotient has at most 53 bits. -/
theorem div_powerFor_lt (num den : Nat) :
    num * unitsPerOne / (den * Nat.pow 2 (powerFor num den)) < 2 ^ 53 := by
  rw [← Nat.div_div_eq_div_mul, powerFor_eq]
  generalize num * unitsPerOne / den = scaled
  refine (Nat.div_lt_iff_lt_mul (Nat.pow_pos (by omega))).mpr ?_
  have hlt : scaled < 2 ^ (Nat.log2 scaled + 1) := Nat.lt_log2_self
  refine lt_of_lt_of_le hlt ?_
  change _ ≤ 2 ^ 53 * 2 ^ (Nat.log2 scaled - 52)
  rw [← Nat.pow_add]
  exact Nat.pow_le_pow_right (by omega) (by omega)

theorem powerFor_le {num bits : Nat} (den : Nat) (hnum : num * unitsPerOne < 2 ^ bits) :
    powerFor num den ≤ bits - 53 := by
  rw [powerFor_eq]
  by_cases hzero : num * unitsPerOne / den = 0
  · rw [hzero, Nat.log2_zero]
    omega
  have hlog : Nat.log2 (num * unitsPerOne / den) < bits :=
    (Nat.log2_lt hzero).mpr (lt_of_le_of_lt (Nat.div_le_self _ _) hnum)
  omega

/-- A power of at most 1085 and a significand of at most 53 bits give a finite pattern. -/
theorem pattern_lt {power quotient significand : Nat} (hpower : power ≤ 1085)
    (hquotient : quotient < 2 ^ 53)
    (hsignificand : significand = quotient ∨ significand = quotient + 1) :
    power * Nat.pow 2 52 + significand < 2047 * Nat.pow 2 52 := by
  have hlow : power * Nat.pow 2 52 ≤ 1085 * Nat.pow 2 52 := Nat.mul_le_mul_right _ hpower
  have hhigh : significand ≤ 2 ^ 53 := by rcases hsignificand with rfl | rfl <;> omega
  exact lt_of_le_of_lt (Nat.add_le_add hlow hhigh) (by decide)

theorem exists_unitsPerOne : ∃ e ≤ 1074, unitsPerOne = Nat.pow 2 e :=
  ⟨1074, le_rfl, by unfold unitsPerOne; rfl⟩

/-- The quotient of a number below `2 ^ 63` is in the range of the floating-point numbers. -/
theorem isSome_ofRatio? (minus : Bool) {num : Nat} (den : Nat) (hnum : num < 2 ^ 63) :
    (ofRatio? minus num den).isSome = true := by
  obtain ⟨e, he, hunits⟩ := exists_unitsPerOne
  have hscaled : num * unitsPerOne < 2 ^ (63 + e) := by
    rw [Nat.pow_add, hunits]
    exact Nat.mul_lt_mul_of_pos_right hnum (Nat.pow_pos Nat.two_pos)
  have hpower : powerFor num den ≤ 1085 := (powerFor_le den hscaled).trans (by omega)
  have hpattern : nearestPattern num den < 2047 * Nat.pow 2 52 :=
    pattern_lt hpower (div_powerFor_lt num den) (Number.divToEven_eq_or _ _)
  unfold ofRatio?
  dsimp only
  rw [if_pos hpattern]
  rfl

end Double

namespace Page

theorem exists_nearestQuotient {a : Int} (b : Int) (ha : a.natAbs < 2 ^ 63) :
    ∃ x, nearestQuotient a b = .ok x := by
  obtain ⟨x, hx⟩ := Option.isSome_iff_exists.mp
    (Double.isSome_ofRatio? (decide (a < 0) != decide (b < 0)) b.natAbs ha)
  refine ⟨x, ?_⟩
  unfold nearestQuotient
  rw [hx]
  rfl

/-- A page over fewer than `2 ^ 63` matches can count its pages. -/
theorem exists_pages {α : Type} {p : Page α} (htotal : p.total.natAbs < 2 ^ 63) :
    ∃ n, p.pages = .ok n := by
  unfold pages
  split
  · exact ⟨_, rfl⟩
  · exact ⟨_, rfl⟩
  · rename_i n _ _
    obtain ⟨x, hx⟩ := exists_nearestQuotient n htotal
    exact ⟨max 1 x.ceil, by rw [hx]; rfl⟩

end Page

namespace Repository

open Plan

/-- No more roots are counted than there are rows. -/
theorem countRows_le (hs : s.WellFormed) (hdb : db.Sound s) {p : Plan} {js : List ResolvedJoin}
    (hroot : p.root ∈ s.entities) (hj : p.resolveJoins = .ok js) (hst : p.Staged s 0 js) {n : Nat}
    (h : countRows s db p = .ok n) : n ≤ (db.rows p.root.table).length := by
  have hsub : ∀ r ∈ rootsOf (p.matched db js), r ∈ db.rows p.root.table := fun r hr =>
    (stored_of_rootsOf hs hdb hroot (fun _ hrow => hrow) hr).1
  rw [countRows_eq_ok hj hst h, rootKeys_matched hs hdb hroot fun _ hrow => hrow, List.length_map]
  exact (List.subperm_of_subset (nodup_eraseDups _) hsub).length_le

end Repository
end EntityQuery
