import EntityQuery.Proofs.Related
import EntityQuery.Proofs.Result
/-!
Writes keep the constraints of a schema. What is inserted has its keys, differs in them from the rows
there are and holds no NaN; what is deleted takes nothing else along. So every database that writes
lead to from a sound one is sound.
-/
namespace EntityQuery

namespace Double

theorem isNaN_signed {minus : Bool} {pattern : Nat} (h : pattern ≤ 2047 * Nat.pow 2 52) :
    (signed minus pattern).isNaN = false := by
  have hbits : (signed minus pattern).bits = pattern ∨
      (signed minus pattern).bits = 9223372036854775808 + pattern := by
    cases minus
    · exact .inl rfl
    · exact .inr rfl
  have hpattern : pattern ≤ 9218868437227405312 := h
  unfold isNaN
  rw [decide_eq_false_iff_not]
  rintro ⟨hexponent, hfraction⟩
  have hexponent' : (signed minus pattern).bits / 4503599627370496 % 2048 = 2047 := hexponent
  have hfraction' : (signed minus pattern).bits % 4503599627370496 ≠ 0 := hfraction
  omega

theorem isNaN_ofRatio? {minus : Bool} {num den : Nat} {x : Double}
    (h : ofRatio? minus num den = some x) : x.isNaN = false := by
  unfold ofRatio? at h
  dsimp only at h
  split at h
  · cases h
    exact isNaN_signed (Nat.le_of_lt ‹_›)
  · cases h

theorem isNaN_infinity (minus : Bool) : (infinity minus).isNaN = false :=
  isNaN_signed (Nat.le_refl _)

theorem isNaN_ofRatio (minus : Bool) (num den : Nat) : (ofRatio minus num den).isNaN = false := by
  unfold ofRatio
  cases h : ofRatio? minus num den with
  | none => exact isNaN_infinity minus
  | some x => exact isNaN_ofRatio? h

theorem isNaN_ofDecimal (minus : Bool) (digits : Nat) (power : Int) :
    (ofDecimal minus digits power).isNaN = false := by
  unfold ofDecimal
  split
  · exact isNaN_ofRatio _ _ _
  · exact isNaN_ofRatio _ _ _

end Double

theorem Number.DecimalText.isNaN_toDouble (d : DecimalText) : d.toDouble.isNaN = false := by
  have hzero : (Double.zero d.minus).isNaN = false := Double.isNaN_signed (Nat.zero_le _)
  unfold toDouble
  split
  · exact hzero
  · dsimp only
    split
    · exact Double.isNaN_infinity _
    · split
      · exact hzero
      · exact Double.isNaN_ofDecimal _ _ _

theorem Cell.proper_of_numberOfText? {s : String} {c : Cell} (h : numberOfText? s = some c) :
    c.Proper := by
  obtain ⟨d, -, he⟩ := Option.map_eq_some_iff.mp h
  dsimp only at he
  generalize (if d.minus then -(d.digits : Int) else d.digits) = n at he
  split at he
  · subst he
    trivial
  · subst he
    exact Number.DecimalText.isNaN_toDouble d

theorem Cell.proper_asNumber {c : Cell} (hc : c.Proper) : c.asNumber.Proper := by
  cases c with
  | text s =>
    have hnumber : (text s).asNumber = (numberOfText? s).getD (text s) := rfl
    rw [hnumber]
    cases h : numberOfText? s with
    | none => trivial
    | some n => exact proper_of_numberOfText? h
  | null => trivial
  | integer n => trivial
  | real x => exact hc
  | blob b => trivial

theorem proper_alignedWith {t : ColumnType} {c : Cell} (hc : c.Proper) : (alignedWith t c).Proper := by
  unfold alignedWith
  split
  · cases c <;> trivial
  · exact Cell.proper_asNumber hc

theorem proper_keptCell {t : ColumnType} {c : Cell} (hc : c.Proper) : (keptCell t c).Proper := by
  have haligned := proper_alignedWith (t := t) hc
  unfold keptCell
  split
  · rename_i n heq
    cases hn : Double.ofInt? n with
    | none => trivial
    | some x => exact Double.isNaN_ofRatio? hn
  · exact haligned

theorem proper_storedCell {v : Value} {c : Cell} (h : storedCell v = .ok c) : c.Proper := by
  cases v with
  | float x =>
    cases h
    split
    · trivial
    · rename_i hx
      exact Bool.eq_false_iff.mpr hx
  | integer n =>
    simp only [storedCell] at h
    split at h
    · cases h
      trivial
    · cases h
  | null | boolean b | text s | bytes b | moment t =>
    cases h
    trivial
  | _ => cases h

theorem proper_writtenCell {column : Column} {v : Value} {c : Cell}
    (h : writtenCell column v = .ok c) : c.Proper := by
  unfold writtenCell at h
  split at h
  · cases h
  · obtain ⟨stored, hstored, rfl⟩ := ok_of_map h
    exact proper_keptCell (proper_storedCell hstored)

namespace Database

variable {s : Schema} {db : Database}

theorem lookup_replaced (t u : String) (rows : List Row) (tables : List (String × List Row)) :
    List.lookup u (tables.map fun p => if p.1 == t then (p.1, rows) else p) =
      (List.lookup u tables).map fun known => if u = t then rows else known := by
  induction tables with
  | nil => rfl
  | cons p tables ih =>
    obtain ⟨name, known⟩ := p
    rw [List.map_cons]
    by_cases hu : u = name
    · subst hu
      by_cases ht : u = t <;> simp [ht]
    · have hne : (u == name) = false := beq_eq_false_iff_ne.mpr hu
      have hhead : ∃ other, (if name == t then (name, rows) else (name, known)) = (name, other) := by
        split
        · exact ⟨rows, rfl⟩
        · exact ⟨known, rfl⟩
      obtain ⟨other, hother⟩ := hhead
      rw [hother, List.lookup_cons, List.lookup_cons, hne]
      exact ih

theorem rows_setRows (db : Database) (t u : String) (rows : List Row) :
    (db.setRows t rows).rows u = if u = t then rows else db.rows u := by
  unfold setRows Database.rows
  split
  · rename_i hany
    dsimp only
    rw [lookup_replaced]
    cases h : List.lookup u db.tables with
    | some known =>
      by_cases hu : u = t
      · simp [hu]
      · simp [hu]
    | none =>
      obtain ⟨p, hp, hpt⟩ := List.any_eq_true.mp hany
      have hne : u ≠ t := by
        rintro rfl
        have hother := List.lookup_eq_none_iff.mp h p hp
        rw [beq_iff_eq] at hpt
        simp [hpt] at hother
      simp [hne]
  · rename_i hany
    dsimp only
    rw [List.lookup_append]
    by_cases hu : u = t
    · subst hu
      have hnone : List.lookup u db.tables = none := by
        rw [List.lookup_eq_none_iff]
        intro p hp
        refine bne_iff_ne.mpr fun h => hany (List.any_eq_true.mpr ⟨p, hp, ?_⟩)
        exact beq_iff_eq.mpr h.symm
      simp [hnone]
    · have hne : (u == t) = false := beq_eq_false_iff_ne.mpr hu
      rw [if_neg hu, List.lookup_cons, hne, List.lookup_nil, Option.or_none]

/-- Rows keep the constraints of a table. -/
structure KeptBy (t : TableShape) (rows : List Row) : Prop where
  keys_present : ∀ row ∈ rows, ∀ c ∈ t.columns, c.key = true → row.get c.name ≠ .null
  keys_distinct : t.columns.any (·.key) = true →
    rows.Pairwise fun a b => sameKeyRow t a b = false
  cells_proper : ∀ row ∈ rows, ∀ entry ∈ row, Cell.Proper entry.2

theorem sound_iff : db.Sound s ↔ ∀ t ∈ s.tables, KeptBy t (db.rows t.name) :=
  ⟨fun h t ht => ⟨h.keys_present t ht, h.keys_distinct t ht, h.cells_proper t ht⟩,
    fun h => ⟨fun t ht => (h t ht).keys_present, fun t ht => (h t ht).keys_distinct,
      fun t ht => (h t ht).cells_proper⟩⟩

/-- Rows are replaced in one table of a sound database. -/
theorem Sound.setRows (hs : s.WellFormed) (hdb : db.Sound s) {t : TableShape} (ht : t ∈ s.tables)
    {rows : List Row} (hrows : KeptBy t rows) : (db.setRows t.name rows).Sound s := by
  rw [sound_iff] at hdb ⊢
  intro u hu
  rw [rows_setRows]
  split
  · rename_i hname
    rw [List.inj_on_of_nodup_map hs.table_names hu ht hname]
    exact hrows
  · exact hdb u hu

theorem placeRow_perm (shape : TableShape) (row : Row) (rows : List Row) :
    (placeRow shape row rows).Perm (row :: rows) := by
  unfold placeRow
  split
  · exact List.perm_append_singleton row rows
  · dsimp only
    refine List.perm_middle.trans ?_
    rw [List.takeWhile_append_dropWhile]

theorem mem_completeRow {shape : TableShape} {existing : List Row} {given : Row}
    {entry : String × Cell} (h : entry ∈ completeRow shape existing given) :
    ∃ c ∈ shape.columns, entry.2 = newCell shape existing given c := by
  obtain ⟨c, hc, rfl⟩ := List.mem_map.mp h
  exact ⟨c, hc, rfl⟩

theorem proper_newCell {shape : TableShape} {existing : List Row} {given : Row} {c : Column}
    (hgiven : ∀ entry ∈ given, Cell.Proper entry.2) (hdefault : c.default.Proper) :
    (newCell shape existing given c).Proper := by
  have hempty : (if isIntegerKey shape c then Cell.integer (largest existing c.name + 1)
      else if (List.lookup c.name given).isSome then .null else c.default).Proper := by
    split
    · trivial
    · split
      · trivial
      · exact hdefault
  unfold newCell
  split
  · exact hempty
  · exact hempty
  · rename_i cell _ h
    obtain ⟨before, after, rfl, -⟩ := List.lookup_eq_some_iff.mp h
    exact hgiven (c.name, cell) (by simp)

/-- An insertion puts the completed row into its table: no required cell of it is missing, and no row
there has its key. -/
theorem insert_eq_ok {shape : TableShape} {given : Row} {after : Database}
    (h : db.insert shape given = .ok after) :
    ∃ row, row = completeRow shape (db.rows shape.name) given ∧
      (∀ c ∈ shape.columns, c.optional = false → row.get c.name ≠ .null) ∧
      (shape.columns.any (·.key) = true →
        ∀ r ∈ db.rows shape.name, sameKeyRow shape row r = false) ∧
      after = db.setRows shape.name (placeRow shape row (db.rows shape.name)) := by
  unfold insert at h
  split at h
  · cases h
  · dsimp only at h
    split at h
    · cases h
    · rename_i hmissing
      split at h
      · cases h
      · rename_i hrepeated
        cases h
        refine ⟨_, rfl, fun c hc hoptional hnull => hmissing ?_, fun hkeys r hr => ?_, rfl⟩
        · exact List.any_eq_true.mpr ⟨c, hc, by simp [hoptional, hnull]⟩
        · simp only [hkeys, Bool.true_and, List.any_eq_true, not_exists, not_and] at hrepeated
          exact Bool.eq_false_iff.mpr (hrepeated r hr)

/-- Rows that hold their keys have one key in either order. -/
theorem sameKeyRow_comm {t : TableShape} {a b : Row} (ha : KeptBy t [a]) (hb : KeptBy t [b]) :
    sameKeyRow t a b = sameKeyRow t b a := by
  have hsame : ∀ {x y : Row}, KeptBy t [x] → KeptBy t [y] → sameKeyRow t x y = true →
      sameKeyRow t y x = true := by
    intro x y hx hy h
    refine List.all_eq_true.mpr fun c hc => ?_
    have hxy := List.all_eq_true.mp h c hc
    obtain ⟨hcolumn, hkey⟩ := List.mem_filter.mp hc
    have hpx := Row.get_proper (hx.cells_proper x List.mem_cons_self) c.name
    have hpy := Row.get_proper (hy.cells_proper y List.mem_cons_self) c.name
    have hpresent := hy.keys_present y List.mem_cons_self c hcolumn hkey
    simp only [Bool.and_eq_true, bne_iff_ne, ne_eq, beq_iff_eq] at hxy ⊢
    exact ⟨hpresent, (Cell.order_eq_eq hpy hpx).mpr ((Cell.order_eq_eq hpx hpy).mp hxy.2).symm⟩
  exact Bool.eq_iff_iff.mpr ⟨hsame ha hb, hsame hb ha⟩

theorem KeptBy.mono {t : TableShape} {rows more : List Row} (h : KeptBy t more)
    (hsub : rows.Sublist more) : KeptBy t rows where
  keys_present row hrow := h.keys_present row (hsub.subset hrow)
  keys_distinct hkeys := (h.keys_distinct hkeys).sublist hsub
  cells_proper row hrow := h.cells_proper row (hsub.subset hrow)

/-- A row with a new key joins rows that keep the constraints of a table. -/
theorem KeptBy.placeRow {t : TableShape} {rows : List Row} {row : Row} (h : KeptBy t rows)
    (hrow : KeptBy t [row])
    (hnew : t.columns.any (·.key) = true → ∀ r ∈ rows, sameKeyRow t row r = false) :
    KeptBy t (placeRow t row rows) where
  keys_present r hr := by
    rcases List.mem_cons.mp ((placeRow_perm t row rows).mem_iff.mp hr) with rfl | hr
    · exact hrow.keys_present r List.mem_cons_self
    · exact h.keys_present r hr
  keys_distinct hkeys := by
    have hone : ∀ r ∈ row :: rows, KeptBy t [r] := by
      intro r hr
      rcases List.mem_cons.mp hr with rfl | hr
      · exact hrow
      · exact h.mono (List.singleton_sublist.mpr hr)
    have hpairs : (row :: rows).Pairwise fun a b => sameKeyRow t a b = false :=
      List.pairwise_cons.mpr ⟨hnew hkeys, h.keys_distinct hkeys⟩
    have hboth : (row :: rows).Pairwise fun a b =>
        KeptBy t [a] ∧ KeptBy t [b] ∧ sameKeyRow t a b = false :=
      hpairs.imp_of_mem fun ha hb h => ⟨hone _ ha, hone _ hb, h⟩
    have hplaced := hboth.perm (placeRow_perm t row rows).symm fun ⟨ha, hb, h⟩ =>
      ⟨hb, ha, (sameKeyRow_comm hb ha).trans h⟩
    exact hplaced.imp fun h => h.2.2
  cells_proper r hr := by
    rcases List.mem_cons.mp ((placeRow_perm t row rows).mem_iff.mp hr) with rfl | hr
    · exact hrow.cells_proper r List.mem_cons_self
    · exact h.cells_proper r hr

/-- A deletion leaves a sound database. -/
theorem Sound.deleteMatching (hs : s.WellFormed) (hdb : db.Sound s) (table : String)
    (values : List (String × Value)) : (db.deleteMatching s table values).2.Sound s := by
  unfold Database.deleteMatching
  cases ht : s.table? table with
  | none => exact hdb
  | some t =>
    have hname : t.name = table := by simpa using List.find?_some ht
    have hmem : t ∈ s.tables := List.mem_of_find?_eq_some ht
    subst hname
    exact hdb.setRows hs hmem ((sound_iff.mp hdb t hmem).mono List.filter_sublist)

/-- What a table accepts keeps its constraints. -/
theorem Sound.insert (hs : s.WellFormed) (hdb : db.Sound s) {t : TableShape} (ht : t ∈ s.tables)
    {given : Row} (hgiven : ∀ entry ∈ given, Cell.Proper entry.2) {after : Database}
    (h : db.insert t given = .ok after) : after.Sound s := by
  obtain ⟨row, hrow, hrequired, hnew, rfl⟩ := insert_eq_ok h
  have hone : KeptBy t [row] := by
    refine ⟨fun r hr c hc hkey => ?_, fun _ => List.pairwise_singleton _ _, fun r hr entry he => ?_⟩
    · rw [List.mem_singleton.mp hr]
      exact hrequired c hc (hs.keys_required t ht c hc hkey)
    · rw [List.mem_singleton.mp hr, hrow] at he
      obtain ⟨c, hc, hcell⟩ := mem_completeRow he
      rw [hcell]
      exact proper_newCell hgiven (hs.defaults_proper t ht c hc)
  exact hdb.setRows hs ht ((sound_iff.mp hdb t ht).placeRow hone hnew)

theorem proper_writtenRow {shape : TableShape} {values : List (String × Value)} {row : Row}
    (h : writtenRow shape values = .ok row) : ∀ entry ∈ row, Cell.Proper entry.2 := by
  intro entry hentry
  obtain ⟨⟨name, v⟩, -, hvalue⟩ := mem_of_mapM h hentry
  dsimp only at hvalue
  cases hc : shape.columns.find? (·.name == name) with
  | none =>
    rw [hc] at hvalue
    cases hvalue
  | some c =>
    rw [hc] at hvalue
    obtain ⟨cell, hcell, rfl⟩ := ok_of_map hvalue
    exact proper_writtenCell hcell

/-- An insertion of values leaves a sound database. -/
theorem Sound.insertValues (hs : s.WellFormed) (hdb : db.Sound s) {table : String}
    {values : List (String × Value)} {after : Database}
    (h : insertValues s db table values = .ok after) : after.Sound s := by
  unfold Database.insertValues at h
  cases ht : s.table? table with
  | none =>
    rw [ht] at h
    cases h
  | some t =>
    rw [ht] at h
    obtain ⟨row, hrow, h⟩ := ok_of_bind h
    split at h
    · rename_i found hinsert
      cases h
      exact hdb.insert hs (List.mem_of_find?_eq_some ht) (proper_writtenRow hrow) hinsert
    · cases h

end Database

/-- A write to a table: a row of values, or the deletion of the rows with some values. -/
inductive Write where
  | insert (table : String) (values : List (String × Value))
  | delete (table : String) (values : List (String × Value))

/-- The database after a write; a row that is refused leaves it as it is. -/
def Write.run (s : Schema) (db : Database) : Write → Database
  | insert table values => (Database.insertValues s db table values).toOption.getD db
  | delete table values => (Database.deleteMatching s db table values).2

theorem Write.sound_run {s : Schema} {db : Database} (hs : s.WellFormed) (hdb : db.Sound s)
    (w : Write) : (w.run s db).Sound s := by
  cases w with
  | insert table values =>
    change ((Database.insertValues s db table values).toOption.getD db).Sound s
    cases h : Database.insertValues s db table values with
    | error e => exact hdb
    | ok after => exact hdb.insertValues hs h
  | delete table values => exact hdb.deleteMatching hs table values

/-- All databases that writes lead to from one without rows are sound. -/
theorem Database.sound_of_writes {s : Schema} (hs : s.WellFormed) {db : Database}
    (hempty : ∀ t ∈ s.tables, db.rows t.name = []) (ws : List Write) :
    (ws.foldl (Write.run s) db).Sound s := by
  have hdb : db.Sound s := sound_iff.mpr fun t ht => by
    rw [hempty t ht]
    exact ⟨fun _ h => absurd h List.not_mem_nil, fun _ => List.Pairwise.nil,
      fun _ h => absurd h List.not_mem_nil⟩
  clear hempty
  induction ws generalizing db with
  | nil => exact hdb
  | cons w ws ih => exact ih (w.sound_run hs hdb)
end EntityQuery
