import EntityQuery.Proofs.Conditions
import EntityQuery.Proofs.OuterForm
import EntityQuery.Proofs.Scope
import EntityQuery.Proofs.StoredRows
/-!
Inner joins as outer joins with a filter. An outer join adds to a row what the inner join adds to it, or
nothing where that is no row at all; so the rows of the inner join are those of the outer join that have
a row of its target, also behind later joins.
-/
namespace EntityQuery

variable {s : Schema} {db : Database}

theorem flatMap_filter_eq {α β : Type} (f : α → Bool) (g : α → List β) (xs : List α) :
    (xs.filter f).flatMap g = xs.flatMap fun x => if f x then g x else [] := by
  induction xs with
  | nil => rfl
  | cons x xs ih => by_cases h : f x = true <;> simp [h, ih]

/-- Parts that a predicate does not read do not change whether it holds. -/
theorem Predicate.holds_append_left {q : Predicate} {row rest : JoinedRow}
    (h : ∀ c ∈ q.columns, ∀ part ∈ rest, part.1 ≠ c.owner) :
    q.holds (row ++ rest) = q.holds row := by
  unfold holds
  rw [q.eval_congr fun c hc => ?_]
  unfold JoinedRow.get
  rw [List.lookup_append, JoinedRow.lookup_none (h c hc), Option.or_none]

theorem Predicate.holds_append_right {q : Predicate} {row rest : JoinedRow}
    (h : ∀ c ∈ q.columns, ∀ part ∈ rest, part.1 ≠ c.owner) :
    q.holds (rest ++ row) = q.holds row := by
  unfold holds
  rw [q.eval_congr fun c hc => ?_]
  unfold JoinedRow.get
  rw [List.lookup_append, JoinedRow.lookup_none (h c hc), Option.none_or]

namespace Source

theorem additions_inner (db : Database) (right : Source) (on : Predicate) (l : JoinedRow) :
    additions db right false on l = (right.rows db).filter fun r => on.holds (l ++ r) := rfl

theorem mem_additions_cases {right : Source} {outer : Bool} {on : Predicate} {l x : JoinedRow}
    (h : x ∈ additions db right outer on l) : (outer = true ∧ x = []) ∨ x ∈ right.rows db := by
  unfold additions at h
  dsimp only at h
  split at h
  · rename_i hnone
    exact .inl ⟨(Bool.and_eq_true_iff.mp hnone).1, List.mem_singleton.mp h⟩
  · exact .inr (List.mem_filter.mp h).1

/-- An outer join adds what the inner join adds, or nothing to a row that would be lost. -/
theorem additions_outer (db : Database) (right : Source) (on : Predicate) (l : JoinedRow) :
    additions db right true on l =
      if (additions db right false on l).isEmpty then [[]] else additions db right false on l := rfl

/-- Two joins one after the other add what one join with the second in parentheses adds, if each
condition reads the tables in its reach only. -/
theorem additions_nested {first second : Source} {on inner : Predicate} {l : JoinedRow}
    (hon : ∀ k ∈ first.rows db, ∀ m ∈ second.rows db,
      on.holds (l ++ (k ++ m)) = on.holds (l ++ k))
    (hinner : ∀ k ∈ first.rows db, ∀ m ∈ second.rows db,
      inner.holds (l ++ k ++ m) = inner.holds (k ++ m)) :
    additions db (.join first second false inner) false on l =
      (additions db first false on l).flatMap fun k =>
        (additions db second false inner (l ++ k)).map (k ++ ·) := by
  rw [additions_inner, rows_join, List.filter_flatMap, additions_inner, flatMap_filter_eq]
  refine List.flatMap_congr fun k hk => ?_
  rw [List.filter_map, additions_inner, additions_inner,
    List.filter_congr (fun m hm => (hinner k hk m hm).symm)]
  by_cases hholds : on.holds (l ++ k) = true
  · rw [if_pos hholds, List.filter_eq_self.mpr]
    intro m hm
    exact (hon k hk m (List.mem_filter.mp hm).1).trans hholds
  · rw [if_neg hholds, List.filter_eq_nil_iff.mpr, List.map_nil]
    intro m hm
    dsimp only [Function.comp_apply]
    rw [hon k hk m (List.mem_filter.mp hm).1]
    exact hholds

end Source

namespace Plan

open JoinedRow

variable {p : Plan} {j : ResolvedJoin} {js : List ResolvedJoin} {n place : Nat} {l x : JoinedRow}

theorem place_of_source {o : Occurrence} (h : x ∈ o.source.rows db) :
    ∃ r, x = [(.entity o.position, r)] := by
  rw [rows_source] at h
  obtain ⟨r, -, rfl⟩ := List.mem_map.mp h
  exact ⟨r, rfl⟩

theorem place_of_link {table : String} (h : x ∈ (j.linkSource table n).rows db) :
    ∃ r, x = [(.link j.target.position, r)] := by
  obtain ⟨r, -, rfl⟩ := List.mem_map.mp h
  exact ⟨r, rfl⟩

/-- What a join adds holds a row of the target, and perhaps one of the link table before it; only an
outer join adds nothing. -/
theorem additions_parts (h : x ∈ j.additions db n l) : (j.outer = true ∧ x = []) ∨
    ∃ r, x = [(.entity j.target.position, r)] ∨ ∃ k, x = j.linkedPart k r := by
  have hdirect : ∀ {on y l}, y ∈ Source.additions db j.target.source j.outer on l →
      (j.outer = true ∧ y = []) ∨ ∃ r, y = [(.entity j.target.position, r)] := fun hy =>
    (Source.mem_additions_cases hy).imp_right place_of_source
  unfold ResolvedJoin.additions at h
  split at h
  · exact (hdirect h).imp_right fun ⟨r, hr⟩ => ⟨r, .inl hr⟩
  · split at h
    · exact (hdirect h).imp_right fun ⟨r, hr⟩ => ⟨r, .inl hr⟩
    · split at h
      · rename_i houter
        refine (Source.mem_additions_cases h).imp (fun hx => ⟨houter, hx.2⟩) fun hx => ?_
        obtain ⟨k, -, r, -, hx, -⟩ := mem_rows_link.mp hx
        exact ⟨r, .inr ⟨k, hx⟩⟩
      · obtain ⟨k, hk, h⟩ := List.mem_flatMap.mp h
        obtain ⟨m, hm, rfl⟩ := List.mem_map.mp h
        obtain ⟨a, rfl⟩ := place_of_link (List.mem_filter.mp hk).1
        obtain ⟨r, rfl⟩ := place_of_source (List.mem_filter.mp hm).1
        exact .inr ⟨r, .inr ⟨a, rfl⟩⟩

theorem place_of_additions (h : x ∈ j.additions db n l) :
    ∀ part ∈ x, part.1.place = j.target.position := by
  rcases additions_parts h with ⟨-, rfl⟩ | ⟨r, rfl | ⟨k, rfl⟩⟩ <;> simp [Owner.place]

theorem rowAt_additions (hinner : j.outer = false) (h : x ∈ j.additions db n l) :
    (x.rowAt j.target.position).isSome = true := by
  rcases additions_parts h with ⟨houter, -⟩ | ⟨r, rfl | ⟨k, rfl⟩⟩
  · rw [hinner] at houter
    cases houter
  · rw [rowAt_entity]
    rfl
  · rw [rowAt_link, rowAt_entity]
    rfl

/-- What joins add to a row belongs to the places after it. -/
theorem after_extensions {used : List String} (hst : Staged s p place js)
    (hx : x ∈ extensions db used l js) : After place x := by
  induction js generalizing place used l x with
  | nil =>
    rw [List.mem_singleton.mp hx]
    exact fun _ h => absurd h List.not_mem_nil
  | cons j js ih =>
    obtain ⟨-, htarget⟩ := staged_position hst
    obtain ⟨a, ha, hx⟩ := List.mem_flatMap.mp hx
    obtain ⟨b, hb, rfl⟩ := List.mem_map.mp hx
    intro part hpart
    rcases List.mem_append.mp hpart with hpart | hpart
    · rw [place_of_additions ha part hpart]
      omega
    · exact (ih hst.2.2.2.2 hb).mono (Nat.le_succ place) part hpart

/-- A condition beside a link table names no columns but those of the target. -/
def ResolvedJoin.NarrowsTarget (j : ResolvedJoin) : Prop :=
  ∀ table extra, j.linkTable? = some table → j.predicate = .linked (some extra) →
    ∀ c ∈ extra.columns, c.owner = .entity j.target.position

/-- The same join, outer. -/
def ResolvedJoin.asOuter (j : ResolvedJoin) : ResolvedJoin := { j with outer := true }

theorem columns_narrowed {q : Predicate} {extra : Option Predicate} {c : ColumnRef} :
    c ∈ (narrowed q extra).columns ↔ c ∈ q.columns ∨ ∃ e, extra = some e ∧ c ∈ e.columns := by
  cases extra with
  | none => simp [narrowed]
  | some e => simp [narrowed, Predicate.columns_conjunction, Predicate.columnsOf]

theorem owners_through {table : String} {toSource toTarget : Predicate}
    (hl : linkPredicate j n = .through table toSource toTarget) :
    (∀ c ∈ toSource.columns, c.owner = .entity j.source.position ∨ c.owner = .link j.target.position) ∧
      ∀ c ∈ toTarget.columns,
        c.owner = .entity j.target.position ∨ c.owner = .link j.target.position := by
  unfold linkPredicate at hl
  split at hl
  · cases hl
  · cases hl
  · cases hl
    simp [equality, Predicate.columns, Predicate.Operand.columns, Occurrence.columnNamed]

/-- The two joins over a link table, with and without parentheses, find the same rows. -/
theorem additions_through (db : Database) {table : String} {toSource toTarget : Predicate}
    {extra : Option Predicate} (hsource : j.source.position ≤ place)
    (htarget : j.target.position = place + 1) (hup : UpTo place l)
    (hp : j.predicate = .linked extra) (hl : linkPredicate j n = .through table toSource toTarget)
    (hnarrows : j.NarrowsTarget) :
    Source.additions db (.join (j.linkSource table n) j.target.source false
        (narrowed toTarget extra)) false toSource l =
      (Source.additions db (j.linkSource table n) false toSource l).flatMap fun k =>
        (Source.additions db j.target.source false (narrowed toTarget extra) (l ++ k)).map
          (k ++ ·) := by
  obtain ⟨hS, hT⟩ := owners_through hl
  have hplace : ∀ part ∈ l, part.1.place ≠ j.target.position := fun part hpart => by
    have := hup part hpart
    omega
  refine Source.additions_nested (fun k _ m hm => ?_) fun k _ m _ => ?_
  · -- the row of the target comes after all that the link to the source reads
    obtain ⟨b, rfl⟩ := place_of_source hm
    rw [← List.append_assoc]
    refine Predicate.holds_append_left fun c hc part hpart => ?_
    rw [List.mem_singleton.mp hpart]
    rcases hS c hc with h | h
    · rw [h]
      exact fun e => absurd (Owner.entity.inj e) (by omega)
    · rw [h]
      exact Owner.noConfusion
  · rw [List.append_assoc]
    refine Predicate.holds_append_right fun c hc part hpart howner => hplace part hpart ?_
    rw [howner]
    rcases columns_narrowed.mp hc with hlink | ⟨e, rfl, he⟩
    · rcases hT c hlink with h | h <;> rw [h] <;> rfl
    · rw [hnarrows table e (linkTable?_through hp hl) hp c he]
      rfl

/-- An outer join adds what the inner join adds, or nothing to a row that would be lost. -/
theorem additions_asOuter (hsource : j.source.position ≤ place)
    (htarget : j.target.position = place + 1) (hup : UpTo place l) (hinner : j.outer = false)
    (hnarrows : j.NarrowsTarget) : j.asOuter.additions db n l =
      if (j.additions db n l).isEmpty then [[]] else j.additions db n l := by
  have hlink : linkPredicate j.asOuter n = linkPredicate j n := rfl
  have houter : j.asOuter.outer = true := rfl
  cases hp : j.predicate with
  | replaced q =>
    have hp' : j.asOuter.predicate = .replaced q := hp
    simp only [ResolvedJoin.additions, hp, hp', hinner, houter]
    exact Source.additions_outer ..
  | linked extra =>
    have hp' : j.asOuter.predicate = .linked extra := hp
    cases hl : linkPredicate j n with
    | direct q =>
      simp only [ResolvedJoin.additions, hp, hp', hlink, hl, hinner, houter]
      exact Source.additions_outer ..
    | through table toSource toTarget =>
      have hthrough := additions_through db hsource htarget hup hp hl hnarrows
      simp only [ResolvedJoin.additions, hp, hp', hlink, hl, hinner, houter, if_true,
        Bool.false_eq_true, if_false, ← hthrough]
      exact Source.additions_outer ..

theorem isSome_rowAt_append {k : Nat} {x y : JoinedRow} (h : (x.rowAt k).isSome = true) :
    ((x ++ y).rowAt k).isSome = true := by
  unfold rowAt at h ⊢
  rw [List.lookup_append, Option.isSome_or, h, Bool.true_or]

/-- Behind a join made outer, the rows that have a row of its target are those of the inner join. -/
theorem filter_asOuter {used : List String} (hst : Staged s p place (j :: js)) (hup : UpTo place l)
    (hinner : j.outer = false) (hnarrows : j.NarrowsTarget) :
    ((j.asOuter.additions db n l).flatMap fun x =>
        (extensions db used (l ++ x) js).map (x ++ ·)).filter
          (fun z => (z.rowAt j.target.position).isSome) =
      (j.additions db n l).flatMap fun x => (extensions db used (l ++ x) js).map (x ++ ·) := by
  obtain ⟨hsource, htarget⟩ := staged_position hst
  rw [List.filter_flatMap, additions_asOuter hsource htarget hup hinner hnarrows]
  by_cases hnone : (j.additions db n l).isEmpty = true
  · -- the row that the outer join keeps has no row of the target, and later joins bring none
    rw [if_pos hnone, List.isEmpty_iff.mp hnone, List.flatMap_singleton, List.flatMap_nil,
      List.filter_eq_nil_iff]
    intro z hz
    obtain ⟨y, hy, rfl⟩ := List.mem_map.mp hz
    have habsent : y.rowAt j.target.position = none :=
      lookup_after (Nat.le_of_eq htarget) (after_extensions hst.2.2.2.2 hy)
    rw [List.nil_append, habsent]
    exact Bool.false_ne_true
  · rw [if_neg hnone]
    refine List.flatMap_congr fun x hx => List.filter_eq_self.mpr fun z hz => ?_
    obtain ⟨y, -, rfl⟩ := List.mem_map.mp hz
    exact isSome_rowAt_append (rowAt_additions hinner hx)

theorem map_outerAt_of_ne {a : String} (h : ∀ j ∈ js, j.target.aliasName ≠ a) :
    js.map (ResolvedJoin.outerAt a) = js :=
  (List.map_congr_left fun j hj => if_neg (h j hj)).trans (List.map_id js)

/-- The rows of a query are those of its outer form that have a row of the target. -/
theorem filter_extensions {a : String} {k : Nat} {used : List String} (hst : Staged s p place js)
    (hup : UpTo place l) (ha : ∀ j ∈ js, j.target.aliasName = a ↔ j.target.position = k)
    (hk : ∃ j ∈ js, j.target.position = k)
    (hjs : ∀ j ∈ js, j.target.position = k → j.outer = false ∧ j.NarrowsTarget) :
    (extensions db used l (js.map (ResolvedJoin.outerAt a))).filter (fun x => (x.rowAt k).isSome) =
      extensions db used l js := by
  induction js generalizing place used l with
  | nil =>
    obtain ⟨j, hj, -⟩ := hk
    cases hj
  | cons j js ih =>
    obtain ⟨-, htarget⟩ := staged_position hst
    have hlater : ∀ i ∈ js, place + 1 < i.target.position := fun i hi =>
      (target_of_position hst.2.2.2.2 hi).1
    rw [List.map_cons, extensions, extensions, linkNumber_outerAt, usedAfter_outerAt]
    by_cases hjk : j.target.position = k
    · subst hjk
      -- the joins after this one are the same
      have hsame : js.map (ResolvedJoin.outerAt a) = js := map_outerAt_of_ne fun i hi halias => by
        have := (ha i (List.mem_cons_of_mem j hi)).mp halias
        have := hlater i hi
        omega
      obtain ⟨hinner, hnarrows⟩ := hjs j List.mem_cons_self rfl
      have houter : j.outerAt a = j.asOuter := if_pos ((ha j List.mem_cons_self).mpr rfl)
      rw [hsame, houter]
      exact filter_asOuter hst hup hinner hnarrows
    · have hne : j.target.aliasName ≠ a := fun halias => hjk ((ha j List.mem_cons_self).mp halias)
      obtain ⟨i, hi, hik⟩ := hk
      obtain hi | hi := List.mem_cons.mp hi
      · exact absurd (hi ▸ hik) hjk
      have hplace := hlater i hi
      rw [show j.outerAt a = j from if_neg hne, List.filter_flatMap]
      refine List.flatMap_congr fun x hx => ?_
      have hxup : UpTo (place + 1) x := fun part hpart =>
        Nat.le_of_eq ((place_of_additions hx part hpart).trans htarget)
      have hpresent : ∀ y : JoinedRow, ((x ++ y).rowAt k).isSome = (y.rowAt k).isSome := fun y => by
        rw [rowAt_append_upTo (by omega) hxup]
      rw [List.filter_map]
      simp only [Function.comp_def, hpresent]
      rw [ih hst.2.2.2.2 (hup.append (Nat.le_succ place) hxup)
        (fun i hi => ha i (List.mem_cons_of_mem j hi)) ⟨i, hi, hik⟩
        fun i hi => hjs i (List.mem_cons_of_mem j hi)]

theorem linkPredicate_of_linkTable? {table : String} (h : j.linkTable? = some table) (n : Nat) :
    ∃ toSource toTarget, linkPredicate j n = .through table toSource toTarget := by
  cases hl : linkPredicate j n with
  | direct q =>
    rw [linkTable?_direct hl] at h
    cases h
  | through other toSource toTarget =>
    cases hp : j.predicate with
    | replaced q =>
      rw [linkTable?_replaced hp] at h
      cases h
    | linked extra =>
      rw [linkTable?_through hp hl] at h
      cases h
      exact ⟨toSource, toTarget, rfl⟩

/-- A condition beside a link table names columns in the parentheses of an outer join, or anywhere in
the statement of an inner one. -/
theorem resolves_extra {table : String} {extra : Predicate} {scope : NameScope}
    (htable : j.linkTable? = some table) (hextra : j.predicate = .linked (some extra))
    (h : j.resolves s scope n = true) {c : ColumnRef} (hc : c ∈ extra.columns) :
    s.resolves (if j.outer then j.names n else scope) c = true := by
  obtain ⟨toSource, toTarget, hl⟩ := linkPredicate_of_linkTable? htable n
  simp only [ResolvedJoin.resolves, hextra, hl, Bool.and_eq_true, List.all_eq_true] at h
  exact h.1 c (columns_narrowed.mpr (.inr ⟨extra, rfl, hc⟩))

/-- A name that the parentheses of a join resolve, and the whole statement too, is none before them. -/
theorem not_resolves_before {before between after : NameScope} {c : ColumnRef}
    (hbetween : s.resolves between c = true)
    (h : s.resolves (before ++ (between ++ after)) c = true) {o : Occurrence}
    (hs : s.WellFormed) (ho : o.entity ∈ s.entities) (hc : o.Names c) :
    (o.aliasName, o.entity.table) ∉ before := by
  unfold Schema.resolves at hbetween h
  rw [beq_iff_eq] at hbetween h
  rw [List.countP_append, List.countP_append, hbetween] at h
  intro hmem
  have hfits : (Text.lowerAscii o.aliasName == Text.lowerAscii c.aliasName &&
      s.tableHas o.entity.table c.column.name) = true := by
    obtain ⟨column, hcolumn, rfl⟩ := hc
    simp [hs.tableHas ho hcolumn]
  have hpos : 0 < before.countP fun t =>
      Text.lowerAscii t.1 == Text.lowerAscii c.aliasName && s.tableHas t.2 c.column.name :=
    List.countP_pos_iff.mpr ⟨_, hmem, hfits⟩
  omega

/-- A condition beside a link table whose names resolve in both forms of the join narrows the target. -/
theorem narrowsTarget_of_resolves (hs : s.WellFormed) {a : String} {used : List String}
    {before : NameScope} (hst : Staged s p place js)
    (hbefore : ∀ k ≤ place, ∀ o, p.occurrence? k = some o →
      o.entity ∈ s.entities ∧ (o.aliasName, o.entity.table) ∈ before)
    (hnames : ∀ j ∈ js, ∀ extra, j.predicate = .linked (some extra) → ∀ c ∈ extra.columns,
      ∃ k ≤ j.target.position, ∃ o, p.occurrence? k = some o ∧ o.Names c)
    (h : resolvesFrom s (before ++ namesFrom used js) used js = true)
    (h' : resolvesFrom s (before ++ namesFrom used js) used (js.map (ResolvedJoin.outerAt a)) = true) :
    ∀ j ∈ js, j.target.aliasName = a → j.outer = false → j.NarrowsTarget := by
  induction js generalizing place used before with
  | nil => exact fun _ h => absurd h List.not_mem_nil
  | cons j js ih =>
    obtain ⟨-, htarget⟩ := staged_position hst
    rw [List.map_cons, resolvesFrom, linkNumber_outerAt, usedAfter_outerAt, namesFrom,
      Bool.and_eq_true] at h'
    rw [resolvesFrom, namesFrom, Bool.and_eq_true] at h
    have hmem : j.target.entity ∈ s.entities := List.mem_of_find?_eq_some hst.2.2.2.1
    intro i hi
    rcases List.mem_cons.mp hi with rfl | hi
    · intro halias hinner table extra htable hextra c hc
      have houter : i.outerAt a = i.asOuter := if_pos halias
      rw [houter] at h'
      have hwhole := resolves_extra htable hextra h.1 hc
      rw [if_neg (by simp [hinner])] at hwhole
      have hwithin : s.resolves (i.names (linkNumber used i)) c = true :=
        resolves_extra (j := i.asOuter) htable hextra h'.1 hc
      obtain ⟨k, hk, o, ho, hname⟩ := hnames i List.mem_cons_self extra hextra c hc
      obtain hlt | rfl := Nat.lt_or_eq_of_le hk
      · obtain ⟨hoe, hoin⟩ := hbefore k (by omega) o ho
        exact absurd hoin (not_resolves_before hwithin hwhole hs hoe hname)
      · obtain ⟨column, -, rfl⟩ := hname
        rw [occurrence?_position ho]
    · have hjoined : ∀ rest : NameScope, before ++ (j.names (linkNumber used j) ++ rest) =
          (before ++ j.names (linkNumber used j)) ++ rest := fun rest =>
        (List.append_assoc _ _ _).symm
      rw [hjoined] at h h'
      refine ih hst.2.2.2.2 (fun k hk o ho => ?_)
        (fun i hi => hnames i (List.mem_cons_of_mem j hi)) h.2 h'.2 i hi
      obtain hlt | rfl := Nat.lt_or_eq_of_le hk
      · obtain ⟨hoe, hoin⟩ := hbefore k (by omega) o ho
        exact ⟨hoe, List.mem_append_left _ hoin⟩
      · cases hst.2.1.symm.trans ho
        exact ⟨hmem, by simp [ResolvedJoin.names]⟩

theorem namesFrom_outerAt (a : String) (used : List String) (js : List ResolvedJoin) :
    namesFrom used (js.map (ResolvedJoin.outerAt a)) = namesFrom used js := by
  have hnames : ∀ (j : ResolvedJoin) n, (j.outerAt a).names n = j.names n := by
    intro j n
    unfold ResolvedJoin.outerAt
    split <;> rfl
  induction js generalizing used with
  | nil => rfl
  | cons j js ih =>
    rw [List.map_cons, namesFrom, namesFrom, linkNumber_outerAt, usedAfter_outerAt, hnames, ih]

end Plan
end EntityQuery
