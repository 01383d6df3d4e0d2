import EntityQuery.Proofs.EagerJoin
/-!
Joined rows where every join keeps the rows without a match and none has a condition. Such a row
holds, beside the row of each source, a related row of the target if there is one; and for each
related row there is a joined row of the same root that holds it beside this row of the source.
-/
namespace EntityQuery.Plan

open JoinedRow

variable {s : Schema} {db : Database} {p : Plan}

/-- What a joined row holds at the two ends of an eager join. -/
structure ResolvedJoin.Linked (db : Database) (j : ResolvedJoin) (row : JoinedRow) : Prop where
  present : ∀ y, row.rowAt j.target.position = some y →
    ∃ r, row.rowAt j.source.position = some r ∧ y ∈ j.related db r
  absent : row.rowAt j.target.position = none →
    ∀ r, row.rowAt j.source.position = some r → j.related db r = []

/-- Joins that are eager and fit the schema. -/
def EagerJoins (s : Schema) (js : List ResolvedJoin) : Prop :=
  ∀ j ∈ js, j.Eager ∧ j.Fitting s

theorem staged_position {place : Nat} {j : ResolvedJoin} {js : List ResolvedJoin}
    (h : Staged s p place (j :: js)) :
    j.source.position ≤ place ∧ j.target.position = place + 1 := by
  obtain ⟨⟨k, hk, hsource⟩, htarget, -⟩ := h
  rw [occurrence?_position hsource, occurrence?_position htarget]
  exact ⟨hk, rfl⟩

/-- The part of a row that an eager join adds belongs to the place of its target. -/
theorem place_of_mem_additions {j : ResolvedJoin} {n place : Nat} (he : j.Eager)
    (hfit : j.Fitting s) (hsource : j.source.position ≤ place)
    (htarget : j.target.position = place + 1) {l x : JoinedRow} (hl : UpTo place l)
    (h : x ∈ j.additions db n l) : After place x ∧ UpTo (place + 1) (l ++ x) := by
  have hplace : ∀ part ∈ x, part.1.place = place + 1 := by
    rcases mem_additions he hfit hsource htarget hl h with ⟨r, y, hpart⟩ | ⟨rfl, -⟩
    · exact fun part hp => (hpart.place part hp).trans htarget
    · simp
  refine ⟨fun part hp => ?_, hl.append (Nat.le_succ place) fun part hp => ?_⟩
  · rw [hplace part hp]
    exact Nat.lt_succ_self place
  · exact Nat.le_of_eq (hplace part hp)

theorem extensions_linked {place : Nat} {used : List String} {l x : JoinedRow}
    {js : List ResolvedJoin} (hst : Staged s p place js) (he : EagerJoins s js)
    (hl : UpTo place l) (hx : x ∈ extensions db used l js) :
    After place x ∧ ∀ j ∈ js, j.Linked db (l ++ x) := by
  induction js generalizing place used l x with
  | nil =>
    rw [List.mem_singleton.mp hx]
    exact ⟨fun _ h => absurd h List.not_mem_nil, fun _ h => absurd h List.not_mem_nil⟩
  | cons j js ih =>
    obtain ⟨hsource, htarget⟩ := staged_position hst
    obtain ⟨hej, hfit⟩ := he j List.mem_cons_self
    obtain ⟨a, ha, hx⟩ := List.mem_flatMap.mp hx
    obtain ⟨b, hb, rfl⟩ := List.mem_map.mp hx
    obtain ⟨haft, hup⟩ := place_of_mem_additions hej hfit hsource htarget hl ha
    obtain ⟨hbft, hlinked⟩ := ih hst.2.2.2.2 (fun k hk => he k (List.mem_cons_of_mem j hk)) hup hb
    have hab : After place (a ++ b) := fun part hp => by
      rcases List.mem_append.mp hp with h | h
      · exact haft part h
      · exact hbft.mono (Nat.le_succ place) part h
    have hat : ∀ k ≤ place, rowAt (l ++ (a ++ b)) k = l.rowAt k := fun k hk =>
      rowAt_append_after hk hab
    have hnew : rowAt (l ++ (a ++ b)) j.target.position = a.rowAt j.target.position := by
      rw [rowAt_append_upTo (by omega) hl, rowAt_append_after (by omega) hbft]
    refine ⟨hab, fun k hk => ?_⟩
    rcases List.mem_cons.mp hk with rfl | hk
    · constructor
      · intro y hy
        rw [hnew] at hy
        rw [hat _ hsource]
        rcases mem_additions hej hfit hsource htarget hl ha with ⟨r, y', hpart⟩ | ⟨rfl, -⟩
        · have : y' = y := Option.some.inj (hpart.target.symm.trans hy)
          exact ⟨r, hpart.source, this ▸ hpart.related⟩
        · cases hy
      · intro hy r hr
        rw [hnew] at hy
        rw [hat _ hsource] at hr
        rcases mem_additions hej hfit hsource htarget hl ha with ⟨r', y', hpart⟩ | ⟨-, hnone⟩
        · rw [hpart.target] at hy
          cases hy
        · exact hnone r hr
    · rw [← List.append_assoc]
      exact hlinked k hk

/-- A joined row can be changed at the target of a join into any other related row, while it stays
as it is at the source. -/
theorem extensions_alternate {place : Nat} {used : List String} {l x : JoinedRow}
    {js : List ResolvedJoin} (hst : Staged s p place js) (he : EagerJoins s js)
    (hl : UpTo place l) (hx : x ∈ extensions db used l js) {j : ResolvedJoin} (hj : j ∈ js)
    {r y : Row} (hr : rowAt (l ++ x) j.source.position = some r) (hy : y ∈ j.related db r) :
    ∃ z ∈ extensions db used l js, rowAt (l ++ z) j.source.position = some r ∧
      rowAt (l ++ z) j.target.position = some y := by
  induction js generalizing place used l x with
  | nil => cases hj
  | cons k js ih =>
    obtain ⟨hsource, htarget⟩ := staged_position hst
    obtain ⟨hek, hfit⟩ := he k List.mem_cons_self
    have hrest : EagerJoins s js := fun i hi => he i (List.mem_cons_of_mem k hi)
    obtain ⟨a, ha, hxab⟩ := List.mem_flatMap.mp hx
    obtain ⟨b, hb, rfl⟩ := List.mem_map.mp hxab
    obtain ⟨haft, hup⟩ := place_of_mem_additions hek hfit hsource htarget hl ha
    rcases List.mem_cons.mp hj with rfl | hj
    · -- up to this join the row stays, and the joins after it add something to any row
      rw [rowAt_append_after hsource (extensions_linked hst he hl hx).1] at hr
      obtain ⟨c, hc, hpart⟩ :=
        exists_addition (n := linkNumber used j) hek hfit hsource htarget hl hr hy
      have hup' := (place_of_mem_additions hek hfit hsource htarget hl hc).2
      obtain ⟨e, hne⟩ := List.exists_mem_of_ne_nil _
        (extensions_ne_nil db (usedAfter used j) (l ++ c) fun i hi => (hrest i hi).1.2)
      have hmem : c ++ e ∈ extensions db used l (j :: js) :=
        List.mem_flatMap.mpr ⟨c, hc, List.mem_map.mpr ⟨e, hne, rfl⟩⟩
      have hafter := (extensions_linked hst.2.2.2.2 hrest hup' hne).1
      refine ⟨c ++ e, hmem, ?_, ?_⟩
      · rw [rowAt_append_after hsource (extensions_linked hst he hl hmem).1]
        exact hr
      · rw [rowAt_append_upTo (by omega) hl, rowAt_append_after (by omega) hafter]
        exact hpart.target
    · rw [← List.append_assoc] at hr
      obtain ⟨z, hz, hzs, hzt⟩ := ih hst.2.2.2.2 hrest hup hb hj hr
      refine ⟨a ++ z, List.mem_flatMap.mpr ⟨a, ha, List.mem_map.mpr ⟨z, hz, rfl⟩⟩, ?_, ?_⟩
      · rw [← List.append_assoc]
        exact hzs
      · rw [← List.append_assoc]
        exact hzt

theorem upTo_root (r : Row) : UpTo 0 [(.entity 0, r)] := by
  simp [UpTo, Owner.place]

/-- A joined row of eager joins holds a row of the root, and at each join a related row if there is
one. -/
theorem joined_linked {js : List ResolvedJoin} (hst : Staged s p 0 js) (he : EagerJoins s js)
    {row : JoinedRow} (h : row ∈ (p.joined js).rows db) :
    (∃ r ∈ p.rootRows db, row.rowAt 0 = some r) ∧ ∀ j ∈ js, j.Linked db row := by
  rw [rows_joined] at h
  obtain ⟨r, hr, hrow⟩ := List.mem_flatMap.mp h
  obtain ⟨x, hx, rfl⟩ := List.mem_map.mp hrow
  exact ⟨⟨r, hr, rowAt_entity 0 r x⟩, (extensions_linked hst he (upTo_root r) hx).2⟩

/-- Beside a row of its source, each related row of the target is part of a joined row with the same
root. -/
theorem joined_alternate {js : List ResolvedJoin} (hst : Staged s p 0 js) (he : EagerJoins s js)
    {row : JoinedRow} (h : row ∈ (p.joined js).rows db) {j : ResolvedJoin} (hj : j ∈ js)
    {r y : Row} (hr : row.rowAt j.source.position = some r) (hy : y ∈ j.related db r) :
    ∃ other ∈ (p.joined js).rows db, other.rowAt 0 = row.rowAt 0 ∧
      other.rowAt j.source.position = some r ∧ other.rowAt j.target.position = some y := by
  rw [rows_joined] at h ⊢
  obtain ⟨root, hroot, hrow⟩ := List.mem_flatMap.mp h
  obtain ⟨x, hx, rfl⟩ := List.mem_map.mp hrow
  obtain ⟨z, hz, hzs, hzt⟩ := extensions_alternate hst he (upTo_root root) hx hj hr hy
  refine ⟨(.entity 0, root) :: z, ?_, ?_, hzs, hzt⟩
  · exact List.mem_flatMap.mpr ⟨root, hroot, List.mem_map.mpr ⟨z, hz, rfl⟩⟩
  · rw [rowAt_entity, rowAt_entity]

end EntityQuery.Plan
