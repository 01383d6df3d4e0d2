import EntityQuery.Proofs.RootFilter
import EntityQuery.Proofs.StoredRows
import EntityQuery.Proofs.TreeEdges
/-!
What the matches of eager joins load. Rows are whole if they are matches of a plan and, with one row of
a root, hold all joined rows of this root. The graph that whole rows load leads from each entity to
exactly the related entities.
-/
namespace EntityQuery

variable {s : Schema} {db : Database} {p : Plan} {js : List Plan.ResolvedJoin}

namespace Plan

/-- With one row of a root, all joined rows of this root. -/
structure Whole (db : Database) (p : Plan) (js : List ResolvedJoin) (rows : List JoinedRow) :
    Prop where
  matched : ∀ row ∈ rows, row ∈ p.matched db js
  whole : ∀ row ∈ rows, ∀ other ∈ (p.joined js).rows db, other.rowAt 0 = row.rowAt 0 →
    other ∈ rows

/-- A row is reached at an occurrence. -/
def Reached (rows : List JoinedRow) (k : Nat) (r : Row) : Prop :=
  ∃ row ∈ rows, row.rowAt k = some r

/-- What a graph holds of the joins of a plan: at each reached row, the related rows. -/
structure Loaded (s : Schema) (db : Database) (p : Plan) (js : List ResolvedJoin)
    (rows : List JoinedRow) (g : Graph) : Prop where
  exact : g.Exact s db
  holds : ∀ row ∈ rows, ∀ k ≤ js.length, ∀ o, p.occurrence? k = some o → row.HoldsAt s db o
  has_root : ∀ r, Reached rows 0 r → g.Has (p.root.keyOf r)
  has : ∀ j ∈ js, ∀ y, Reached rows j.target.position y → g.Has (j.target.entity.keyOf y)
  loaded : ∀ j ∈ js, ∀ r, Reached rows j.source.position r →
    (g.reference? (j.source.entity.keyOf r) j.relationship.name).isSome = true
  complete : ∀ j ∈ js, j.relationship.many = true → ∀ r, Reached rows j.source.position r →
    ∀ y ∈ j.related db r,
      j.target.entity.keyOf y ∈ g.items (j.source.entity.keyOf r) j.relationship.name
  related : ∀ j ∈ js, ∀ r, Reached rows j.source.position r → ∀ y ∈ j.related db r,
    Reached rows j.target.position y

theorem suits_loadTree (hs : s.WellFormed) (hdb : db.Sound s) (hroot : p.root ∈ s.entities)
    (hst : Staged s p 0 js) (he : EagerJoins s js) {row : JoinedRow}
    (hrow : row ∈ p.matched db js) : row.Suits s db (p.loadTree js) where
  root := by
    rw [occurrence_loadTree]
    exact holdsAt_root hs hdb hroot hrow
  edge := fun e hedge => by
    obtain ⟨j, hj, rfl⟩ := (mem_edges_loadTree hst e).mp hedge
    obtain ⟨-, ⟨k, hk, htarget⟩, hentity⟩ := occurrences_of_staged hst j hj
    have hlinked := (joined_linked hst he (mem_joined_of_matched hrow)).2 j hj
    exact ⟨(he j hj).2.relationship, hentity,
      holdsAt_matched hs hdb hroot hst hrow (by omega) htarget, hlinked.present, hlinked.absent⟩

theorem closed_of_whole (hst : Staged s p 0 js) (he : EagerJoins s js) {rows : List JoinedRow}
    (hw : Whole db p js rows) : LoadTree.Closed db (p.loadTree js).edges rows := by
  intro row hrow e hedge r hr y hy
  obtain ⟨j, hj, rfl⟩ := (mem_edges_loadTree hst e).mp hedge
  obtain ⟨other, hother, hsame, hos, hot⟩ :=
    joined_alternate hst he (mem_joined_of_matched (hw.matched row hrow)) hj hr hy
  exact ⟨other, hw.whole row hrow other hother hsame, hos, hot⟩

/-- Whole rows of eager joins load the related rows of each reached row. -/
theorem loaded_of_whole (hs : s.WellFormed) (hdb : db.Sound s) (hroot : p.root ∈ s.entities)
    (hst : Staged s p 0 js) (he : EagerJoins s js) {rows : List JoinedRow}
    (hw : Whole db p js rows) {roots : List EntityKey} {g : Graph}
    (hl : loadRows s (p.loadTree js) rows = .ok (roots, g)) : Loaded s db p js rows g := by
  have hall := (LoadTree.loadRows_eq_ok hl).1
  have hsuits : ∀ row ∈ rows, row.Suits s db (p.loadTree js) := fun row hrow =>
    suits_loadTree hs hdb hroot hst he (hw.matched row hrow)
  have hholds : ∀ row ∈ rows, ∀ k ≤ js.length, ∀ o, p.occurrence? k = some o →
      row.HoldsAt s db o := fun row hrow k hk o ho =>
    holdsAt_matched hs hdb hroot hst (hw.matched row hrow) hk ho
  have hedge : ∀ j ∈ js, j.edge ∈ (p.loadTree js).edges := fun j hj =>
    (mem_edges_loadTree hst j.edge).mpr ⟨j, hj, rfl⟩
  have hsource : ∀ j ∈ js, ∀ row ∈ rows, row.HoldsAt s db j.source := fun j hj row hrow => by
    obtain ⟨⟨k, hk, hsource⟩, -⟩ := occurrences_of_staged hst j hj
    exact hholds row hrow k (by omega) _ hsource
  have htarget : ∀ j ∈ js, ∀ row ∈ rows, row.HoldsAt s db j.target := fun j hj row hrow => by
    obtain ⟨-, ⟨k, hk, htarget⟩, -⟩ := occurrences_of_staged hst j hj
    exact hholds row hrow k (by omega) _ htarget
  have hclosed := closed_of_whole hst he hw
  refine ⟨LoadTree.loadAll_exact hs hdb hsuits Graph.exact_empty hall, hholds, ?_, ?_, ?_, ?_, ?_⟩
  · rintro r ⟨row, hrow, hr⟩
    refine LoadTree.loadAll_root hall hrow ?_
    rw [occurrence_loadTree]
    exact JoinedRow.keyAt_of_rowAt hs hdb (holdsAt_root hs hdb hroot (hw.matched row hrow)) hr
  · rintro j hj y ⟨row, hrow, hy⟩
    obtain ⟨r, hr, -⟩ := (joined_linked hst he (mem_joined_of_matched (hw.matched row hrow))).2
      j hj |>.present y hy
    have hkey := JoinedRow.keyAt_of_rowAt hs hdb (hsource j hj row hrow) hr
    exact (LoadTree.loadAll_reaches hs hdb hsuits hall hrow (hedge j hj) hkey).2 _
      (JoinedRow.keyAt_of_rowAt hs hdb (htarget j hj row hrow) hy)
  · rintro j hj r ⟨row, hrow, hr⟩
    exact (LoadTree.loadAll_reaches hs hdb hsuits hall hrow (hedge j hj)
      (JoinedRow.keyAt_of_rowAt hs hdb (hsource j hj row hrow) hr)).1
  · rintro j hj hmany r ⟨row, hrow, hr⟩ y hy
    refine LoadTree.loadAll_complete hs hdb hsuits (fun row hrow e he => ?_) hclosed hall hrow
      (hedge j hj) hmany hr hy
    obtain ⟨i, hi, rfl⟩ := (mem_edges_loadTree hst e).mp he
    exact hsource i hi row hrow
  · rintro j hj r ⟨row, hrow, hr⟩ y hy
    obtain ⟨other, hother, -, hot⟩ := hclosed row hrow _ (hedge j hj) r hr y hy
    exact ⟨other, hother, hot⟩

/-- Where all conditions are on the root, the matches are whole. -/
theorem whole_of_onRoot (hconditions : ∀ q ∈ p.conditions, OnRoot q) {rows : List JoinedRow}
    (hrows : ∀ row, row ∈ rows ↔ row ∈ p.matched db js) : Whole db p js rows where
  matched := fun row hrow => (hrows row).mp hrow
  whole := fun row hrow other hother hsame => by
    refine (hrows other).mpr (List.mem_filter.mpr ⟨hother, List.all_eq_true.mpr fun q hq => ?_⟩)
    rw [holds_onRoot (hconditions q hq) hsame]
    exact List.all_eq_true.mp (List.mem_filter.mp ((hrows row).mp hrow)).2 q hq

end Plan
end EntityQuery
