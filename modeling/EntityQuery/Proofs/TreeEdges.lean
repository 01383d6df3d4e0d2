import EntityQuery.Proofs.LoadRows
/-!
The relationships that the load tree of a plan follows are those of its joins. So the rows of eager
joins suit the load tree, and beside each row of a source all related rows are found.
-/
namespace EntityQuery

namespace LoadTree

/-- The occurrences in a load tree. -/
def Occurs (t : LoadTree) (o : Occurrence) : Prop := o = t.occurrence ∨ ∃ e ∈ t.edges, e.target = o

theorem edgesBelow_append (o : Occurrence) (cs ds : List (Relationship × LoadTree)) :
    edgesBelow o (cs ++ ds) = edgesBelow o cs ++ edgesBelow o ds := by
  induction cs with
  | nil => rfl
  | cons c cs ih =>
    obtain ⟨q, t⟩ := c
    simp [edgesBelow, ih]

theorem mem_edgesBelow_insertChild {o : Occurrence} {q : Relationship} {t : LoadTree}
    {cs : List (Relationship × LoadTree)} {e : Edge} :
    e ∈ edgesBelow o (insertChild o.entity q t cs) ↔
      e ∈ edgesBelow o cs ∨ e = ⟨o, q, t.occurrence⟩ ∨ e ∈ t.edges := by
  unfold insertChild
  dsimp only
  rw [edgesBelow_append]
  conv =>
    rhs
    rw [← List.takeWhile_append_dropWhile (l := cs) (p := fun c =>
      decide (o.entity.relationshipIndex c.1.name ≤ o.entity.relationshipIndex q.name)),
      edgesBelow_append]
  simp only [edgesBelow, List.mem_append, List.mem_cons]
  constructor
  · rintro (h | h | h | h)
    · exact .inl (.inl h)
    · exact .inr (.inl h)
    · exact .inr (.inr h)
    · exact .inl (.inr h)
  · rintro ((h | h) | h | h)
    · exact .inl h
    · exact .inr (.inr (.inr h))
    · exact .inr (.inl h)
    · exact .inr (.inr (.inl h))

variable {parent : Nat} {q : Relationship} {target : LoadTree}

mutual

/-- The relationships of a tree stay when a target is attached. -/
theorem edges_subset_attach (t : LoadTree) :
    ∀ e ∈ t.edges, e ∈ (attach parent q target t).edges := by
  obtain ⟨o, fs, cs⟩ := t
  unfold attach
  split
  · exact fun e he => mem_edgesBelow_insertChild.mpr (.inl he)
  · exact edgesBelow_subset_attachBelow o cs

theorem edgesBelow_subset_attachBelow (o : Occurrence) (cs : List (Relationship × LoadTree)) :
    ∀ e ∈ edgesBelow o cs, e ∈ edgesBelow o (attachBelow parent q target cs) := by
  cases cs with
  | nil => exact fun _ h => absurd h List.not_mem_nil
  | cons c rest =>
    obtain ⟨r, t⟩ := c
    intro e he
    simp only [attachBelow, mem_edgesBelow_cons, Plan.occurrence_attach] at he ⊢
    rcases he with he | he | he
    · exact .inl he
    · exact .inr (.inl (edges_subset_attach t e he))
    · exact .inr (.inr (edgesBelow_subset_attachBelow o rest e he))

end

mutual

/-- What attaching a target adds: the relationship from its parent, and those of the target. -/
theorem mem_edges_attach (t : LoadTree) {e : Edge} (he : e ∈ (attach parent q target t).edges) :
    e ∈ t.edges ∨ e ∈ target.edges ∨
      ∃ o, t.Occurs o ∧ o.position = parent ∧ e = ⟨o, q, target.occurrence⟩ := by
  obtain ⟨o, fs, cs⟩ := t
  unfold attach at he
  split at he
  · rename_i ho
    rcases mem_edgesBelow_insertChild.mp he with h | h | h
    · exact .inl h
    · exact .inr (.inr ⟨o, .inl rfl, ho, h⟩)
    · exact .inr (.inl h)
  · rcases mem_edgesBelow_attachBelow o cs he with h | h | ⟨i, e', he', hi, hpos, h⟩
    · exact .inl h
    · exact .inr (.inl h)
    · exact .inr (.inr ⟨i, .inr ⟨e', he', hi⟩, hpos, h⟩)

theorem mem_edgesBelow_attachBelow (o : Occurrence) (cs : List (Relationship × LoadTree))
    {e : Edge} (he : e ∈ edgesBelow o (attachBelow parent q target cs)) :
    e ∈ edgesBelow o cs ∨ e ∈ target.edges ∨
      ∃ i, ∃ e' ∈ edgesBelow o cs, e'.target = i ∧ i.position = parent ∧
        e = ⟨i, q, target.occurrence⟩ := by
  cases cs with
  | nil => cases he
  | cons c rest =>
    obtain ⟨r, t⟩ := c
    simp only [attachBelow, mem_edgesBelow_cons, Plan.occurrence_attach] at he
    rcases he with he | he | he
    · exact .inl (by simp [he])
    · rcases mem_edges_attach t he with h | h | ⟨i, hi, hpos, h⟩
      · exact .inl (by simp [h])
      · exact .inr (.inl h)
      · rcases hi with rfl | ⟨e', he', hi⟩
        · exact .inr (.inr ⟨_, ⟨o, r, t.occurrence⟩, by simp, rfl, hpos, h⟩)
        · exact .inr (.inr ⟨i, e', by simp [he'], hi, hpos, h⟩)
    · rcases mem_edgesBelow_attachBelow o rest he with h | h | ⟨i, e', he', hi, hpos, h⟩
      · exact .inl (by simp [h])
      · exact .inr (.inl h)
      · exact .inr (.inr ⟨i, e', by simp [he'], hi, hpos, h⟩)

end

mutual

/-- A target is attached to its parent, if this is there. -/
theorem exists_edge_attach (t : LoadTree) {o : Occurrence} (ho : t.Occurs o)
    (hpos : o.position = parent) :
    ∃ i, t.Occurs i ∧ i.position = parent ∧
      ⟨i, q, target.occurrence⟩ ∈ (attach parent q target t).edges := by
  obtain ⟨p, fs, cs⟩ := t
  unfold attach
  split
  · rename_i hp
    exact ⟨p, .inl rfl, hp, mem_edgesBelow_insertChild.mpr (.inr (.inl rfl))⟩
  · rename_i hp
    rcases ho with rfl | ⟨e, he, rfl⟩
    · exact absurd hpos hp
    · obtain ⟨i, ⟨e', he', hi⟩, hipos, hmem⟩ := exists_edge_attachBelow p cs he hpos
      exact ⟨i, .inr ⟨e', he', hi⟩, hipos, hmem⟩

theorem exists_edge_attachBelow (p : Occurrence) (cs : List (Relationship × LoadTree)) {e : Edge}
    (he : e ∈ edgesBelow p cs) (hpos : e.target.position = parent) :
    ∃ i, (∃ e' ∈ edgesBelow p cs, e'.target = i) ∧ i.position = parent ∧
      ⟨i, q, target.occurrence⟩ ∈ edgesBelow p (attachBelow parent q target cs) := by
  cases cs with
  | nil => cases he
  | cons c rest =>
    obtain ⟨r, t⟩ := c
    have hoccurs : t.Occurs e.target ∨ e ∈ edgesBelow p rest := by
      rcases mem_edgesBelow_cons.mp he with rfl | he | he
      · exact .inl (.inl rfl)
      · exact .inl (.inr ⟨e, he, rfl⟩)
      · exact .inr he
    rcases hoccurs with ho | he
    · obtain ⟨i, hi, hipos, hmem⟩ := exists_edge_attach t ho hpos
      refine ⟨i, ?_, hipos, by simp [attachBelow, hmem]⟩
      rcases hi with rfl | ⟨e', he', hi⟩
      · exact ⟨⟨p, r, t.occurrence⟩, by simp, rfl⟩
      · exact ⟨e', by simp [he'], hi⟩
    · obtain ⟨i, ⟨e', he', hi⟩, hipos, hmem⟩ := exists_edge_attachBelow p rest he hpos
      exact ⟨i, ⟨e', by simp [he'], hi⟩, hipos, by simp [attachBelow, hmem]⟩

end

end LoadTree

namespace Plan

variable {s : Schema} {p : Plan}

/-- The relationship that a join follows. -/
def ResolvedJoin.edge (j : ResolvedJoin) : Edge := ⟨j.source, j.relationship, j.target⟩

/-- A load tree holds the occurrences of a plan up to a place. -/
structure Covers (p : Plan) (place : Nat) (t : LoadTree) : Prop where
  sound : ∀ o, t.Occurs o → ∃ k ≤ place, p.occurrence? k = some o
  complete : ∀ k ≤ place, ∀ o, p.occurrence? k = some o → t.Occurs o

theorem mem_edges_attachJoin {place : Nat} {j : ResolvedJoin} {js : List ResolvedJoin}
    {t : LoadTree} (hst : Staged s p place (j :: js)) (hc : Covers p place t) (e : Edge) :
    e ∈ (LoadTree.attach j.source.position j.relationship (.node j.target j.fields []) t).edges ↔
      e ∈ t.edges ∨ e = j.edge := by
  obtain ⟨⟨k, hk, hsource⟩, -⟩ := hst
  have hunique : ∀ i, t.Occurs i → i.position = j.source.position → i = j.source := by
    intro i hi hpos
    obtain ⟨k', -, hi'⟩ := hc.sound i hi
    have h1 := occurrence?_position hi'
    have h2 := occurrence?_position hsource
    have hkk : k' = k := by omega
    subst hkk
    exact Option.some.inj (hi'.symm.trans hsource)
  constructor
  · intro he
    rcases LoadTree.mem_edges_attach t he with h | h | ⟨o, ho, hpos, rfl⟩
    · exact .inl h
    · cases h
    · rw [hunique o ho hpos]
      exact .inr rfl
  · rintro (h | rfl)
    · exact LoadTree.edges_subset_attach t e h
    · obtain ⟨i, hi, hpos, hmem⟩ := LoadTree.exists_edge_attach t (q := j.relationship)
        (hc.complete k hk _ hsource) rfl
      rw [hunique i hi hpos] at hmem
      exact hmem

theorem covers_attachJoin {place : Nat} {j : ResolvedJoin} {js : List ResolvedJoin} {t : LoadTree}
    (hst : Staged s p place (j :: js)) (hc : Covers p place t) :
    Covers p (place + 1)
      (LoadTree.attach j.source.position j.relationship (.node j.target j.fields []) t) := by
  have hedges := mem_edges_attachJoin hst hc
  have htarget := hst.2.1
  constructor
  · rintro o (rfl | ⟨e, he, rfl⟩)
    · rw [occurrence_attach]
      obtain ⟨k, hk, ho⟩ := hc.sound t.occurrence (.inl rfl)
      exact ⟨k, Nat.le_succ_of_le hk, ho⟩
    · rcases (hedges e).mp he with h | rfl
      · obtain ⟨k, hk, ho⟩ := hc.sound e.target (.inr ⟨e, h, rfl⟩)
        exact ⟨k, Nat.le_succ_of_le hk, ho⟩
      · exact ⟨place + 1, Nat.le_refl _, htarget⟩
  · intro k hk o ho
    rcases Nat.lt_or_ge place k with hlt | hge
    · have hkp : k = place + 1 := by omega
      subst hkp
      cases htarget.symm.trans ho
      exact .inr ⟨j.edge, (hedges _).mpr (.inr rfl), rfl⟩
    · rcases hc.complete k hge o ho with rfl | ⟨e, he, hoe⟩
      · exact .inl (occurrence_attach _ _ _ _).symm
      · exact .inr ⟨e, (hedges e).mpr (.inl he), hoe⟩

/-- The relationships of the load tree are those of the joins. -/
theorem mem_edges_loadTree {js : List ResolvedJoin} (hst : Staged s p 0 js) (e : Edge) :
    e ∈ (p.loadTree js).edges ↔ ∃ j ∈ js, e = j.edge := by
  have hfold : ∀ {place : Nat} {t : LoadTree}, Staged s p place js → Covers p place t →
      (e ∈ (js.foldl (fun t j => LoadTree.attach j.source.position j.relationship
        (.node j.target j.fields []) t) t).edges ↔ e ∈ t.edges ∨ ∃ j ∈ js, e = j.edge) := by
    clear hst
    induction js with
    | nil => simp
    | cons j js ih =>
      intro place t hst hc
      rw [List.foldl_cons, ih hst.2.2.2.2 (covers_attachJoin hst hc),
        mem_edges_attachJoin hst hc]
      simp [or_assoc]
  have hroot : Covers p 0 (.node (rootOccurrence p.root) p.fields []) := by
    constructor
    · rintro o (rfl | ⟨e, he, -⟩)
      · exact ⟨0, Nat.le_refl 0, rfl⟩
      · cases he
    · intro k hk o ho
      have : k = 0 := by omega
      subst this
      cases ho
      exact .inl rfl
  rw [show (e ∈ (p.loadTree js).edges) = _ from rfl, loadTree, hfold hst hroot]
  simp [LoadTree.edges, LoadTree.edgesBelow]

end Plan
end EntityQuery
