import EntityQuery.Proofs.EagerLoad
import EntityQuery.Proofs.Unfold
/-!
What a record shows of a row. Along the joins of a plan, a collection lists exactly the related rows,
each once, and a single reference is the related row or null, apart from entities that are already on
the way from the root.
-/
namespace EntityQuery

open Value

/-- A record shows the key of a row. -/
def Entity.ShowsKey (e : Entity) (r : Row) (es : List (Value × Value)) : Prop :=
  ∀ c ∈ e.keyColumns, lookupText c.field es = some (c.shown (r.get c.name))

namespace Plan

/-- What stands under the name of a joined relationship of a row. A collection lists the related rows
that are not on the way, each once. A single reference is a related row, left out if it is on the way,
or null if there is none; a reference to a single entity has at most one related row. -/
def ResolvedJoin.Entry (db : Database) (j : ResolvedJoin) (way : List EntityKey) (r : Row)
    (shown : Row → Value → Prop) (o : Option Value) : Prop :=
  if j.relationship.many then
    ∃ ys vs, o = some (.list vs) ∧ ys.Nodup ∧
      (∀ y, y ∈ ys ↔ y ∈ j.related db r ∧ j.target.entity.keyOf y ∉ way) ∧
      List.Forall₂ shown ys vs
  else
    (j.related db r = [] ∧ o = some .null) ∨
    ∃ y ∈ j.related db r, (j.relationship.isManyToOne = true → ∀ z ∈ j.related db r, z = y) ∧
      ((j.target.entity.keyOf y ∈ way ∧ o = none) ∨
        (j.target.entity.keyOf y ∉ way ∧ ∃ v, o = some v ∧ shown y v))

/-- A record shows all joins that start at a row found at a place, and its items the joins that start
at them; `way` are the entities from this one up to the root. -/
def ShowsJoins (db : Database) :
    List ResolvedJoin → Nat → List EntityKey → Row → List (Value × Value) → Prop
  | [], _, _, _, _ => True
  | j :: js, place, way, r, es =>
    (j.source.position = place → j.Entry db way r
      (fun y v => ∃ fs, v = .mapping fs ∧ j.target.entity.ShowsKey y fs ∧
        ShowsJoins db js j.target.position (j.target.entity.keyOf y :: way) y fs)
      (lookupText j.relationship.name es)) ∧
    ShowsJoins db js place way r es

/-- A value is the record of a row found at an occurrence. -/
def Shows (db : Database) (js : List ResolvedJoin) (o : Occurrence) (way : List EntityKey)
    (r : Row) (v : Value) : Prop :=
  ∃ es, v = .mapping es ∧ o.entity.ShowsKey r es ∧
    ShowsJoins db js o.position (o.entity.keyOf r :: way) r es

end Plan

theorem Graph.mem_keys_of_has {g : Graph} {x : EntityKey} (h : g.Has x) :
    x ∈ g.nodes.map (·.key) := by
  obtain ⟨n, hn⟩ := Option.isSome_iff_exists.mp h
  exact List.mem_map.mpr ⟨n, List.mem_of_find?_eq_some hn, key_of_node? hn⟩

/-- A way never meets an entity twice, so it is no longer than there are entities. -/
theorem Graph.length_way_le {g : Graph} {way : List EntityKey} (hn : way.Nodup)
    (h : ∀ x ∈ way, g.Has x) : way.length ≤ g.nodes.length := by
  have hsub : way.Subperm (g.nodes.map (·.key)) :=
    List.subperm_of_subset hn fun x hx => mem_keys_of_has (h x hx)
  simpa using hsub.length_le

theorem exists_rows_of_keys {e : Entity} {P : Row → Prop} {ks : List EntityKey}
    (h : ∀ k ∈ ks, ∃ y, P y ∧ k = e.keyOf y) :
    ∃ ys : List Row, ys.map e.keyOf = ks ∧ ∀ y ∈ ys, P y := by
  induction ks with
  | nil => exact ⟨[], rfl, fun _ h => absurd h List.not_mem_nil⟩
  | cons k ks ih =>
    obtain ⟨y, hy, rfl⟩ := h k List.mem_cons_self
    obtain ⟨ys, hys, hmem⟩ := ih fun k hk => h k (List.mem_cons_of_mem _ hk)
    refine ⟨y :: ys, by rw [List.map_cons, hys], fun z hz => ?_⟩
    rcases List.mem_cons.mp hz with rfl | hz
    · exact hy
    · exact hmem z hz

namespace Plan

variable {s : Schema} {db : Database} {p : Plan} {js : List ResolvedJoin} {rows : List JoinedRow}
  {g : Graph}

/-- The loaded entity of a row that is reached at an occurrence. -/
theorem Loaded.node (hs : s.WellFormed) (hdb : db.Sound s) (hg : Loaded s db p js rows g)
    {o : Occurrence} {k : Nat} (hk : k ≤ js.length) (ho : p.occurrence? k = some o) {r : Row}
    (hr : Reached rows k r) {n : Node} (hn : g.node? (o.entity.keyOf r) = some n) :
    n.StandsFor s db r ∧ n.Shows r ∧ (∀ c ∈ o.entity.columns, c ∈ n.entity.columns) ∧
      (∀ q ∈ o.entity.relationships, q ∈ n.entity.relationships) ∧
      ∀ q ∈ o.entity.relationships, ∀ target, s.entity? q.target = some target →
        ∀ ref, n.reference? q.name = some ref → ref.Exact db q target r := by
  obtain ⟨row, hrow, hat⟩ := hr
  have hholds := hg.holds row hrow k hk o ho
  have hpos := occurrence?_position ho
  subst hpos
  have hexact := hg.exact _ n hn
  obtain ⟨a, ha, hshows, -⟩ := hexact
  obtain ⟨rfl, hcolumns, hrelations⟩ := ha.covers hs hdb hholds hat (Graph.key_of_node? hn)
  exact ⟨ha, hshows, hcolumns, hrelations, fun q hq target ht ref href =>
    (hg.exact _ n hn).reference hs hdb hholds hat (Graph.key_of_node? hn) hq ht href⟩

theorem showsKey_of_node (hs : s.WellFormed) {n : Node} {r : Row} {e : Entity}
    (he : e ∈ s.entities) (hn : n.StandsFor s db r) (hshows : n.Shows r)
    (hkey : n.key = e.keyOf r) (hcolumns : ∀ c ∈ e.columns, c ∈ n.entity.columns)
    {es : List (Value × Value)}
    (hes : ∀ c ∈ n.entity.columns, ∀ w, n.column? c.field = some w →
      lookupText c.field es = some w) : e.ShowsKey r es := by
  intro c hc
  have hroot : n.entity.rootName = e.rootName :=
    congrArg EntityKey.family (hn.key.symm.trans hkey)
  have hck : c ∈ n.entity.keyColumns := by
    rw [keyColumns_of_table hs hn.entity he ((hs.family_table _ hn.entity _ he).mp hroot)]
    exact hc
  have hcn := hcolumns c (List.mem_filter.mp hc).1
  obtain ⟨w, hw⟩ := Option.isSome_iff_exists.mp (hshows.keys c hck)
  obtain ⟨c', hc', hfield, rfl⟩ := hshows.shown c.field w hw
  have hsame : c' = c := List.inj_on_of_nodup_map
    (List.nodup_append.mp (hs.member_names _ hn.entity)).1 hc' hcn hfield
  rw [hes c hcn _ hw, hsame]

variable {u : Unfolding}

/-- The rows that a collection of keys lists: the related rows that are not on the way, each once. -/
theorem exists_listed (hs : s.WellFormed) (hdb : db.Sound s) {j : ResolvedJoin}
    (hfit : j.Fitting s) {r : Row} {ks : List EntityKey} (hnodup : ks.Nodup)
    (hks : ∀ k ∈ ks, ∃ y, y ∈ j.related db r ∧ k = j.target.entity.keyOf y)
    (hcomplete : ∀ y ∈ j.related db r, j.target.entity.keyOf y ∈ ks) (way : List EntityKey) :
    ∃ ys : List Row, ys.map j.target.entity.keyOf = ks.filter (fun k => !way.contains k) ∧
      ys.Nodup ∧ ∀ y, y ∈ ys ↔ y ∈ j.related db r ∧ j.target.entity.keyOf y ∉ way := by
  have hin : ∀ {k}, k ∈ ks.filter (fun k => !way.contains k) ↔ k ∈ ks ∧ k ∉ way := by
    intro k
    simp [List.mem_filter]
  obtain ⟨ys, hys, hrelated⟩ := exists_rows_of_keys fun k hk => hks k (hin.mp hk).1
  refine ⟨ys, hys, .of_map j.target.entity.keyOf (hys ▸ hnodup.filter _), fun y => ⟨fun hy => ?_, ?_⟩⟩
  · exact ⟨hrelated y hy, (hin.mp (hys ▸ List.mem_map_of_mem hy)).2⟩
  · rintro ⟨hy, hway⟩
    have hmem : j.target.entity.keyOf y ∈ ys.map j.target.entity.keyOf := by
      rw [hys]
      exact hin.mpr ⟨hcomplete y hy, hway⟩
    obtain ⟨z, hz, hzy⟩ := List.mem_map.mp hmem
    have hrow := row_of_keyOf hs hdb hfit.target hfit.target
      (mem_related.mp (hrelated z hz)).1 (mem_related.mp hy).1 hzy
    exact hrow.1 ▸ hz

/-- The entry of one join, where its targets are shown as they should be. -/
theorem entry_of_shownAs (hs : s.WellFormed) (hdb : db.Sound s) {j : ResolvedJoin}
    (hfit : j.Fitting s) {way : List EntityKey} {r : Row} (hr : ∀ column, (r.get column).Proper)
    {ref : Reference} (hexact : ref.Exact db j.relationship j.target.entity r)
    (hcomplete : j.relationship.many = true →
      ∀ y ∈ j.related db r, j.target.entity.keyOf y ∈ ref.items)
    {record : Graph → EntityKey → Unfolded} {o : Option Value}
    (hshown : ref.ShownAs record way g o) {shown : Row → Value → Prop}
    (hrecord : ∀ y ∈ j.related db r, j.target.entity.keyOf y ∉ way → ∀ v,
      record g (j.target.entity.keyOf y) = .ok (v, g) → shown y v) : j.Entry db way r shown o := by
  unfold ResolvedJoin.Entry
  cases ref with
  | one t =>
    rw [if_neg (by cases t <;> simp [hexact.1])]
    cases t with
    | none => exact .inl ⟨hexact.2, hshown⟩
    | some k =>
      obtain ⟨-, y, hy, rfl⟩ := hexact
      refine .inr ⟨y, hy, fun hone z hz => related_unique hs hdb hfit.target hone hfit.link hr hz hy,
        ?_⟩
      rcases hshown with ⟨hway, ho⟩ | ⟨hway, v, hv, ho⟩
      · exact .inl ⟨hway, ho⟩
      · exact .inr ⟨hway, v, ho, hrecord y hy hway v hv⟩
  | many ks =>
    obtain ⟨hmany, hnodup, hks⟩ := hexact
    rw [if_pos hmany]
    obtain ⟨vs, ho, hall⟩ := hshown
    obtain ⟨ys, hys, hysNodup, hmem⟩ := exists_listed hs hdb hfit hnodup hks (hcomplete hmany) way
    refine ⟨ys, vs, ho, hysNodup, hmem, ?_⟩
    rw [← hys, List.forall₂_map_left_iff] at hall
    refine ((List.forall₂_and_left _ _).mpr ⟨fun y hy => hy, hall⟩).imp fun y v h => ?_
    obtain ⟨hy, hway⟩ := (hmem y).mp h.1
    exact hrecord y hy hway v h.2

/-- The entry of a join of a reached row, in a record that shows the references of its loaded entity. -/
theorem Loaded.entry (hs : s.WellFormed) (hdb : db.Sound s) (hst : Staged s p 0 js)
    (he : EagerJoins s js) (hg : Loaded s db p js rows g) {j : ResolvedJoin} (hj : j ∈ js) {r : Row}
    (hr : Reached rows j.source.position r) {n : Node}
    (hn : g.node? (j.source.entity.keyOf r) = some n) (record : String → Graph → EntityKey → Unfolded)
    {way : List EntityKey} {es : List (Value × Value)}
    (hentries : ∀ q ∈ n.entity.relationships, ∀ ref, n.reference? q.name = some ref →
      ref.ShownAs (record q.name) way g (lookupText q.name es)) {shown : Row → Value → Prop}
    (hrecord : ∀ y ∈ j.related db r, j.target.entity.keyOf y ∉ way → ∀ v,
      record j.relationship.name g (j.target.entity.keyOf y) = .ok (v, g) → shown y v) :
    j.Entry db way r shown (lookupText j.relationship.name es) := by
  obtain ⟨⟨i, hi, hsource⟩, -, hentity⟩ := occurrences_of_staged hst j hj
  obtain rfl := occurrence?_position hsource
  obtain ⟨hstands, -, -, hrelations, hrefs⟩ := hg.node hs hdb (by omega) hsource hr hn
  have hfit := (he j hj).2
  have hloaded := hg.loaded j hj r hr
  rw [Graph.reference?, hn, Option.bind_some] at hloaded
  obtain ⟨ref, href⟩ := Option.isSome_iff_exists.mp hloaded
  refine entry_of_shownAs hs hdb hfit
    (fun column => hdb.proper hs hstands.entity hstands.stored column)
    (hrefs _ hfit.relationship _ hentity ref href) (fun hmany y hy => ?_)
    (hentries _ (hrelations _ hfit.relationship) ref href) hrecord
  simpa [Graph.items, Graph.reference?, hn, href] using hg.complete j hj hmany r hr y hy

/-- The record of a reached row shows it with all joins that start at it. -/
theorem unfoldTo_shows (hs : s.WellFormed) (hdb : db.Sound s) (hst : Staged s p 0 js)
    (he : EagerJoins s js) (hg : Loaded s db p js rows g) (hindex : u.index = []) (depth : Nat)
    {rest : List ResolvedJoin} (hrest : ∀ j ∈ rest, j ∈ js) {o : Occurrence} {k : Nat}
    (hk : k ≤ js.length) (ho : p.occurrence? k = some o) {r : Row} (hr : Reached rows k r)
    {way : List EntityKey} (hway : (o.entity.keyOf r :: way).Nodup)
    (hhas : ∀ x ∈ o.entity.keyOf r :: way, g.Has x)
    (hdepth : g.nodes.length ≤ depth + way.length) {path : RelationPath} {v : Value} {h : Graph}
    (hu : unfoldTo u depth way path g (o.entity.keyOf r) = .ok (v, h)) :
    Shows db rest o way r v := by
  induction depth generalizing rest o k r way path v h with
  | zero =>
    have := Graph.length_way_le hway hhas
    rw [List.length_cons] at this
    omega
  | succ depth ih =>
    obtain ⟨n, hn⟩ := Option.isSome_iff_exists.mp (hhas _ List.mem_cons_self)
    obtain ⟨hstands, hshows, hcolumns, -⟩ := hg.node hs hdb hk ho hr hn
    obtain ⟨es, rfl, hfields, hentries⟩ :=
      unfoldTo_eq_ok hindex hn (hs.member_names _ hstands.entity) hu
    obtain rfl := occurrence?_position ho
    have hentity : o.entity ∈ s.entities := by
      obtain ⟨row, hrow, -⟩ := hr
      exact (hg.holds row hrow _ hk o ho).entity
    refine ⟨es, rfl, showsKey_of_node hs hentity hstands hshows (Graph.key_of_node? hn)
      hcolumns hfields, ?_⟩
    induction rest with
    | nil => trivial
    | cons j rest ihr =>
      have hj := hrest j List.mem_cons_self
      have hrest' : ∀ j ∈ rest, j ∈ js := fun i hi => hrest i (List.mem_cons_of_mem j hi)
      refine ⟨fun hplace => ?_, ihr hrest'⟩
      obtain ⟨⟨i, -, hsource⟩, ⟨l, hl, htarget⟩, -⟩ := occurrences_of_staged hst j hj
      obtain rfl : j.source = o := by
        rw [← hplace, occurrence?_position hsource] at ho
        exact Option.some.inj (hsource.symm.trans ho)
      refine hg.entry hs hdb hst he hj hr hn (fun name => unfoldTo u depth _ (path ++ [name]))
        hentries fun y hy hnot v hv => ?_
      have hy' := hg.related j hj r hr y hy
      obtain rfl := occurrence?_position htarget
      refine ih hrest' (by omega) htarget hy' (List.nodup_cons.mpr ⟨hnot, hway⟩) (fun x hx => ?_) ?_ hv
      · rcases List.mem_cons.mp hx with rfl | hx
        · exact hg.has j hj y hy'
        · exact hhas x hx
      · rw [List.length_cons]
        omega

end Plan
end EntityQuery
