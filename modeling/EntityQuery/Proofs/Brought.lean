import EntityQuery.Proofs.SomeRows
import EntityQuery.Proofs.StoredRows
import EntityQuery.Proofs.TreeEdges
/-!
What rows bring. A row brings an entity at the root or at the target of a join whose source it brings too.
A loaded entity shows the fields that are loaded wherever rows bring it, and has the references of the
joins that start there; these lead to what a row brings at the other end.
-/
namespace EntityQuery

/-- A place of a load tree that a row reaches: the entity there, its occurrence and its loaded fields. -/
structure Visit where
  key : EntityKey
  occurrence : Occurrence
  fields : List String

/-- The names of the fields that are loaded at a place. -/
def Visit.loaded (v : Visit) : List String :=
  (LoadTree.loadedColumns v.occurrence.entity v.fields).map (·.field)

namespace LoadTree

mutual

/-- The places that a row reaches. Nothing is reached below an entity that is not there. -/
def visits (row : JoinedRow) : LoadTree → List Visit
  | node o fields cs => match row.keyAt o with
    | none => []
    | some k => ⟨k, o, fields⟩ :: visitsBelow row cs

def visitsBelow (row : JoinedRow) : List (Relationship × LoadTree) → List Visit
  | [] => []
  | (_, t) :: rest => visits row t ++ visitsBelow row rest

end

mutual

/-- The relationships that a row follows, each from the entity that it starts at. -/
def bonds (row : JoinedRow) : LoadTree → List (EntityKey × Edge)
  | node o _ cs => match row.keyAt o with
    | none => []
    | some k => bondsBelow row o k cs

def bondsBelow (row : JoinedRow) (o : Occurrence) (k : EntityKey) :
    List (Relationship × LoadTree) → List (EntityKey × Edge)
  | [] => []
  | (q, t) :: rest => (k, ⟨o, q, t.occurrence⟩) :: (bonds row t ++ bondsBelow row o k rest)

end

end LoadTree

/-- Whether a field of an entity is loaded. -/
def Graph.shows (g : Graph) (x : EntityKey) (field : String) : Bool :=
  ((g.node? x).bind (·.column? field)).isSome

namespace Graph

variable {g : Graph} {key : EntityKey}

theorem shows_modify_setReference (g : Graph) (key x : EntityKey) (name field : String)
    (f : Node → Reference) :
    (g.modify key fun n => n.setReference name (f n)).shows x field = g.shows x field := by
  have hkey : ∀ n : Node, (n.setReference name (f n)).key = n.key := fun _ => rfl
  unfold shows
  rw [node?_modify g key x hkey]
  split
  · cases g.node? x <;> rfl
  · rfl

theorem shows_opened (isNew : Bool) (q : Relationship) (x : EntityKey) (field : String) :
    (g.opened key isNew q).shows x field = g.shows x field := by
  unfold opened
  split
  · exact shows_modify_setReference g key x q.name field fun _ => .many []
  · rfl

theorem shows_placed (isNew : Bool) (q : Relationship) (target : Option EntityKey) (x : EntityKey)
    (field : String) : (g.placed key isNew q target).shows x field = g.shows x field :=
  shows_modify_setReference g key x q.name field _

theorem shows_addColumns (hg : g.Has key) (columns : List Column) (row : Row) (x : EntityKey)
    (field : String) : (g.modify key (·.addColumns (shownColumns columns row))).shows x field = true ↔
      g.shows x field = true ∨ x = key ∧ field ∈ columns.map (·.field) := by
  have hkey : ∀ n : Node, (n.addColumns (shownColumns columns row)).key = n.key := fun _ => rfl
  obtain ⟨n, hn⟩ := Option.isSome_iff_exists.mp hg
  unfold shows
  rw [node?_modify g key x hkey]
  by_cases hx : x = key
  · subst hx
    simp [hn, Node.column?_addColumns, shownColumns, @eq_comm _ field]
  · simp [hx]

theorem shows_add (hg : ¬ g.Has key) (m : Entity) (columns : List Column) (row : Row) (x : EntityKey)
    (field : String) : (g.add ⟨key, m, shownColumns columns row, []⟩).shows x field = true ↔
      g.shows x field = true ∨ x = key ∧ field ∈ columns.map (·.field) := by
  have hnone : g.node? key = none := by simpa [Has] using hg
  unfold shows
  rw [node?_add]
  by_cases hx : x = key
  · subst hx
    simp [hnone, Node.column?, shownColumns, @eq_comm _ field]
  · have hne : ¬ key = x := fun e => hx e.symm
    simp [hx, hne]

end Graph

namespace LoadTree

variable {s : Schema} {row : JoinedRow}

mutual

/-- A row loads the same fields into every graph. -/
theorem load_shows {t : LoadTree} {g h : Graph} {key : Option EntityKey}
    (hl : t.load s row g = .ok (key, h)) (x : EntityKey) (field : String) :
    h.shows x field = true ↔
      g.shows x field = true ∨ ∃ v ∈ t.visits row, x = v.key ∧ field ∈ v.loaded := by
  obtain ⟨o, fields, cs⟩ := t
  rcases load_eq_ok hl with ⟨hk, -, rfl⟩ | ⟨k, hk, -, ⟨hg, hbelow⟩ | ⟨member, hg, -, hbelow⟩⟩
  · simp [visits, hk]
  · have hshown := Graph.shows_addColumns hg (loadedColumns o.entity fields)
      ((List.lookup (.entity o.position) row).getD []) x field
    rw [loadBelow_shows hbelow]
    simp only [visits, hk, List.mem_cons, exists_eq_or_imp]
    rw [← or_assoc]
    exact or_congr_left hshown
  · have hshown := Graph.shows_add hg member (loadedColumns o.entity fields)
      ((List.lookup (.entity o.position) row).getD []) x field
    rw [loadBelow_shows hbelow]
    simp only [visits, hk, List.mem_cons, exists_eq_or_imp]
    rw [← or_assoc]
    exact or_congr_left hshown

theorem loadBelow_shows {cs : List (Relationship × LoadTree)} {key : EntityKey} {isNew : Bool}
    {g h : Graph} (hl : loadBelow s row key isNew g cs = .ok h) (x : EntityKey) (field : String) :
    h.shows x field = true ↔
      g.shows x field = true ∨ ∃ v ∈ visitsBelow row cs, x = v.key ∧ field ∈ v.loaded := by
  cases cs with
  | nil =>
    cases hl
    simp [visitsBelow]
  | cons c rest =>
    obtain ⟨q, t⟩ := c
    obtain ⟨i, hi, hrest⟩ := loadBelow_cons_eq_ok hl
    rw [loadBelow_shows hrest, Graph.shows_placed, load_shows hi, Graph.shows_opened]
    simp [visitsBelow, or_and_right, exists_or, or_assoc]

end

mutual

/-- The relationships that a row loads are those that it follows. -/
theorem mem_touched_iff {t : LoadTree} {x : EntityKey} {name : String} :
    (x, name) ∈ t.touched row ↔ ∃ b ∈ t.bonds row, x = b.1 ∧ name = b.2.relationship.name := by
  obtain ⟨o, fields, cs⟩ := t
  unfold touched bonds
  cases row.keyAt o with
  | none => simp
  | some k => exact mem_touchedBelow_iff

theorem mem_touchedBelow_iff {o : Occurrence} {k : EntityKey} {cs : List (Relationship × LoadTree)}
    {x : EntityKey} {name : String} : (x, name) ∈ touchedBelow row k cs ↔
      ∃ b ∈ bondsBelow row o k cs, x = b.1 ∧ name = b.2.relationship.name := by
  cases cs with
  | nil => simp [touchedBelow, bondsBelow]
  | cons c rest =>
    obtain ⟨q, t⟩ := c
    simp [touchedBelow, bondsBelow, mem_touched_iff, mem_touchedBelow_iff (o := o), or_and_right,
      exists_or]

end

/-- A target that a row places into a relationship. -/
def Places (row : JoinedRow) (x : EntityKey) (name : String) (y : EntityKey)
    (b : EntityKey × Edge) : Prop :=
  x = b.1 ∧ name = b.2.relationship.name ∧ row.keyAt b.2.target = some y

mutual

/-- What a relationship leads to once a row is loaded, it led to before, or the row brings it there. -/
theorem mem_items_load {t : LoadTree} {g h : Graph} {key : Option EntityKey}
    (hl : t.load s row g = .ok (key, h)) {x y : EntityKey} {name : String}
    (hy : y ∈ h.items x name) : y ∈ g.items x name ∨ ∃ b ∈ t.bonds row, Places row x name y b := by
  obtain ⟨o, fields, cs⟩ := t
  rcases load_eq_ok hl with ⟨hk, -, rfl⟩ | ⟨k, hk, -, ⟨hg, hbelow⟩ | ⟨member, hg, -, hbelow⟩⟩
  · exact .inl hy
  · have hhas := (Graph.has_addColumns g k k (row.shownAt o fields)).mpr hg
    unfold bonds
    rw [hk]
    rw [← Graph.items_eq (Graph.reference?_addColumns g k x (row.shownAt o fields) name)]
    exact mem_items_loadBelow hhas hbelow hy
  · have hhas := (Graph.has_add g ⟨k, member, row.shownAt o fields, []⟩ k).mpr (.inr rfl)
    unfold bonds
    rw [hk]
    rw [← Graph.items_eq (Graph.reference?_add (g := g) (n := ⟨k, member, row.shownAt o fields, []⟩) rfl x name)]
    exact mem_items_loadBelow hhas hbelow hy

theorem mem_items_loadBelow {o : Occurrence} {cs : List (Relationship × LoadTree)} {key : EntityKey}
    {isNew : Bool} {g h : Graph} (hg : g.Has key) (hl : loadBelow s row key isNew g cs = .ok h)
    {x y : EntityKey} {name : String} (hy : y ∈ h.items x name) :
    y ∈ g.items x name ∨ ∃ b ∈ bondsBelow row o key cs, Places row x name y b := by
  cases cs with
  | nil =>
    cases hl
    exact .inl hy
  | cons c rest =>
    obtain ⟨q, t⟩ := c
    obtain ⟨i, hi, hrest⟩ := loadBelow_cons_eq_ok hl
    have hihas : i.Has key := (load_grows hi).1.has _ ((Graph.has_opened _).mpr hg)
    simp only [bondsBelow, List.mem_cons, List.mem_append, or_and_right, exists_or]
    rcases mem_items_loadBelow (o := o) ((Graph.has_placed _).mpr hihas) hrest hy with h | h
    · rcases Graph.mem_items_of_placed hihas h with h | ⟨rfl, rfl, htarget⟩
      · rcases mem_items_load hi h with h | h
        · exact .inl (Graph.mem_items_of_opened hg h)
        · exact .inr (.inr (.inl h))
      · exact .inr (.inl ⟨_, rfl, rfl, rfl, htarget⟩)
    · exact .inr (.inr (.inr h))

end

variable {t : LoadTree} {g h : Graph} {rows : List JoinedRow}

theorem loadAll_shows (hl : t.loadAll s g rows = .ok h) (x : EntityKey) (field : String) :
    h.shows x field = true ↔ g.shows x field = true ∨
      ∃ row ∈ rows, ∃ v ∈ t.visits row, x = v.key ∧ field ∈ v.loaded := by
  induction rows generalizing g with
  | nil =>
    cases hl
    simp
  | cons row rows ih =>
    obtain ⟨key, i, hload, hrest⟩ := loadAll_cons_eq_ok hl
    rw [ih hrest, load_shows hload]
    simp [or_assoc]

theorem mem_items_loadAll (hl : t.loadAll s g rows = .ok h) {x y : EntityKey} {name : String}
    (hy : y ∈ h.items x name) :
    y ∈ g.items x name ∨ ∃ row ∈ rows, ∃ b ∈ t.bonds row, Places row x name y b := by
  induction rows generalizing g with
  | nil =>
    cases hl
    exact .inl hy
  | cons row rows ih =>
    obtain ⟨key, i, hload, hrest⟩ := loadAll_cons_eq_ok hl
    rcases ih hrest with h | ⟨other, hother, h⟩
    · rcases mem_items_load hload h with h | h
      · exact .inl h
      · exact .inr ⟨row, List.mem_cons_self, h⟩
    · exact .inr ⟨other, List.mem_cons_of_mem row hother, h⟩

/-! ### Places of a plan -/

theorem visitsBelow_append (row : JoinedRow) (cs ds : List (Relationship × LoadTree)) :
    visitsBelow row (cs ++ ds) = visitsBelow row cs ++ visitsBelow row ds := by
  induction cs with
  | nil => rfl
  | cons c cs ih =>
    obtain ⟨q, t⟩ := c
    simp [visitsBelow, ih]

theorem mem_visitsBelow_insertChild {e : Entity} {q : Relationship} {t : LoadTree}
    {cs : List (Relationship × LoadTree)} {v : Visit} :
    v ∈ visitsBelow row (insertChild e q t cs) ↔ v ∈ visitsBelow row cs ∨ v ∈ t.visits row := by
  unfold insertChild
  dsimp only
  rw [visitsBelow_append]
  conv =>
    rhs
    rw [← List.takeWhile_append_dropWhile (l := cs) (p := fun c =>
      decide (e.relationshipIndex c.1.name ≤ e.relationshipIndex q.name)), visitsBelow_append]
  simp only [visitsBelow, List.mem_append]
  tauto

theorem mem_visits_leaf {o : Occurrence} {fields : List String} {v : Visit} :
    v ∈ (node o fields []).visits row ↔
      row.keyAt o = some v.key ∧ v.occurrence = o ∧ v.fields = fields := by
  unfold visits
  cases row.keyAt o with
  | none => simp
  | some k =>
    obtain ⟨x, i, fs⟩ := v
    simp only [visitsBelow, List.mem_singleton, Visit.mk.injEq, Option.some.injEq, eq_comm (a := k)]

section Attach

variable {parent : Nat} {q : Relationship} {target : LoadTree}

mutual

/-- A row that reaches a place reaches what is attached there, if it is there. -/
theorem mem_visits_attach (t : LoadTree) {v : Visit} :
    v ∈ (attach parent q target t).visits row ↔ v ∈ t.visits row ∨
      v ∈ target.visits row ∧ ∃ w ∈ t.visits row, w.occurrence.position = parent := by
  obtain ⟨o, fields, cs⟩ := t
  unfold attach
  split
  · rename_i ho
    simp only [visits]
    cases row.keyAt o with
    | none => simp
    | some k =>
      simp only [List.mem_cons, mem_visitsBelow_insertChild, exists_eq_or_imp, ho, true_or, and_true,
        or_assoc]
  · rename_i ho
    have hbelow := mem_visitsBelow_attachBelow (v := v) cs
    simp only [visits]
    cases row.keyAt o with
    | none => simp
    | some k => simp only [List.mem_cons, hbelow, exists_eq_or_imp, ho, false_or, or_assoc]

theorem mem_visitsBelow_attachBelow (cs : List (Relationship × LoadTree)) {v : Visit} :
    v ∈ visitsBelow row (attachBelow parent q target cs) ↔ v ∈ visitsBelow row cs ∨
      v ∈ target.visits row ∧ ∃ w ∈ visitsBelow row cs, w.occurrence.position = parent := by
  cases cs with
  | nil => simp [attachBelow, visitsBelow]
  | cons c rest =>
    obtain ⟨r, t⟩ := c
    simp only [attachBelow, visitsBelow, List.mem_append, mem_visits_attach t,
      mem_visitsBelow_attachBelow rest, or_and_right, exists_or, and_or_left]
    exact or_or_or_comm

end

end Attach

mutual

/-- A row follows a relationship of the tree from an entity that it reaches. -/
theorem visit_of_bond {t : LoadTree} {b : EntityKey × Edge} (hb : b ∈ t.bonds row) :
    b.2 ∈ t.edges ∧ ∃ v ∈ t.visits row, v.key = b.1 ∧ v.occurrence = b.2.source := by
  obtain ⟨o, fields, cs⟩ := t
  unfold bonds at hb
  unfold visits edges
  cases hk : row.keyAt o with
  | none =>
    rw [hk] at hb
    cases hb
  | some k =>
    rw [hk] at hb
    obtain ⟨hedge, h⟩ := visit_of_bondBelow hb
    refine ⟨hedge, ?_⟩
    rcases h with ⟨hkey, ho⟩ | ⟨v, hv, hsame⟩
    · exact ⟨_, List.mem_cons_self, hkey.symm, ho.symm⟩
    · exact ⟨v, List.mem_cons_of_mem _ hv, hsame⟩

theorem visit_of_bondBelow {o : Occurrence} {k : EntityKey} {cs : List (Relationship × LoadTree)}
    {b : EntityKey × Edge} (hb : b ∈ bondsBelow row o k cs) :
    b.2 ∈ edgesBelow o cs ∧ ((b.1 = k ∧ b.2.source = o) ∨
      ∃ v ∈ visitsBelow row cs, v.key = b.1 ∧ v.occurrence = b.2.source) := by
  cases cs with
  | nil => cases hb
  | cons c rest =>
    obtain ⟨q, t⟩ := c
    simp only [bondsBelow, List.mem_cons, List.mem_append] at hb
    simp only [mem_edgesBelow_cons, visitsBelow, List.mem_append]
    rcases hb with rfl | hb | hb
    · exact ⟨.inl rfl, .inl ⟨rfl, rfl⟩⟩
    · obtain ⟨hedge, v, hv, hsame⟩ := visit_of_bond hb
      exact ⟨.inr (.inl hedge), .inr ⟨v, .inl hv, hsame⟩⟩
    · obtain ⟨hedge, h⟩ := visit_of_bondBelow hb
      exact ⟨.inr (.inr hedge), h.imp id fun ⟨v, hv, hsame⟩ => ⟨v, .inr hv, hsame⟩⟩

end

end LoadTree

namespace Plan

variable {s : Schema} {p : Plan} {js : List ResolvedJoin} {row : JoinedRow}

/-- A row brings an entity at an occurrence of a plan: at the root, or at the target of a join whose
source it brings too. -/
inductive Brings (p : Plan) (js : List ResolvedJoin) (row : JoinedRow) : Occurrence → EntityKey → Prop
  | root {x : EntityKey} (hx : row.keyAt (rootOccurrence p.root) = some x) :
      Brings p js row (rootOccurrence p.root) x
  | join {j : ResolvedJoin} {x y : EntityKey} (hj : j ∈ js) (hx : Brings p js row j.source x)
      (hy : row.keyAt j.target = some y) : Brings p js row j.target y

/-- The occurrences of a plan with the fields that are asked for there. -/
def loads (p : Plan) (js : List ResolvedJoin) : List (Occurrence × List String) :=
  (rootOccurrence p.root, p.fields) :: js.map fun j => (j.target, j.fields)

/-- What joins reach from some places. -/
inductive Spread (row : JoinedRow) (js : List ResolvedJoin) (base : Visit → Prop) : Visit → Prop
  | base {v : Visit} (h : base v) : Spread row js base v
  | join {j : ResolvedJoin} {v w : Visit} (hj : j ∈ js) (hw : Spread row js base w)
      (hpos : w.occurrence.position = j.source.position)
      (hv : v ∈ (LoadTree.node j.target j.fields []).visits row) : Spread row js base v

theorem position_target {place : Nat} (hst : Staged s p place js) :
    ∀ j ∈ js, j.source.position < j.target.position ∧ place < j.target.position := by
  induction js generalizing place with
  | nil => exact fun _ h => absurd h List.not_mem_nil
  | cons j js ih =>
    obtain ⟨⟨k, hk, hsource⟩, htarget, -, -, hrest⟩ := hst
    intro i hi
    rcases List.mem_cons.mp hi with rfl | hi
    · rw [occurrence?_position hsource, occurrence?_position htarget]
      omega
    · obtain ⟨h, h'⟩ := ih hrest i hi
      exact ⟨h, by omega⟩

/-- A tree to which joins are attached is reached where the joins reach from the tree. -/
theorem mem_visits_foldl_attach {place : Nat} {t : LoadTree} (hst : Staged s p place js)
    (ht : ∀ v ∈ t.visits row, v.occurrence.position ≤ place) {v : Visit} :
    v ∈ (js.foldl (fun t j => LoadTree.attach j.source.position j.relationship
      (.node j.target j.fields []) t) t).visits row ↔ Spread row js (· ∈ t.visits row) v := by
  induction js generalizing place t v with
  | nil =>
    refine ⟨.base, fun h => ?_⟩
    cases h with
    | base h => exact h
    | join hj => cases hj
  | cons j js ih =>
    obtain ⟨⟨k, hk, hsource⟩, htarget, -, -, hrest⟩ := hst
    have hspos := occurrence?_position hsource
    have htpos := occurrence?_position htarget
    have hattach : ∀ w, w ∈ (LoadTree.attach j.source.position j.relationship
        (.node j.target j.fields []) t).visits row ↔ _ := fun w => LoadTree.mem_visits_attach t
    have hbound : ∀ w ∈ (LoadTree.attach j.source.position j.relationship
        (.node j.target j.fields []) t).visits row, w.occurrence.position ≤ place + 1 := by
      intro w hw
      rcases (hattach w).mp hw with hw | ⟨hw, -⟩
      · exact Nat.le_succ_of_le (ht w hw)
      · exact Nat.le_of_eq ((congrArg _ (LoadTree.mem_visits_leaf.mp hw).2.1).trans htpos)
    rw [List.foldl_cons, ih hrest hbound]
    constructor
    · intro h
      induction h with
      | base h =>
        rcases (hattach _).mp h with h | ⟨h, w, hw, hpos⟩
        · exact .base h
        · exact .join List.mem_cons_self (.base hw) hpos h
      | join hj _ hpos hv ihw => exact .join (List.mem_cons_of_mem j hj) ihw hpos hv
    · intro h
      induction h with
      | base h => exact .base ((hattach _).mpr (.inl h))
      | @join i v w hi _ hpos hv ihw =>
        rcases List.mem_cons.mp hi with rfl | hi
        · -- the source of the first join is in the tree already
          refine .base ((hattach v).mpr (.inr ⟨hv, w, ?_, hpos⟩))
          cases ihw with
          | base hw =>
            rcases (hattach w).mp hw with hw | ⟨hw, -⟩
            · exact hw
            · rw [(LoadTree.mem_visits_leaf.mp hw).2.1] at hpos
              omega
          | join hj _ _ hw =>
            rw [(LoadTree.mem_visits_leaf.mp hw).2.1] at hpos
            have := (position_target hrest _ hj).2
            omega
        · exact .join hi ihw hpos hv

theorem mem_visits_loadTree (hst : Staged s p 0 js) {v : Visit} : v ∈ (p.loadTree js).visits row ↔
    Spread row js (· ∈ (LoadTree.node (rootOccurrence p.root) p.fields []).visits row) v :=
  mem_visits_foldl_attach hst fun w hw => by
    rw [(LoadTree.mem_visits_leaf.mp hw).2.1]
    exact Nat.le_refl 0

/-- A row reaches the places of the load tree at which it brings an entity. -/
theorem brings_of_visit (hst : Staged s p 0 js) {v : Visit} (hv : v ∈ (p.loadTree js).visits row) :
    Brings p js row v.occurrence v.key ∧ (v.occurrence, v.fields) ∈ p.loads js := by
  suffices h : (∃ k, p.occurrence? k = some v.occurrence) ∧
      Brings p js row v.occurrence v.key ∧ (v.occurrence, v.fields) ∈ p.loads js from h.2
  induction (mem_visits_loadTree hst).mp hv with
  | base h =>
    obtain ⟨hkey, ho, hfields⟩ := LoadTree.mem_visits_leaf.mp h
    rw [ho, hfields]
    exact ⟨⟨0, rfl⟩, .root hkey, List.mem_cons_self⟩
  | join hj hw hpos h ih =>
    obtain ⟨hkey, ho, hfields⟩ := LoadTree.mem_visits_leaf.mp h
    obtain ⟨⟨k, hk⟩, hbrings, -⟩ := ih ((mem_visits_loadTree hst).mpr hw)
    obtain ⟨⟨i, -, hsource⟩, ⟨l, -, htarget⟩, -⟩ := occurrences_of_staged hst _ hj
    have hsame : i = k := by
      rw [← occurrence?_position hsource, ← occurrence?_position hk, hpos]
    subst hsame
    rw [Option.some.inj (hk.symm.trans hsource)] at hbrings
    rw [ho, hfields]
    exact ⟨⟨l, htarget⟩, .join hj hbrings hkey,
      List.mem_cons_of_mem _ (List.mem_map.mpr ⟨_, hj, rfl⟩)⟩

theorem exists_visit (hst : Staged s p 0 js) {o : Occurrence} {x : EntityKey}
    (h : Brings p js row o x) :
    ∃ v ∈ (p.loadTree js).visits row, v.key = x ∧ v.occurrence = o := by
  induction h with
  | root hx =>
    exact ⟨⟨_, _, _⟩, (mem_visits_loadTree hst).mpr
      (.base (LoadTree.mem_visits_leaf.mpr ⟨hx, rfl, rfl⟩)), rfl, rfl⟩
  | join hj _ hy ih =>
    obtain ⟨w, hw, -, ho⟩ := ih
    exact ⟨⟨_, _, _⟩, (mem_visits_loadTree hst).mpr (.join hj ((mem_visits_loadTree hst).mp hw)
      (by rw [ho]) (LoadTree.mem_visits_leaf.mpr ⟨hy, rfl, rfl⟩)), rfl, rfl⟩

/-- A row follows the joins from the entities that it brings at their sources. -/
theorem join_of_bond (hst : Staged s p 0 js) {b : EntityKey × Edge}
    (hb : b ∈ (p.loadTree js).bonds row) : ∃ j ∈ js, b.2 = j.edge ∧ Brings p js row j.source b.1 := by
  obtain ⟨hedge, v, hv, hkey, ho⟩ := LoadTree.visit_of_bond hb
  obtain ⟨j, hj, hsame⟩ := (mem_edges_loadTree hst _).mp hedge
  have hbrings := (brings_of_visit hst hv).1
  rw [hkey, ho, hsame] at hbrings
  exact ⟨j, hj, hsame, hbrings⟩

theorem nodup_targets {place : Nat} (hst : Staged s p place js) :
    (js.map (·.target.position)).Nodup := by
  induction js generalizing place with
  | nil => exact List.nodup_nil
  | cons j js ih =>
    obtain ⟨-, htarget, -, -, hrest⟩ := hst
    refine List.nodup_cons.mpr ⟨fun h => ?_, ih hrest⟩
    obtain ⟨i, hi, hpos⟩ := List.mem_map.mp h
    have hlater := (position_target hrest i hi).2
    have hsame : i.target.position = place + 1 := hpos.trans (occurrence?_position htarget)
    omega

/-- Fields are asked for once at each occurrence. -/
theorem loads_unique (hst : Staged s p 0 js) {o : Occurrence} {fields others : List String}
    (h : (o, fields) ∈ p.loads js) (h' : (o, others) ∈ p.loads js) : fields = others := by
  have hpositions : (p.loads js).map (·.1.position) = 0 :: js.map (·.target.position) := by
    simp [loads, rootOccurrence]
  have hnodup : ((p.loads js).map (·.1.position)).Nodup := by
    rw [hpositions]
    refine List.nodup_cons.mpr ⟨fun hzero => ?_, nodup_targets hst⟩
    obtain ⟨j, hj, hpos⟩ := List.mem_map.mp hzero
    have hlater := (position_target hst j hj).2
    omega
  exact congrArg Prod.snd (List.inj_on_of_nodup_map hnodup h h' rfl)

end Plan
end EntityQuery
