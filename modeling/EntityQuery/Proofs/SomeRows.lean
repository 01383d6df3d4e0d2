import EntityQuery.Proofs.LoadRows
/-!
Loading some of the rows. Whether a row loads does not depend on what is loaded already, and a row
loads the same relationships into every graph. A collection that some of the rows load holds no more
than the one that all rows load.
-/
namespace EntityQuery

variable {s : Schema} {row : JoinedRow}

namespace LoadTree

theorem loadBelow_cons (key : EntityKey) (isNew : Bool) (q : Relationship) (t : LoadTree)
    (rest : List (Relationship × LoadTree)) (g : Graph) :
    loadBelow s row key isNew g ((q, t) :: rest) =
      (t.load s row (g.opened key isNew q) >>= fun out =>
        loadBelow s row key isNew (out.2.placed key isNew q out.1) rest) := by
  conv_lhs => unfold loadBelow
  unfold Graph.opened
  dsimp only
  rcases t.load s row _ with e | ⟨target, i⟩ <;> rfl

mutual

/-- A row that loads into one graph loads into every other. -/
theorem exists_load {t : LoadTree} {g : Graph} {out : Option EntityKey × Graph} (h : Graph)
    (hl : t.load s row g = .ok out) : ∃ out, t.load s row h = .ok out := by
  obtain ⟨o, fields, cs⟩ := t
  unfold load at hl ⊢
  dsimp only at hl ⊢
  cases hm : memberEntity s o.entity ((List.lookup (.entity o.position) row).getD []) with
  | error e =>
    rw [hm] at hl
    cases hl
  | ok member =>
    simp only [hm] at hl ⊢
    cases hk : entityKey? o.entity ((List.lookup (.entity o.position) row).getD []) with
    | none => exact ⟨_, rfl⟩
    | some k =>
      simp only [hk] at hl ⊢
      have hbelow : ∃ isNew i j, loadBelow s row k isNew i cs = .ok j := by
        split at hl
        all_goals
          obtain ⟨j, hj, -⟩ := ok_of_map hl
          exact ⟨_, _, j, hj⟩
      obtain ⟨isNew, i, j, hj⟩ := hbelow
      split
      · obtain ⟨j', hj'⟩ := exists_loadBelow false
          (h.modify k (·.addColumns (row.shownAt o fields))) hj
        exact ⟨(some k, j'), by
          rw [show shownColumns (loadedColumns o.entity fields) _ = row.shownAt o fields from rfl, hj']
          rfl⟩
      · obtain ⟨j', hj'⟩ := exists_loadBelow true
          (h.add ⟨k, member, row.shownAt o fields, []⟩) hj
        exact ⟨(some k, j'), by
          rw [show shownColumns (loadedColumns o.entity fields) _ = row.shownAt o fields from rfl, hj']
          rfl⟩

theorem exists_loadBelow {cs : List (Relationship × LoadTree)} {key : EntityKey} {isNew : Bool}
    {g i : Graph} (other : Bool) (h : Graph) (hl : loadBelow s row key isNew g cs = .ok i) :
    ∃ j, loadBelow s row key other h cs = .ok j := by
  cases cs with
  | nil => exact ⟨h, rfl⟩
  | cons c rest =>
    obtain ⟨q, t⟩ := c
    obtain ⟨i', hi', hrest⟩ := loadBelow_cons_eq_ok hl
    obtain ⟨⟨target, j'⟩, hj'⟩ := exists_load (h.opened key other q) hi'
    obtain ⟨j, hj⟩ := exists_loadBelow other (j'.placed key other q target) hrest
    refine ⟨j, ?_⟩
    rw [loadBelow_cons, hj']
    exact hj

end

mutual

/-- The relationships that a row loads, each with the entity that it starts at. -/
def touched (row : JoinedRow) : LoadTree → List (EntityKey × String)
  | node o _ cs => match row.keyAt o with
    | none => []
    | some k => touchedBelow row k cs

def touchedBelow (row : JoinedRow) (key : EntityKey) :
    List (Relationship × LoadTree) → List (EntityKey × String)
  | [] => []
  | (q, t) :: rest => (key, q.name) :: (touched row t ++ touchedBelow row key rest)

end

end LoadTree

namespace Graph

variable {g h : Graph} {key : EntityKey} {isNew : Bool} {q : Relationship}
  {target : Option EntityKey}

theorem loaded_opened (hg : g.Has key) (x : EntityKey) (name : String) :
    (((g.opened key isNew q).reference? x name).isSome = true →
      (g.reference? x name).isSome = true ∨ (x, name) = (key, q.name)) ∧
    ((g.reference? x name).isSome = true →
      ((g.opened key isNew q).reference? x name).isSome = true) := by
  unfold opened
  split
  · have hset : (g.modify key (·.setReference q.name (.many []))).reference? x name = _ :=
      reference?_setReference g key x q.name name (fun _ => .many []) hg
    rw [hset]
    obtain ⟨n, hn⟩ := Option.isSome_iff_exists.mp hg
    split
    · rename_i hx
      exact ⟨fun _ => .inr (Prod.ext hx.1 hx.2), fun _ => by rw [hn]; rfl⟩
    · exact ⟨.inl, id⟩
  · exact ⟨.inl, id⟩

theorem loaded_placed (hg : g.Has key) (x : EntityKey) (name : String) :
    ((g.placed key isNew q target).reference? x name).isSome = true ↔
      (g.reference? x name).isSome = true ∨ (x, name) = (key, q.name) := by
  unfold placed
  rw [reference?_setReference g key x q.name name _ hg]
  obtain ⟨n, hn⟩ := Option.isSome_iff_exists.mp hg
  split
  · rename_i hx
    simp [hn, hx]
  · rename_i hx
    simp [Prod.ext_iff, hx]

end Graph

namespace LoadTree

mutual

/-- A row loads the same relationships into every graph. -/
theorem load_touched {t : LoadTree} {g h : Graph} {key : Option EntityKey}
    (hl : t.load s row g = .ok (key, h)) (x : EntityKey) (name : String) :
    (h.reference? x name).isSome = true ↔
      (g.reference? x name).isSome = true ∨ (x, name) ∈ t.touched row := by
  obtain ⟨o, fields, cs⟩ := t
  rcases load_eq_ok hl with ⟨hk, -, rfl⟩ | ⟨k, hk, -, ⟨hg, hbelow⟩ | ⟨member, hg, -, hbelow⟩⟩
  · simp [touched, hk]
  · have hhas := (Graph.has_addColumns g k k (row.shownAt o fields)).mpr hg
    rw [loadBelow_touched hhas hbelow, Graph.reference?_addColumns]
    simp [touched, hk]
  · have hhas := (Graph.has_add g ⟨k, member, row.shownAt o fields, []⟩ k).mpr (.inr rfl)
    rw [loadBelow_touched hhas hbelow, Graph.reference?_add rfl]
    simp [touched, hk]

theorem loadBelow_touched {cs : List (Relationship × LoadTree)} {key : EntityKey} {isNew : Bool}
    {g h : Graph} (hg : g.Has key) (hl : loadBelow s row key isNew g cs = .ok h) (x : EntityKey)
    (name : String) :
    (h.reference? x name).isSome = true ↔
      (g.reference? x name).isSome = true ∨ (x, name) ∈ touchedBelow row key cs := by
  cases cs with
  | nil =>
    cases hl
    simp [touchedBelow]
  | cons c rest =>
    obtain ⟨q, t⟩ := c
    obtain ⟨i, hi, hrest⟩ := loadBelow_cons_eq_ok hl
    have hihas : i.Has key := (load_grows hi).1.has _ ((Graph.has_opened _).mpr hg)
    rw [loadBelow_touched ((Graph.has_placed _).mpr hihas) hrest, Graph.loaded_placed hihas,
      load_touched hi]
    have hopened : _ ∧ (_ → ((g.opened key isNew q).reference? x name).isSome = true) :=
      Graph.loaded_opened hg x name
    simp only [touchedBelow, List.mem_cons, List.mem_append]
    constructor
    · rintro (((h | h) | h) | h)
      · rcases hopened.1 h with h | h
        · exact .inl h
        · exact .inr (.inl h)
      · exact .inr (.inr (.inl h))
      · exact .inr (.inl h)
      · exact .inr (.inr (.inr h))
    · rintro (h | h | h | h)
      · exact .inl (.inl (.inl (hopened.2 h)))
      · exact .inl (.inr h)
      · exact .inl (.inl (.inr h))
      · exact .inr h

end

end LoadTree

/-- Whether a reference is a collection. -/
def Reference.isMany : Reference → Bool
  | one _ => false
  | many _ => true

namespace Graph

/-- The references of a graph are collections or not as `kind` says of their families and names. -/
def Fits (kind : String → String → Bool) (g : Graph) : Prop :=
  ∀ x name ref, g.reference? x name = some ref → ref.isMany = kind x.family name

/-- The entities of one graph are in another, and the items of its collections. -/
structure Within (kind : String → String → Bool) (g h : Graph) : Prop where
  has : ∀ x, g.Has x → h.Has x
  items : ∀ x name, kind x.family name = true → ∀ y ∈ g.items x name, y ∈ h.items x name

variable {kind : String → String → Bool} {g h : Graph} {key : EntityKey} {isNew : Bool}
  {q : Relationship} {target : Option EntityKey}

theorem fits_empty : Fits kind {} := fun _ _ _ h => by cases h

theorem Within.refl (g : Graph) : Within kind g g := ⟨fun _ h => h, fun _ _ _ _ h => h⟩

theorem Within.trans_grows {i : Graph} (hw : Within kind g h) (hg : Grows (fun _ _ => False) h i) :
    Within kind g i :=
  ⟨fun x hx => hg.has x (hw.has x hx), fun x name hk y hy =>
    hg.items x name id y (hw.items x name hk y hy)⟩

theorem fits_addColumns (hf : g.Fits kind) (k : EntityKey) (columns : List (String × Value)) :
    (g.modify k (·.addColumns columns)).Fits kind := fun x name ref href => by
  rw [reference?_addColumns] at href
  exact hf x name ref href

theorem fits_add (hf : g.Fits kind) {n : Node} (hn : n.references = []) : (g.add n).Fits kind :=
  fun x name ref href => by
    rw [reference?_add hn] at href
    exact hf x name ref href

theorem fits_opened (hf : g.Fits kind) (hg : g.Has key) (hq : q.many = kind key.family q.name) :
    (g.opened key isNew q).Fits kind := by
  intro x name ref href
  unfold opened at href
  split at href
  · rename_i hnew
    have hset : (g.modify key (·.setReference q.name (.many []))).reference? x name = _ :=
      reference?_setReference g key x q.name name (fun _ => .many []) hg
    rw [hset] at href
    split at href
    · rename_i hx
      obtain ⟨n, -, rfl⟩ := Option.map_eq_some_iff.mp href
      rw [Bool.and_eq_true] at hnew
      rw [hx.1, hx.2, ← hq, hnew.2]
      rfl
    · exact hf x name ref href
  · exact hf x name ref href

theorem isMany_furtherReference {known : Option Reference}
    (hknown : ∀ ref, known = some ref → ref.isMany = q.many) :
    (furtherReference q known target).isMany = q.many := by
  unfold furtherReference
  split
  · rw [← hknown _ rfl]
    rfl
  · rw [← hknown _ rfl]
  · unfold firstReference
    cases hm : q.many <;> rfl

theorem fits_placed (hf : g.Fits kind) (hg : g.Has key) (hq : q.many = kind key.family q.name) :
    (g.placed key isNew q target).Fits kind := by
  intro x name ref href
  unfold placed at href
  rw [reference?_setReference g key x q.name name _ hg] at href
  split at href
  · rename_i hx
    obtain ⟨n, hn, rfl⟩ := Option.map_eq_some_iff.mp href
    rw [hx.1, hx.2, ← hq]
    refine isMany_furtherReference fun known hknown => ?_
    split at hknown
    · cases hknown
    · rw [hq]
      exact hf key q.name known (by simp [reference?, hn, hknown])
  · exact hf x name ref href

/-- Placing a target into a collection adds it to the items. -/
theorem mem_items_placed_many (hf : g.Fits kind) (hg : g.Has key) (hm : q.many = true)
    (hq : q.many = kind key.family q.name) (y : EntityKey) :
    y ∈ (g.placed key isNew q target).items key q.name ↔
      y ∈ g.items key q.name ∨ target = some y := by
  obtain ⟨n, hn, href⟩ : ∃ n, g.node? key = some n ∧
      (g.placed key isNew q target).reference? key q.name =
        some (placedReference isNew q target n) := reference?_placed hg
  have hknown : g.reference? key q.name = n.reference? q.name := by simp [reference?, hn]
  unfold items
  rw [href, hknown]
  simp only [Option.map_some, Option.getD_some, placedReference, hm, Bool.not_true, Bool.and_false,
    Bool.false_eq_true, if_false]
  cases hr : n.reference? q.name with
  | none =>
    have hadd : y ∈ addItem [] target ↔ y ∈ [] ∨ target = some y := mem_addItem
    simpa [furtherReference, firstReference, hm, Reference.items] using hadd
  | some known =>
    have hmany := hf key q.name known (hknown.trans hr)
    rw [← hq, hm] at hmany
    cases known with
    | one t => cases hmany
    | many ks => exact mem_addItem

theorem items_placed_ne (hg : g.Has key) {x : EntityKey} {name : String}
    (hx : ¬ (x = key ∧ name = q.name)) :
    (g.placed key isNew q target).items x name = g.items x name := by
  refine items_eq ?_
  unfold placed
  rw [reference?_setReference g key x q.name name _ hg, if_neg hx]

theorem items_opened_ne (hg : g.Has key) {x : EntityKey} {name : String}
    (hx : ¬ (x = key ∧ name = q.name)) :
    (g.opened key isNew q).items x name = g.items x name := by
  refine items_eq ?_
  unfold opened
  split
  · have hset : (g.modify key (·.setReference q.name (.many []))).reference? x name = _ :=
      reference?_setReference g key x q.name name (fun _ => .many []) hg
    rw [hset, if_neg hx]
  · rfl

theorem items_opened_new (hg : g.Has key) (hm : q.many = true) :
    (g.opened key true q).items key q.name = [] := by
  have hset : (g.modify key (·.setReference q.name (.many []))).reference? key q.name = _ :=
    reference?_setReference g key key q.name q.name (fun _ => .many []) hg
  obtain ⟨n, hn⟩ := Option.isSome_iff_exists.mp hg
  unfold items opened
  rw [hm, Bool.and_self, if_pos rfl, hset, if_pos ⟨rfl, rfl⟩, hn]
  rfl

/-- A further row adds no other item than its target. -/
theorem mem_items_furtherReference {known : Option Reference} {y : EntityKey}
    (hy : y ∈ (furtherReference q known target).items) :
    (∃ ref, known = some ref ∧ y ∈ ref.items) ∨ target = some y := by
  cases known with
  | none =>
    change y ∈ (firstReference q target).items at hy
    unfold firstReference at hy
    split at hy
    · exact .inr ((mem_addItem.mp hy).resolve_left List.not_mem_nil)
    · exact .inr (by simpa [Reference.items] using hy)
  | some ref =>
    cases ref with
    | one t => exact .inl ⟨_, rfl, hy⟩
    | many ks => exact (mem_addItem.mp hy).imp_left fun h => ⟨_, rfl, h⟩

/-- Placing a target adds it to one relationship at most. -/
theorem mem_items_of_placed (hg : g.Has key) {x : EntityKey} {name : String} {y : EntityKey}
    (hy : y ∈ (g.placed key isNew q target).items x name) :
    y ∈ g.items x name ∨ x = key ∧ name = q.name ∧ target = some y := by
  by_cases hx : x = key ∧ name = q.name
  · obtain ⟨rfl, rfl⟩ := hx
    obtain ⟨n, hn, href⟩ : ∃ n, g.node? x = some n ∧
        (g.placed x isNew q target).reference? x q.name =
          some (placedReference isNew q target n) := reference?_placed hg
    rw [items, href] at hy
    rcases mem_items_furtherReference hy with ⟨ref, href, hy⟩ | htarget
    · refine .inl ?_
      split at href
      · cases href
      · simpa [items, reference?, hn, href] using hy
    · exact .inr ⟨rfl, rfl, htarget⟩
  · rw [items_placed_ne hg hx] at hy
    exact .inl hy

theorem mem_items_of_opened (hg : g.Has key) {x : EntityKey} {name : String} {y : EntityKey}
    (hy : y ∈ (g.opened key isNew q).items x name) : y ∈ g.items x name := by
  by_cases hx : x = key ∧ name = q.name
  · obtain ⟨rfl, rfl⟩ := hx
    by_cases hnew : isNew = true ∧ q.many = true
    · rw [hnew.1, items_opened_new hg hnew.2] at hy
      cases hy
    · rw [opened, if_neg (by simpa using hnew)] at hy
      exact hy
  · rwa [items_opened_ne hg hx] at hy

/-- An entity that is new in the larger graph is new in the smaller one. -/
theorem within_opened (hw : Within kind g h) (hg : g.Has key) (hq : q.many = kind key.family q.name)
    {other : Bool} (hnew : other = true → isNew = true) :
    Within kind (g.opened key isNew q) (h.opened key other q) := by
  have hh := hw.has key hg
  refine ⟨fun x hx => (has_opened x).mpr (hw.has x ((has_opened x).mp hx)),
    fun x name hk y hy => ?_⟩
  by_cases hx : x = key ∧ name = q.name
  · obtain ⟨rfl, rfl⟩ := hx
    have hm : q.many = true := hq.trans hk
    cases isNew with
    | true =>
      rw [items_opened_new hg hm] at hy
      cases hy
    | false =>
      have hold : other = false := by
        cases other with
        | false => rfl
        | true => cases hnew rfl
      rw [hold]
      exact hw.items x q.name hk y hy
  · rw [items_opened_ne hg hx] at hy
    rw [items_opened_ne hh hx]
    exact hw.items x name hk y hy

theorem within_placed (hw : Within kind g h) (hfg : g.Fits kind) (hfh : h.Fits kind)
    (hg : g.Has key) (hq : q.many = kind key.family q.name) (other : Bool) :
    Within kind (g.placed key isNew q target) (h.placed key other q target) := by
  have hh := hw.has key hg
  refine ⟨fun x hx => (has_placed x).mpr (hw.has x ((has_placed x).mp hx)),
    fun x name hk y hy => ?_⟩
  by_cases hx : x = key ∧ name = q.name
  · obtain ⟨rfl, rfl⟩ := hx
    have hm : q.many = true := hq.trans hk
    rw [mem_items_placed_many hfh hh hm hq]
    exact ((mem_items_placed_many hfg hg hm hq y).mp hy).imp_left (hw.items x q.name hk y)
  · rw [items_placed_ne hg hx] at hy
    rw [items_placed_ne hh hx]
    exact hw.items x name hk y hy

end Graph

/-- The relationships of a load tree are collections or not as `kind` says. -/
def Edge.AreOf (kind : String → String → Bool) (edges : List Edge) : Prop :=
  ∀ e ∈ edges, e.relationship.many = kind e.source.entity.rootName e.relationship.name

theorem JoinedRow.family_keyAt {o : Occurrence} {k : EntityKey} (h : row.keyAt o = some k) :
    k.family = o.entity.rootName := by
  unfold keyAt entityKey? at h
  dsimp only at h
  split at h
  · cases h
  · cases h
    rfl

namespace LoadTree

variable {kind : String → String → Bool}

mutual

theorem load_fits {t : LoadTree} {g h : Graph} {key : Option EntityKey}
    (hkind : Edge.AreOf kind t.edges) (hf : g.Fits kind) (hl : t.load s row g = .ok (key, h)) :
    h.Fits kind := by
  obtain ⟨o, fields, cs⟩ := t
  rcases load_eq_ok hl with ⟨-, -, rfl⟩ | ⟨k, hk, -, ⟨hg, hbelow⟩ | ⟨member, hg, -, hbelow⟩⟩
  · exact hf
  · exact loadBelow_fits hk hkind (Graph.fits_addColumns hf k _)
      ((Graph.has_addColumns g k k _).mpr hg) hbelow
  · exact loadBelow_fits hk hkind (Graph.fits_add hf rfl)
      ((Graph.has_add g _ k).mpr (.inr rfl)) hbelow

theorem loadBelow_fits {o : Occurrence} {cs : List (Relationship × LoadTree)} {key : EntityKey}
    {isNew : Bool} {g h : Graph} (hk : row.keyAt o = some key)
    (hkind : Edge.AreOf kind (edgesBelow o cs)) (hf : g.Fits kind) (hg : g.Has key)
    (hl : loadBelow s row key isNew g cs = .ok h) : h.Fits kind := by
  cases cs with
  | nil =>
    cases hl
    exact hf
  | cons c rest =>
    obtain ⟨q, t⟩ := c
    obtain ⟨i, hi, hrest⟩ := loadBelow_cons_eq_ok hl
    obtain ⟨hthis, hbelow, hlater⟩ := forall_edgesBelow_cons.mp hkind
    have hq : q.many = kind key.family q.name := by
      rw [JoinedRow.family_keyAt hk]
      exact hthis
    have hfit := load_fits hbelow (Graph.fits_opened hf hg hq) hi
    have hikey : i.Has key := (load_grows hi).1.has _ ((Graph.has_opened _).mpr hg)
    exact loadBelow_fits hk hlater (Graph.fits_placed hfit hikey hq)
      ((Graph.has_placed _).mpr hikey) hrest

end

mutual

/-- Loading a row keeps one graph within the other. -/
theorem load_within {t : LoadTree} {g h i j : Graph} {key key' : Option EntityKey}
    (hkind : Edge.AreOf kind t.edges) (hw : Graph.Within kind g h) (hfg : g.Fits kind)
    (hfh : h.Fits kind) (hl : t.load s row g = .ok (key, i))
    (hl' : t.load s row h = .ok (key', j)) : Graph.Within kind i j := by
  obtain ⟨o, fields, cs⟩ := t
  have hsame : ∀ {a b a' b' : Graph}, Graph.Within kind a b → (∀ x, a'.Has x → b'.Has x) →
      (∀ x name, a'.reference? x name = a.reference? x name) →
      (∀ x name, b'.reference? x name = b.reference? x name) → Graph.Within kind a' b' :=
    fun hab hhas ha hb => ⟨hhas, fun x name hk y hy => by
      rw [Graph.items_eq (ha x name)] at hy
      rw [Graph.items_eq (hb x name)]
      exact hab.items x name hk y hy⟩
  rcases load_eq_ok hl with ⟨hk, -, rfl⟩ | ⟨k, hk, -, hcase⟩
  · rcases load_eq_ok hl' with ⟨-, -, rfl⟩ | ⟨k', hk', -⟩
    · exact hw
    · cases hk.symm.trans hk'
  · rcases load_eq_ok hl' with ⟨hk', -⟩ | ⟨k', hk', -, hcase'⟩
    · cases hk.symm.trans hk'
    cases hk.symm.trans hk'
    rcases hcase with ⟨hg, hbelow⟩ | ⟨member, hg, -, hbelow⟩
    · rcases hcase' with ⟨hh, hbelow'⟩ | ⟨member', hh, -⟩
      · refine loadBelow_within hk hkind (hsame hw (fun x hx => ?_)
          (fun x => Graph.reference?_addColumns g k x _)
          fun x => Graph.reference?_addColumns h k x _) (Graph.fits_addColumns hfg k _)
          (Graph.fits_addColumns hfh k _)
          ((Graph.has_addColumns g k k _).mpr hg) id hbelow hbelow'
        exact (Graph.has_addColumns h k x _).mpr (hw.has x ((Graph.has_addColumns g k x _).mp hx))
      · exact absurd (hw.has k hg) hh
    · have hnewHas := (Graph.has_add g ⟨k, member, row.shownAt o fields, []⟩ k).mpr (.inr rfl)
      rcases hcase' with ⟨hh, hbelow'⟩ | ⟨member', hh, -, hbelow'⟩
      · refine loadBelow_within hk hkind (hsame hw (fun x hx => ?_)
          (Graph.reference?_add rfl) fun x => Graph.reference?_addColumns h k x _)
          (Graph.fits_add hfg rfl) (Graph.fits_addColumns hfh k _) hnewHas (fun _ => rfl) hbelow
          hbelow'
        rw [Graph.has_addColumns]
        rcases (Graph.has_add g _ x).mp hx with hx | rfl
        · exact hw.has x hx
        · exact hh
      · refine loadBelow_within hk hkind (hsame hw (fun x hx => ?_)
          (Graph.reference?_add rfl) (Graph.reference?_add rfl)) (Graph.fits_add hfg rfl)
          (Graph.fits_add hfh rfl) hnewHas (fun _ => rfl) hbelow hbelow'
        rw [Graph.has_add]
        exact ((Graph.has_add g _ x).mp hx).imp_left (hw.has x)

theorem loadBelow_within {o : Occurrence} {cs : List (Relationship × LoadTree)} {key : EntityKey}
    {isNew other : Bool} {g h i j : Graph} (hk : row.keyAt o = some key)
    (hkind : Edge.AreOf kind (edgesBelow o cs)) (hw : Graph.Within kind g h) (hfg : g.Fits kind)
    (hfh : h.Fits kind) (hg : g.Has key) (hnew : other = true → isNew = true)
    (hl : loadBelow s row key isNew g cs = .ok i) (hl' : loadBelow s row key other h cs = .ok j) :
    Graph.Within kind i j := by
  cases cs with
  | nil =>
    cases hl
    cases hl'
    exact hw
  | cons c rest =>
    obtain ⟨q, t⟩ := c
    obtain ⟨a, ha, hrest⟩ := loadBelow_cons_eq_ok hl
    obtain ⟨b, hb, hrest'⟩ := loadBelow_cons_eq_ok hl'
    obtain ⟨hthis, hbelow, hlater⟩ := forall_edgesBelow_cons.mp hkind
    have hq : q.many = kind key.family q.name := by
      rw [JoinedRow.family_keyAt hk]
      exact hthis
    have hh := hw.has key hg
    have hopen : (g.opened key isNew q).Fits kind := Graph.fits_opened hfg hg hq
    have hopen' : (h.opened key other q).Fits kind := Graph.fits_opened hfh hh hq
    have hload := load_within hbelow (Graph.within_opened hw hg hq hnew) hopen hopen' ha hb
    have hfa := load_fits hbelow hopen ha
    have hfb := load_fits hbelow hopen' hb
    have hahas : a.Has key := (load_grows ha).1.has _ ((Graph.has_opened _).mpr hg)
    exact loadBelow_within hk hlater (Graph.within_placed hload hfa hfb hahas hq other)
      (Graph.fits_placed hfa hahas hq) (Graph.fits_placed hfb (hload.has key hahas) hq)
      ((Graph.has_placed _).mpr hahas) hnew hrest hrest'

end

variable {t : LoadTree} {g h : Graph} {rows all : List JoinedRow}

theorem exists_load_of_loadAll (hl : t.loadAll s g all = .ok h) :
    ∀ row ∈ all, ∃ out, t.load s row {} = .ok out := by
  intro row hrow
  obtain ⟨before, after, rfl⟩ := List.append_of_mem hrow
  obtain ⟨i, key, k, -, hload, -⟩ := loadAll_mem_eq_ok hl
  exact exists_load {} hload

/-- Rows that load one by one load one after the other. -/
theorem exists_loadAll (hrows : ∀ row ∈ rows, ∃ out, t.load s row {} = .ok out) :
    ∃ h, t.loadAll s g rows = .ok h := by
  unfold loadAll
  induction rows generalizing g with
  | nil => exact ⟨g, rfl⟩
  | cons row rows ih =>
    obtain ⟨first, hfirst⟩ := hrows row List.mem_cons_self
    obtain ⟨out, hout⟩ := exists_load g hfirst
    obtain ⟨h, hrest⟩ := ih fun row hr => hrows row (List.mem_cons_of_mem _ hr)
    refine ⟨h, ?_⟩
    rw [List.foldlM_cons, hout]
    exact hrest

theorem exists_loadRows (hrows : ∀ row ∈ rows, ∃ out, t.load s row {} = .ok out) :
    ∃ out, loadRows s t rows = .ok out := by
  obtain ⟨g, hg⟩ : ∃ g, t.loadAll s {} rows = .ok g := exists_loadAll hrows
  rw [loadRows_eq, hg]
  exact ⟨_, rfl⟩

theorem loadAll_touched (hl : t.loadAll s g rows = .ok h) (x : EntityKey) (name : String) :
    (h.reference? x name).isSome = true ↔
      (g.reference? x name).isSome = true ∨ ∃ row ∈ rows, (x, name) ∈ t.touched row := by
  induction rows generalizing g with
  | nil =>
    cases hl
    simp
  | cons row rows ih =>
    obtain ⟨key, i, hload, hrest⟩ := loadAll_cons_eq_ok hl
    rw [ih hrest, load_touched hload]
    simp [or_assoc]

theorem loadAll_fits (hkind : Edge.AreOf kind t.edges) (hg : g.Fits kind)
    (hl : t.loadAll s g rows = .ok h) : h.Fits kind := by
  induction rows generalizing g with
  | nil =>
    cases hl
    exact hg
  | cons row rows ih =>
    obtain ⟨key, i, hload, hrest⟩ := loadAll_cons_eq_ok hl
    exact ih (load_fits hkind hg hload) hrest

/-- What some of the rows load is within what all rows load. -/
theorem loadAll_within (hkind : Edge.AreOf kind t.edges) (hsub : rows.Sublist all)
    {i j : Graph} (hw : Graph.Within kind g h) (hfg : g.Fits kind) (hfh : h.Fits kind)
    (hl : t.loadAll s g rows = .ok i) (hl' : t.loadAll s h all = .ok j) :
    Graph.Within kind i j := by
  induction hsub generalizing g h with
  | slnil =>
    cases hl
    cases hl'
    exact hw
  | cons row _ ih =>
    obtain ⟨key, k, hload, hrest⟩ := loadAll_cons_eq_ok hl'
    exact ih (hw.trans_grows (load_grows hload).1) hfg (load_fits hkind hfh hload) hl hrest
  | cons_cons row _ ih =>
    obtain ⟨key, k, hload, hrest⟩ := loadAll_cons_eq_ok hl
    obtain ⟨key', k', hload', hrest'⟩ := loadAll_cons_eq_ok hl'
    exact ih (load_within hkind hw hfg hfh hload hload') (load_fits hkind hfg hload)
      (load_fits hkind hfh hload') hrest hrest'

end LoadTree

/-- The collections of a graph hold the same entities in another. -/
def Graph.SharesCollections (g h : Graph) : Prop :=
  ∀ x name items, g.reference? x name = some (.many items) →
    ∃ others, h.reference? x name = some (.many others) ∧ ∀ y, y ∈ items ↔ y ∈ others

/-- Where each row alone brings the collections that all rows bring, some of the rows bring these
collections as well. -/
theorem LoadTree.sharesCollections_of_rows {kind : String → String → Bool} {t : LoadTree}
    {g h : Graph} {rows all : List JoinedRow} (hkind : Edge.AreOf kind t.edges)
    (hsub : rows.Sublist all) (hl : t.loadAll s {} rows = .ok g) (hl' : t.loadAll s {} all = .ok h)
    (halone : ∀ row ∈ rows, ∀ i, t.loadAll s {} [row] = .ok i → i.SharesCollections h) :
    g.SharesCollections h := by
  intro x name items href
  have hempty : Graph.Fits kind {} := Graph.fits_empty
  have hmany : ∀ {g : Graph} {its}, g.reference? x name = some (.many its) → g.items x name = its :=
    fun h => by
      unfold Graph.items
      rw [h]
      rfl
  obtain ⟨row, hrow, htouched⟩ : ∃ row ∈ rows, (x, name) ∈ t.touched row := by
    rcases (loadAll_touched hl x name).mp (by rw [href]; rfl) with hnone | h
    · cases hnone
    · exact h
  obtain ⟨⟨key, i⟩, hload⟩ := exists_load_of_loadAll hl row hrow
  have hi : t.loadAll s {} [row] = .ok i := by
    unfold loadAll
    rw [List.foldlM_cons, hload]
    rfl
  have hgfits := loadAll_fits hkind hempty hl
  have hk : kind x.family name = true := (hgfits x name _ href).symm
  obtain ⟨ref, hiref⟩ := Option.isSome_iff_exists.mp
    ((loadAll_touched hi x name).mpr (.inr ⟨row, List.mem_singleton_self row, htouched⟩))
  cases ref with
  | one target =>
    have := loadAll_fits hkind hempty hi x name _ hiref
    rw [hk] at this
    cases this
  | many own =>
    obtain ⟨others, hothers, hsame⟩ := halone row hrow i hi x name own hiref
    refine ⟨others, hothers, fun y => ⟨fun hy => ?_, fun hy => ?_⟩⟩
    · rw [← hmany hothers]
      exact (loadAll_within hkind hsub (.refl _) hempty hempty hl hl').items x name hk y
        (by rw [hmany href]; exact hy)
    · rw [← hmany href]
      refine (loadAll_within hkind (List.singleton_sublist.mpr hrow) (.refl _) hempty hempty hi
        hl).items x name hk y ?_
      rw [hmany hiref]
      exact (hsame y).mpr hy

end EntityQuery
