import EntityQuery.Proofs.Bounds
import EntityQuery.Proofs.KeyedEntries
import EntityQuery.Proofs.Shown
import EntityQuery.Proofs.TakenAliases
import EntityQuery.Proofs.Unsorted
/-!
Results under an index. The index of a query only decides how the items of its result are kept: they are
the items of the list that the query without it gives, put in their order under the values that they show
of the field.
-/
namespace EntityQuery

/-- The query for the same matches under the values of a field. -/
def Descriptor.indexedBy (f : String) (d : Descriptor) : Descriptor := { d with indexBy := some f }

/-- What an item shows of a field. -/
def Item.field? (f : String) (item : Item) : Option Value :=
  match item.data with
  | .mapping es => Value.lookupText f es
  | _ => none

/-- What an item shows of a field, as a key. -/
def Item.keyBy (f : String) (item : Item) : Value := (item.field? f).getD .null

/-- The items of a list under the values that they show of a field, put there in their order. -/
def Fetched.keyedBy (f : String) : Fetched → Fetched
  | .list items => .indexed (Value.keyedOfList (items.map fun item => (item.keyBy f, item)))
  | other => other

/-- An answer with its items under the values of a field. -/
def Answer.keyedBy (f : String) : Answer → Answer
  | .plain items => .plain (items.keyedBy f)
  | .page p => .page { p with items := p.items.keyedBy f }

/-! ### Reading loaded fields -/

namespace Graph

variable {f : String} {g h i : Graph} {ks : List EntityKey} {k : EntityKey}

/-- A field of an entity is loaded. -/
def Loaded (g : Graph) (f : String) (k : EntityKey) : Prop :=
  ∃ n, g.node? k = some n ∧ f ∈ n.entity.columns.map (·.field) ∧ (n.column? f).isSome = true

/-- What is loaded of a field of an entity. -/
def loadedValue (g : Graph) (f : String) (k : EntityKey) : Value :=
  ((g.node? k).bind (·.column? f)).getD .null

theorem Loaded.of_keeps (hk : g.Loaded f k) (hg : g.Keeps h) : h.Loaded f k ∧
    h.loadedValue f k = g.loadedValue f k := by
  obtain ⟨n, hn, hfield, hsome⟩ := hk
  obtain ⟨v, hv⟩ := Option.isSome_iff_exists.mp hsome
  obtain ⟨m, hm, hentity, hkept⟩ := hg k n hn
  have hmv := hkept f v hv
  exact ⟨⟨m, hm, hentity ▸ hfield, by rw [hmv]; rfl⟩, by simp [loadedValue, hn, hm, hv, hmv]⟩

theorem Loaded.readField (hk : g.Loaded f k) (read : FieldReader) :
    g.readField read k f = .ok (g.loadedValue f k, g) := by
  obtain ⟨n, hn, -, hsome⟩ := hk
  obtain ⟨v, hv⟩ := Option.isSome_iff_exists.mp hsome
  simp [Graph.readField, loadedValue, hn, hv]

/-- The record of an entity shows its loaded fields. -/
theorem Loaded.lookup_record (hk : g.Loaded f k) {u : Unfolding} {v : Value}
    (hv : g.record u k = .ok (v, h)) :
    ∃ es, v = .mapping es ∧ Value.lookupText f es = some (g.loadedValue f k) := by
  obtain ⟨n, hn, hfield, hsome⟩ := hk
  obtain ⟨w, hw⟩ := Option.isSome_iff_exists.mp hsome
  obtain ⟨es, rfl⟩ := record_eq_ok hn hv
  refine ⟨_, rfl, ?_⟩
  rw [Value.lookupText_append, lookupText_fieldEntries, if_pos hfield, hw]
  simp [loadedValue, hn, hw]

end Graph

section Items

variable {f : String} {g : Graph} {ks : List EntityKey} {record : Graph → EntityKey → Unfolded}

theorem keeping_record (u : Unfolding) : Keeping fun g k => g.record u k :=
  fun g k v h hv => keeping_unfoldTo u g.nodes.length [] [] g k v h hv

/-- Items whose field is loaded are unfolded under it as they are without it. -/
theorem unfoldKeyed_loaded (hrecord : Keeping record) (hks : ∀ k ∈ ks, g.Loaded f k) (read : FieldReader) :
    unfoldKeyed read f record g ks = (unfoldItems record g ks).map fun (vs, h) =>
      ((ks.map (g.loadedValue f)).zip vs, h) := by
  induction ks generalizing g with
  | nil => rfl
  | cons k ks ih =>
    unfold unfoldKeyed unfoldItems
    rw [(hks k List.mem_cons_self).readField read]
    simp only [bind, Except.bind]
    cases hv : record g k with
    | error e => rfl
    | ok out =>
      obtain ⟨v, h⟩ := out
      have hkeeps := hrecord g k v h hv
      have hrest : ∀ k ∈ ks, h.Loaded f k ∧ h.loadedValue f k = g.loadedValue f k :=
        fun x hx => (hks x (List.mem_cons_of_mem k hx)).of_keeps hkeeps
      dsimp only
      rw [ih fun x hx => (hrest x hx).1, List.map_congr_left fun x hx => (hrest x hx).2]
      cases unfoldItems record h ks <;> rfl

theorem unfoldItems_readField (hks : ∀ k ∈ ks, g.Loaded f k) (read : FieldReader) :
    unfoldItems (fun g k => g.readField read k f) g ks = .ok (ks.map (g.loadedValue f), g) := by
  induction ks with
  | nil => rfl
  | cons k ks ih =>
    unfold unfoldItems
    dsimp only
    rw [(hks k List.mem_cons_self).readField read]
    simp only [bind, Except.bind, ih fun x hx => hks x (List.mem_cons_of_mem k hx), List.map_cons]

namespace Repository

variable {db : Database} {p : Plan} {hydration : Hydration} {items : List Item}

/-- Each item shows what is loaded of the field. -/
theorem hydrate_field? (hks : ∀ k ∈ ks, g.Loaded f k) (h : hydrate db p hydration g ks = .ok items) :
    List.Forall₂ (fun k item => item.field? f = some (g.loadedValue f k)) ks items := by
  unfold hydrate at h
  cases hydration with
  | entities =>
    have hall := mapM_eq_ok_iff.mp h
    refine ((List.forall₂_and_left _ _).mpr ⟨hks, hall⟩).imp fun k item hitem => ?_
    obtain ⟨⟨v, i⟩, hv, rfl⟩ := ok_of_map hitem.2
    obtain ⟨es, rfl, hlookup⟩ := hitem.1.lookup_record hv
    exact hlookup
  | records =>
    obtain ⟨⟨vs, last⟩, hvs, rfl⟩ := ok_of_map h
    clear h
    induction ks generalizing g vs with
    | nil =>
      cases hvs
      exact .nil
    | cons k ks ih =>
      obtain ⟨⟨v, i⟩, hv, hvs⟩ := ok_of_bind hvs
      obtain ⟨⟨ws, j⟩, hws, hvs⟩ := ok_of_bind hvs
      cases hvs
      have hkeeps := keeping_record _ _ _ _ _ hv
      have hrest : ∀ k ∈ ks, i.Loaded f k ∧ i.loadedValue f k = g.loadedValue f k :=
        fun x hx => (hks x (List.mem_cons_of_mem k hx)).of_keeps hkeeps
      obtain ⟨es, rfl, hlookup⟩ := (hks k List.mem_cons_self).lookup_record hv
      refine .cons hlookup (((List.forall₂_and_left _ _).mpr
        ⟨fun x hx => (hrest x hx).2, ih (fun x hx => (hrest x hx).1) ws hws⟩).imp fun x item hitem => ?_)
      rw [hitem.2, hitem.1]

theorem zip_loadedValue (h : List.Forall₂ (fun k item => item.field? f = some (g.loadedValue f k)) ks items) :
    (ks.map (g.loadedValue f)).zip items = items.map fun item => (item.keyBy f, item) := by
  induction h with
  | nil => rfl
  | cons hitem _ ih => simp [ih, Item.keyBy, hitem]

/-- Items under the values of a loaded field are the items, put there in their order. -/
theorem hydrateIndexed_loaded (hks : ∀ k ∈ ks, g.Loaded f k) (hydration : Hydration) :
    hydrateIndexed db p hydration f g ks = (hydrate db p hydration g ks).map fun items =>
      Value.keyedOfList (items.map fun item => (item.keyBy f, item)) := by
  cases hydration with
  | entities =>
    unfold hydrateIndexed hydrate indexKeys
    simp only [unfoldItems_readField hks, bind, Except.bind]
    cases hitems : ks.mapM (entityItem g) with
    | error e => rfl
    | ok items =>
      have hloaded : hydrate db p .entities g ks = .ok items := hitems
      simp only [Except.map]
      rw [zip_loadedValue (hydrate_field? hks hloaded)]
  | records =>
    unfold hydrateIndexed hydrate
    dsimp only
    rw [unfoldKeyed_loaded (keeping_record _) hks]
    cases hvs : unfoldItems (fun g k => g.record (unfolding db p) k) g ks with
    | error e => rfl
    | ok out =>
      have hitems : hydrate db p .records g ks = .ok (out.1.map .record) := by
        unfold hydrate
        rw [hvs]
        rfl
      have hzip := zip_loadedValue (hydrate_field? hks hitems)
      rw [List.zip_map_right] at hzip
      simp only [Except.map, ← hzip]
      rfl

end Repository

end Items

/-- Entries keep items under the values that they show of a field: under each different value, in the
order of their first appearance, the last item with it. -/
structure KeepsBy (f : String) (items : List Item) (m : List (Value × Item)) : Prop where
  shown : ∀ item ∈ items, (item.field? f).isSome = true
  keys : m.map Prod.fst = (items.map (·.keyBy f)).eraseDupsBy fun key known => known.sameKey key
  distinct : (m.map Prod.fst).Pairwise fun a b => a.sameKey b = false
  whole : ∀ item ∈ items, ∃ e ∈ m, e.1.sameKey (item.keyBy f) = true
  last : ∀ e ∈ m, ∃ before after, items = before ++ e.2 :: after ∧
    e.1.sameKey (e.2.keyBy f) = true ∧ ∀ item ∈ after, e.1.sameKey (item.keyBy f) = false
  /-- Nothing is lost exactly if the values differ from each other. -/
  lossless : m.length = items.length ↔ (items.map (·.keyBy f)).Pairwise fun a b => a.sameKey b = false

theorem keepsBy_keyedOfList {f : String} {items : List Item}
    (hitems : ∀ item ∈ items, ∃ v, item.field? f = some v ∧ v.Showable) :
    KeepsBy f items (Value.keyedOfList (items.map fun item => (item.keyBy f, item))) := by
  have hshowable : ∀ item ∈ items, (item.keyBy f).Showable := fun item hitem => by
    obtain ⟨v, hv, hshowable⟩ := hitems item hitem
    rwa [Item.keyBy, hv]
  have hpairs : ∀ q ∈ items.map fun item => (item.keyBy f, item), q.1.Showable := fun q hq => by
    obtain ⟨item, hitem, rfl⟩ := List.mem_map.mp hq
    exact hshowable item hitem
  have hkeys : ((items.map fun item => (item.keyBy f, item)).map Prod.fst) = items.map (·.keyBy f) := by
    rw [List.map_map]
    rfl
  have hfirsts := Value.keys_keyedOfList (items.map fun item => (item.keyBy f, item))
  rw [hkeys] at hfirsts
  refine ⟨fun item hitem => ?_, hfirsts, hfirsts ▸ pairwise_eraseDupsBy _, fun item hitem => ?_,
    fun e he => ?_, ?_⟩
  · obtain ⟨v, hv, -⟩ := hitems item hitem
    rw [hv]
    rfl
  · have hrefl : ∀ key ∈ items.map (·.keyBy f), key.sameKey key = true := fun key hkey => by
      obtain ⟨i, hi, rfl⟩ := List.mem_map.mp hkey
      exact Value.sameKey_refl (hshowable i hi)
    obtain ⟨known, hknown, hsame⟩ := exists_mem_eraseDupsBy (r := fun key known => Value.sameKey known key) hrefl
      (List.mem_map_of_mem hitem)
    rw [← hfirsts] at hknown
    obtain ⟨e, he, rfl⟩ := List.mem_map.mp hknown
    exact ⟨e, he, hsame⟩
  · obtain ⟨before, key, after, hsplit, hsame, hafter⟩ := Value.last_of_keyedOfList hpairs he
    obtain ⟨earlier, rest, rfl, -, hrest⟩ := List.map_eq_append_iff.mp hsplit
    obtain ⟨item, later, rfl, hitem, rfl⟩ := List.map_eq_cons_iff.mp hrest
    obtain ⟨rfl, rfl⟩ := Prod.mk.inj hitem
    exact ⟨earlier, later, rfl, hsame, fun x hx => hafter _ (List.mem_map_of_mem hx)⟩
  · rw [← hkeys, ← Value.length_keyedOfList_eq_iff, List.length_map]

namespace Repository

open Plan

variable {s : Schema} {db : Database} {r : Repository} {d : Descriptor} {p : Plan} {o : Outline}
  {f : String} {g : Graph} {roots : List EntityKey}

/-- A field of the root that is not left out is loaded for all roots of a load. -/
theorem loaded_of_load (hs : s.WellFormed) (hdb : db.Sound s) (hroot : p.root ∈ s.entities)
    (hst : Staged s p 0 o.1) (hfield : p.root.hasField f = true) (hfields : p.fields = [] ∨ f ∈ p.fields)
    (hload : load s db p o = .ok (roots, g)) :
    ∀ k ∈ roots, g.Loaded f k ∧ (g.loadedValue f k).Showable := by
  intro k hk
  have hrows : ∀ row ∈ within p.limit p.offset (p.sorted db o.1 o.2), row ∈ p.matched db o.1 :=
    fun row hrow => mem_sorted.mp (mem_within hrow)
  obtain ⟨hall, hbrought⟩ := brought_of_load hst hload
  have hasks : p.Asks o.1 (within p.limit p.offset (p.sorted db o.1 o.2)) k f := by
    obtain ⟨c, hc⟩ := Option.isSome_iff_exists.mp hfield
    obtain rfl : c.field = f := by simpa using List.find?_some hc
    refine ⟨(rootOccurrence p.root, p.fields), List.mem_cons_self, hbrought k hk,
      List.mem_map.mpr ⟨c, List.mem_filter.mpr ⟨List.mem_of_find?_eq_some hc, ?_⟩, rfl⟩⟩
    rcases hfields with hnone | hmem
    · simp [LoadTree.loadsField, hnone]
    · simp [LoadTree.loadsField, hmem]
  obtain ⟨n, hn⟩ := Option.isSome_iff_exists.mp
    (has_of_brought hs hdb hroot hst hrows hall (hbrought k hk))
  obtain ⟨hcolumn, hsome⟩ := loaded_of_asks hs hdb hroot hst hrows hall hasks hn
  refine ⟨⟨n, hn, hcolumn, hsome⟩, ?_⟩
  have hstored := LoadTree.loadAll_stored hs hdb
    (fun row hrow => fills_loadTree hs hdb hroot hst (hrows row hrow)) Graph.stored_empty hall
  obtain ⟨row, hstands, hshows⟩ := hstored k n hn
  obtain ⟨v, hv⟩ := Option.isSome_iff_exists.mp hsome
  obtain ⟨c, -, -, rfl⟩ := hshows.shown f v hv
  have hvalue : g.loadedValue f k = c.shown (row.get c.name) := by simp [Graph.loadedValue, hn, hv]
  rw [hvalue]
  exact c.showable_shown (hdb.proper hs hstands.entity hstands.stored _)

/-- A plan that differs in its index alone. -/
theorem joinsAs_framed (p : Plan) (index : Option String) :
    (p.framed p.limit p.offset index).JoinsAs p := ⟨rfl, rfl, rfl, rfl⟩

theorem load_framed (p : Plan) (index : Option String) (o : Outline) :
    load s db (p.framed p.limit p.offset index) o = load s db p o := by
  have hassemble : (p.framed p.limit p.offset index).assemble o.1 o.2 = p.assemble o.1 o.2 := by
    rw [(joinsAs_framed p index).assemble]
    cases hselection : p.assemble o.1 o.2 with
    | error e => rfl
    | ok selection =>
      obtain ⟨hconditions, -, hlimit, hoffset⟩ := frame_assemble hselection
      have hsame : (p.framed p.limit p.offset index).conditions = p.conditions := rfl
      rw [Except.map, hsame, ← hconditions, Plan.framed]
      dsimp only
      rw [← hlimit, ← hoffset]
  unfold load
  rw [hassemble]

theorem countRows_framed (p : Plan) (index : Option String) :
    countRows s db (p.framed p.limit p.offset index) = countRows s db p := by
  have hkeys : (p.framed p.limit p.offset index).keySelection = p.keySelection := by
    unfold keySelection
    rw [(joinsAs_framed p index).resolveJoins]
    rfl
  unfold countRows
  rw [hkeys]

/-- What a query reads under an index is what it reads without, under the values of the field. -/
theorem readAll_framed (hs : s.WellFormed) (hdb : db.Sound s) (hroot : p.root ∈ s.entities)
    (hst : ∀ {out}, load s db p o = .ok out → Staged s p 0 o.1) (hfield : p.root.hasField f = true)
    (hfields : p.fields = [] ∨ f ∈ p.fields) (hindex : p.indexBy = none) (hydration : Hydration) :
    readAll s db (p.framed p.limit p.offset (some f)) hydration o =
      (readAll s db p hydration o).map (Fetched.keyedBy f) := by
  unfold readAll
  rw [load_framed]
  cases hload : load s db p o with
  | error e => rfl
  | ok out =>
    obtain ⟨roots, g⟩ := out
    have hloaded := loaded_of_load hs hdb hroot (hst hload) hfield hfields hload
    have hhydrate : hydrate db (p.framed p.limit p.offset (some f)) hydration g roots =
        hydrate db p hydration g roots := by
      unfold hydrate unfolding
      rw [(joinsAs_framed p (some f)).collectionIndex]
    change shape db (p.framed p.limit p.offset (some f)) hydration g roots =
      (shape db p hydration g roots).map (Fetched.keyedBy f)
    have hindexed : (p.framed p.limit p.offset (some f)).indexBy = some f := rfl
    unfold shape
    rw [hindexed, hindex]
    dsimp only
    rw [hydrateIndexed_loaded fun k hk => (hloaded k hk).1, hhydrate]
    cases hydrate db p hydration g roots <;> rfl

/-- An index only keys a result: a fetch with it answers the list that the fetch without it answers, put in
its order under the values of the field that its items show, or fails as that does. Under each different
value it keeps the last item with it, in the order in which the values first appear, so that nothing is
lost exactly if they all differ. -/
theorem fetchAll_indexedBy (hs : s.WellFormed) (hdb : db.Sound s) (hroot : r.builder.root ∈ s.entities)
    (hfield : r.builder.root.hasField f = true) (hfields : d.fields = [] ∨ f ∈ d.fields)
    (hindex : d.indexBy = none) (hf : r.ReadsAfresh d) (hf' : r.ReadsAfresh (d.indexedBy f)) :
    (run r (fetchAll s db (.descriptor (d.indexedBy f)))).1 =
      (run r (fetchAll s db (.descriptor d))).1.map (Answer.keyedBy f) ∧
    ∀ a, (run r (fetchAll s db (.descriptor d))).1 = .ok a → ∃ items m, a.fetched = .list items ∧
      (a.keyedBy f).fetched = .indexed m ∧ KeepsBy f items m := by
  constructor
  · have hplan : planOf s r (d.indexedBy f) =
        (planOf s r d).map (Plan.framed d.limit d.offset (some f)) :=
      build_framed rfl rfl rfl rfl (fun g hg => by rw [hindex] at hg; cases hg)
        (fun g hg => by cases hg; exact hfield)
    rw [fetchAll_afresh s db hf', fetchAll_afresh s db hf, hplan]
    cases hp : planOf s r d with
    | error e => rfl
    | ok p =>
      obtain ⟨hproot, hplimit, hpoffset, hpindex, hpfields⟩ := build_frame hp
      rw [← hplimit, ← hpoffset]
      simp only [Except.map, bind, Except.bind]
      rw [(joinsAs_framed p (some f)).outline rfl]
      cases ho : p.outline with
      | error e => rfl
      | ok o =>
        have hst : ∀ {out}, load s db p o = .ok out → Staged s p 0 o.1 := fun hload => by
          obtain ⟨selection, hselection, -⟩ := load_eq_ok hload
          exact staged_of_assemble hp ho hselection
        dsimp only
        rw [show (d.indexedBy f).hydration = d.hydration from rfl,
          readAll_framed hs hdb (hproot ▸ hroot) hst (hproot ▸ hfield) (hpfields ▸ hfields)
            (hpindex.trans hindex)]
        cases readAll s db p d.hydration o with
        | error e => rfl
        | ok items =>
          simp only [Except.map]
          unfold answered
          rw [countRows_framed]
          by_cases hcount : d.countAvailableRows = true
          · rw [if_pos hcount, if_pos (show (d.indexedBy f).countAvailableRows = true from hcount)]
            cases countRows s db p <;> rfl
          · rw [if_neg hcount, if_neg (show ¬ (d.indexedBy f).countAvailableRows = true from hcount)]
            rfl
  · intro a ha
    obtain ⟨p, o, roots, g, fetched, hp, ho, hload, hshape, hend⟩ := fetchAll_eq_ok hf ha
    obtain ⟨hproot, -, -, hpindex, hpfields⟩ := build_frame hp
    obtain ⟨items, rfl, hitems⟩ := shape_eq_ok (hpindex.trans hindex) hshape
    obtain ⟨selection, hselection, -⟩ := load_eq_ok hload
    have hloaded := loaded_of_load hs hdb (hproot ▸ hroot) (staged_of_assemble hp ho hselection)
      (hproot ▸ hfield) (hpfields ▸ hfields) hload
    have hshown := hydrate_field? (fun k hk => (hloaded k hk).1) hitems
    have hfetched : a.fetched = .list items ∧ (a.keyedBy f).fetched =
        .indexed (Value.keyedOfList (items.map fun item => (item.keyBy f, item))) := by
      rcases hend with ⟨-, rfl⟩ | ⟨-, total, -, rfl⟩ <;> exact ⟨rfl, rfl⟩
    refine ⟨items, _, hfetched.1, hfetched.2, keepsBy_keyedOfList fun item hitem => ?_⟩
    obtain ⟨k, hk, hvalue⟩ := exists_of_forall₂ hshown hitem
    exact ⟨_, hvalue, (hloaded k hk).2⟩

/-- Commented articles by their authors. -/
def authoredArticles : Descriptor where
  relations := .ofList [("comments", { fields := some ["text"] })]
  fields := ["title", "author_id"]
  hydration := .records

theorem keepsBy_authoredArticles : ∃ items m,
    (run (ofRoot Model.Blog.article)
      (fetchAll Model.sample Model.sampleRows (.descriptor authoredArticles))).1 =
        .ok (.plain (.list items)) ∧
    (run (ofRoot Model.Blog.article)
      (fetchAll Model.sample Model.sampleRows (.descriptor (authoredArticles.indexedBy "author_id")))).1 =
        .ok (.plain (.indexed m)) ∧
    KeepsBy "author_id" items m ∧ items.length = 3 ∧ m.length = 2 := by
  obtain ⟨items, hitems, hview⟩ := fetchAll_listed (r := ofRoot Model.Blog.article) (d := authoredArticles)
    Model.sample Model.sampleRows (fun items => (items.length,
      (Value.keyedOfList (items.map fun item => (item.keyBy "author_id", item))).length)) rfl rfl
    (v := (3, 2)) (by decide +kernel)
  obtain ⟨hlength, hkeys⟩ := Prod.mk.inj hview
  obtain ⟨hindexed, hkeeps⟩ := fetchAll_indexedBy sample_wellFormed sampleRows_sound
    (r := ofRoot Model.Blog.article) (d := authoredArticles) (f := "author_id") (by decide) (by decide +kernel)
    (.inr (by decide)) rfl (readsAfresh_of_uncached rfl) (readsAfresh_of_uncached rfl)
  obtain ⟨items', m, hlist, hm, hkept⟩ := hkeeps _ hitems
  cases hlist
  cases hm
  rw [hitems] at hindexed
  exact ⟨items, _, hitems, hindexed, hkept, hlength, hkeys⟩

end Repository
end EntityQuery
