import EntityQuery.Model.Resources
import EntityQuery.Proofs.Runnable
import EntityQuery.Proofs.Served
/-!
The responses of resources to query strings. Over a schema and a database whose parts fit, only a filter
that is given more values than its operator takes, or a bound beyond 64 bits, is left unexplained.
-/
namespace EntityQuery

theorem QueryError.status_response (e : QueryError) :
    e.response.status = if e.kind.isRefusal then 400 else 500 := by
  unfold QueryError.response
  split <;> rfl

namespace Resource

open Plan Repository

/-- The plan that a query string asks for, with its descriptor. -/
def Asks (s : Schema) (operators : OperatorTable Operator) (root : Entity)
    (query : List (String × String)) (d : Descriptor) (p : Plan) : Prop :=
  descriptor query = .ok d ∧ (Plan.build s operators root d).plan = .ok p

/-- A resource for an entity of a schema and a database whose parts fit: its fields fit the rows. -/
structure Serves (s : Schema) (db : Database) (r : Resource) (root : Entity) : Prop where
  schema : s.WellFormed
  identifiers : s.Identifiers
  links : s.LinksStored
  database : db.Sound s
  kinds : db.KindsKnown s
  entity : s.entity? r.entity = some root
  fits : r.Fits db root
  size : (db.rows root.table).length < 2 ^ 63

/-- What keeps the statement of a query string from being run: a filter that compares with one value is
given several, or a bound of a fetch is beyond 64 bits. -/
def Unbindable (operators : OperatorTable Operator) (root : Entity) (query : List (String × String))
    (op : Operation) (d : Descriptor) : Prop :=
  RepeatsSingle operators root query ∨ op ≠ .count ∧ ¬ (Storable d.limit ∧ Storable d.offset)

variable {s : Schema} {db : Database} {r : Resource} {root : Entity}
  {operators : OperatorTable Operator} {query : List (String × String)} {d : Descriptor} {p : Plan}

theorem Serves.root_mem (hr : r.Serves s db root) : root ∈ s.entities :=
  List.mem_of_find?_eq_some hr.entity

/-- The response that is made of what an action answers. -/
def responseOf {α : Type} (respond : α → Response) : Except QueryError α → Response
  | .error e => e.response
  | .ok a => respond a

/-- The response that shows one item. -/
def oneResponse (s : Schema) (db : Database) (r : Resource) : Option Item → Response
  | some i => .ofShown (r.record? s db i)
  | none => .refusal 404 ("No single " ++ r.title ++ " record matches")

theorem respondTo_one (operators : OperatorTable Operator) (r : Resource) (d : Descriptor) :
    respondTo s db operators r .one d =
      perform s operators r (fetchOne s db (.descriptor d)) (r.oneResponse s db) := rfl

theorem perform_eq (operators : OperatorTable Operator) (hentity : s.entity? r.entity = some root)
    {α : Type} (action : Work α) (respond : α → Response) : ∃ b : Builder, b.root = root ∧ b.operators = operators ∧
      perform s operators r action respond =
        responseOf respond ((⟨b, none⟩ : Repository).run action).1 := by
  obtain ⟨b, hb, hroot, hoperators⟩ : ∃ b, Builder.ofName s operators {} r.entity = .ok b ∧
      b.root = root ∧ b.operators = operators := by
    unfold Builder.ofName Registry.get
    simp only [Registries.chosen, Registries.prefersGiven, Registry.empty, hentity, OrderedMap.find?,
      OrderedMap.empty, List.lookup_nil, Option.map_none, Option.getD_none, Bool.false_eq_true,
      if_false, Except.map]
    exact ⟨_, rfl, rfl, rfl⟩
  refine ⟨b, hroot, hoperators, ?_⟩
  unfold perform
  rw [hb]
  dsimp only
  cases ((⟨b, none⟩ : Repository).run action).1 <;> rfl

end Resource

/-- A result is there and good exactly under a condition; otherwise the error is not told to the caller. -/
def Settled {α : Type} (x : Except QueryError α) (condition : Prop) (good : α → Prop) : Prop :=
  (condition ∧ ∃ a, x = .ok a ∧ good a) ∨
    (¬ condition ∧ ∃ e, x = .error e ∧ e.kind.isRefusal = false)

namespace Settled

variable {α β : Type} {x : Except QueryError α} {condition : Prop} {good : α → Prop}

theorem bind {f : α → Except QueryError β} {better : β → Prop} (hx : Settled x condition good)
    (hf : ∀ a, x = .ok a → good a → condition → ∃ b, f a = .ok b ∧ better b) :
    Settled (x >>= f) condition better := by
  rcases hx with ⟨hc, a, rfl, ha⟩ | ⟨hc, e, rfl, he⟩
  · exact .inl ⟨hc, hf a rfl ha hc⟩
  · exact .inr ⟨hc, e, rfl, he⟩

theorem map {f : α → β} {better : β → Prop} (hx : Settled x condition good)
    (hf : ∀ a, good a → better (f a)) : Settled (x.map f) condition better := by
  rcases hx with ⟨hc, a, rfl, ha⟩ | ⟨hc, e, rfl, he⟩
  · exact .inl ⟨hc, f a, rfl, hf a ha⟩
  · exact .inr ⟨hc, e, rfl, he⟩

end Settled

namespace Resource

open Plan Repository

variable {s : Schema} {db : Database} {r : Resource} {root : Entity}
  {operators : OperatorTable Operator} {query : List (String × String)} {d : Descriptor} {p : Plan}

/-- What is known of the plan of a query string under names that differ. -/
structure Drawn (s : Schema) (root : Entity) (d : Descriptor) (p : Plan) (o : Outline) : Prop where
  layout : p.Layout s
  root : p.root = root
  outline : p.outline = .ok o
  staged : p.Staged s 0 o.1
  collections : p.collectionIndex = []
  indexed : ∀ f ∈ p.indexBy, p.root.hasField f = true

theorem distinctAliases_of_namesApart (h : Asks s operators root query d p)
    (hapart : p.NamesApart) : d.DistinctAliases root := by
  have hnodup := hapart.aliases
  rwa [aliasNames_build h.2] at hnodup

theorem bareJoins_of_namesApart (hr : r.Serves s db root) (h : Asks s operators root query d p)
    (hapart : p.NamesApart) : p.BareJoins :=
  bareJoins_build hr.identifiers (Descriptor.fromQuery_of_descriptor h.1)
    (distinctAliases_of_namesApart h hapart) hr.root_mem h.2

theorem exists_drawn (hr : r.Serves s db root) (h : Asks s operators root query d p)
    (hapart : p.NamesApart) : ∃ o, Drawn s root d p o := by
  have hdistinct := distinctAliases_of_namesApart h hapart
  have hbare := bareJoins_of_namesApart hr h hapart
  obtain ⟨hd, hp⟩ := h
  have hquery := Descriptor.fromQuery_of_descriptor hd
  have hlayout := layout_build hdistinct hp
  obtain ⟨o, ho⟩ := exists_outline hlayout (suitable_of_bareJoins hbare) (exists_orderColumns hdistinct hp)
  obtain ⟨hproot, -, -, hindex, -⟩ := build_frame hp
  refine ⟨o, hlayout, hproot, ho, (resolveJoins_eq_ok hlayout (outline_eq_ok ho).1).1,
    collectionIndex_build hp fun e he => ?_, fun f hf => ?_⟩
  · obtain ⟨t, ht⟩ := hquery.relations e he
    rw [ht]
  · rw [hproot]
    exact hasField_of_indexBy hp (hindex ▸ hf)

/-- The statement of entities loads exactly if its filters and its bounds can be bound. -/
theorem settled_load (hr : r.Serves s db root) (h : Asks s operators root query d p)
    (hapart : p.NamesApart) {o : Outline} (ho : Drawn s root d p o) :
    Settled (load s db p o)
      (¬ RepeatsSingle operators root query ∧ Storable d.limit ∧ Storable d.offset) fun _ => True := by
  have hdistinct := distinctAliases_of_namesApart h hapart
  have hbare := bareJoins_of_namesApart hr h hapart
  obtain ⟨hd, hp⟩ := h
  have hquery := Descriptor.fromQuery_of_descriptor hd
  have hproot : p.root ∈ s.entities := ho.root ▸ hr.root_mem
  obtain ⟨hjoins, horder⟩ := outline_eq_ok ho.outline
  obtain ⟨-, hlimit, hoffset, -⟩ := build_frame hp
  have hselection := assemble_of_loadsApart ho.layout (loadsApart_of_bareJoins ho.layout hbare) hjoins o.2
  have hcheck : ∀ selection, p.assemble o.1 o.2 = .ok selection →
      (selection.select.check s = .ok () ↔
        ¬ RepeatsSingle operators root query ∧ Storable d.limit ∧ Storable d.offset) := by
    intro selection hsel
    cases hselection.symm.trans hsel
    rw [check_bareJoins_iff hr.schema hr.links hproot ho.layout hbare hapart hjoins
      (names_predicates hdistinct hp) rfl rfl (names_loadTree ho.staged)
      (names_orderColumns ho.layout horder), binds_predicates_iff hquery hp, hlimit, hoffset]
  generalize Plan.Selection.mk _ _ = selection at hselection
  cases hrun : selection.select.check s with
  | ok _ =>
    obtain ⟨out, hout⟩ := exists_load_of_check hr.schema hr.database hr.kinds hproot ho.staged
      hselection hrun
    exact .inl ⟨(hcheck _ hselection).mp hrun, out, hout, trivial⟩
  | error e =>
    refine .inr ⟨fun hc => ?_, e, ?_, Select.check_error hrun⟩
    · rw [(hcheck _ hselection).mpr hc] at hrun
      cases hrun
    · unfold load
      simp only [hselection, Select.run, hrun, bind, Except.bind, Except.map]

/-- The roots are counted exactly if the filters can be bound. -/
theorem settled_countRows (hr : r.Serves s db root) (h : Asks s operators root query d p)
    (hapart : p.NamesApart) {o : Outline} (ho : Drawn s root d p o) :
    Settled (countRows s db p) (¬ RepeatsSingle operators root query)
      fun n => n ≤ (db.rows root.table).length := by
  have hdistinct := distinctAliases_of_namesApart h hapart
  have hbare := bareJoins_of_namesApart hr h hapart
  obtain ⟨hd, hp⟩ := h
  have hquery := Descriptor.fromQuery_of_descriptor hd
  have hproot : p.root ∈ s.entities := ho.root ▸ hr.root_mem
  have hjoins := (outline_eq_ok ho.outline).1
  have hselection := keySelection_of_resolveJoins ho.layout hjoins
  have hcolumns : ∀ c ∈ p.root.keyColumns.map fun c => ColumnRef.mk (.entity 0) p.rootAlias c,
      ∃ k o, p.occurrence? k = some o ∧ o.Names c := by
    intro c hc
    obtain ⟨column, hcolumn, rfl⟩ := List.mem_map.mp hc
    exact ⟨0, _, rfl, column, (List.mem_filter.mp hcolumn).1, rfl⟩
  have hcheck : ∀ keys, p.keySelection = .ok keys →
      (keys.check s = .ok () ↔ ¬ RepeatsSingle operators root query) := by
    intro keys hkeys
    cases hselection.symm.trans hkeys
    rw [check_bareJoins_iff hr.schema hr.links hproot ho.layout hbare hapart hjoins
      (names_predicates hdistinct hp) rfl rfl hcolumns fun c hc => absurd hc List.not_mem_nil,
      binds_predicates_iff hquery hp]
    simp [Storable]
  generalize Select.mk _ _ _ _ _ _ = keys at hselection
  unfold countRows
  simp only [hselection, Select.runCount, bind, Except.bind]
  cases hrun : keys.check s with
  | ok _ =>
    refine .inl ⟨(hcheck _ hselection).mp hrun, _, rfl, ?_⟩
    have hcount : countRows s db p = .ok (keys.countDistinct db) := by
      unfold countRows
      simp only [hselection, Select.runCount, hrun, bind, Except.bind, Except.map]
    exact ho.root ▸ countRows_le hr.schema hr.database hproot hjoins ho.staged hcount
  | error e =>
    refine .inr ⟨fun hc => ?_, e, rfl, Select.check_error hrun⟩
    rw [(hcheck _ hselection).mpr hc] at hrun
    cases hrun

/-- All items of what a load gives have records. -/
theorem isSome_records? (hr : r.Serves s db root) {o : Outline} (ho : Drawn s root d p o)
    {items : List Item} (hitems : ∀ item ∈ items,
      ∃ row ∈ rootsOf (within p.limit p.offset (p.sorted db o.1 o.2)),
        LoadedFrom s db p.root row item) :
    ∀ item ∈ items, (r.record? s db item).isSome = true := by
  intro item hitem
  obtain ⟨row, hrow, hloaded⟩ := hitems item hitem
  obtain ⟨hstored, howns⟩ := stored_of_rootsOf hr.schema hr.database (ho.root ▸ hr.root_mem)
    (fun _ h => mem_sorted.mp (mem_within h)) hrow
  rw [ho.root] at hstored howns hloaded
  exact isSome_record? hr.schema hr.database hr.fits hstored howns hloaded

/-- An answer whose items have records can be shown. -/
theorem isSome_answer? {fetched : Fetched}
    (hitems : ∀ item ∈ pageItems fetched, (r.record? s db item).isSome = true) :
    (answer? s db r (.plain fetched)).isSome = true := by
  cases fetched with
  | single item | list items =>
    unfold answer?
    rw [Option.isSome_map]
    exact isSome_mapM hitems
  | indexed es =>
    have hrecords : (es.mapM fun e => (r.record? s db e.2).map fun v => (e.1.keyText, v)).isSome =
        true := isSome_mapM fun e he => by
      rw [Option.isSome_map]
      exact hitems _ (List.mem_map.mpr ⟨e, he, rfl⟩)
    obtain ⟨entries, hentries⟩ := Option.isSome_iff_exists.mp hrecords
    unfold answer?
    simp [hentries]

/-- A page whose items have records can be shown. -/
theorem isSome_page? {page : Page Fetched}
    (hitems : ∀ item ∈ pageItems page.items, (r.record? s db item).isSome = true)
    (htotal : page.total.natAbs < 2 ^ 63) : (answer? s db r (.page page)).isSome = true := by
  obtain ⟨records, hrecords⟩ := Option.isSome_iff_exists.mp (isSome_mapM hitems)
  obtain ⟨n, hn⟩ := Page.exists_pages htotal
  unfold answer? page? records?
  simp [hrecords, hn, Except.toOption]

variable {b : Builder}

theorem planOf_eq_ok (h : Asks s operators root query d p) (hroot : b.root = root)
    (hoperators : b.operators = operators) : planOf s ⟨b, none⟩ d = .ok p := by
  unfold planOf
  rw [hroot, hoperators]
  exact h.2

theorem settled_fetchAll (hr : r.Serves s db root) (h : Asks s operators root query d p)
    (hapart : p.NamesApart) (hroot : b.root = root) (hoperators : b.operators = operators) :
    Settled (run ⟨b, none⟩ (fetchAll s db (.descriptor d))).1
      (¬ RepeatsSingle operators root query ∧ Storable d.limit ∧ Storable d.offset)
      fun a => (answer? s db r a).isSome = true := by
  obtain ⟨o, ho⟩ := exists_drawn hr h hapart
  have hquery := Descriptor.fromQuery_of_descriptor h.1
  have hproot : p.root ∈ s.entities := ho.root ▸ hr.root_mem
  have hanswer : (run ⟨b, none⟩ (fetchAll s db (.descriptor d))).1 =
      load s db p o >>= fun loaded => shape db p .entities loaded.2 loaded.1 >>= fun items =>
        if d.countAvailableRows then
          countRows s db p >>= fun total => .ok (.page
            { items := items, total := total, limit := d.limit.map Int.ofNat,
              offset := d.offset.map Int.ofNat })
        else .ok (.plain items) := by
    rw [run_fetchAll]
    unfold answerAll
    simp only [planOf_eq_ok h hroot hoperators, ho.outline, readThrough, hquery.cache, hquery.hydration,
      readAll, bind_assoc]
  rw [hanswer]
  refine (settled_load hr h hapart ho).bind fun loaded hload _ hbinds => ?_
  obtain ⟨roots, g⟩ := loaded
  obtain ⟨fetched, hshape, hitems⟩ := exists_shape hr.schema hr.database hproot ho.staged hload
    ho.collections ho.indexed
  have hrecords := isSome_records? hr ho hitems
  dsimp only
  simp only [hshape, bind, Except.bind]
  by_cases hc : d.countAvailableRows = true
  · rcases settled_countRows hr h hapart ho with ⟨-, n, hn, hle⟩ | ⟨hrepeats, -⟩
    · simp only [hc, hn, if_true]
      refine ⟨_, rfl, isSome_page? hrecords ?_⟩
      exact lt_of_le_of_lt hle hr.size
    · exact absurd hbinds.1 hrepeats
  · simp only [hc]
    exact ⟨_, rfl, isSome_answer? hrecords⟩

theorem settled_readOne (hr : r.Serves s db root) (h : Asks s operators root query d p)
    (hapart : p.NamesApart) {o : Outline} (ho : Drawn s root d p o) :
    Settled (readOne s db p .entities o)
      (¬ RepeatsSingle operators root query ∧ Storable d.limit ∧ Storable d.offset)
      fun found => ∃ item, found = .single item ∧
        ∀ i ∈ item, (r.record? s db i).isSome = true := by
  refine (settled_load hr h hapart ho).bind fun loaded hload _ _ => ?_
  obtain ⟨roots, g⟩ := loaded
  obtain ⟨items, hhydrate, hitems⟩ := exists_items hr.schema hr.database
    (ho.root ▸ hr.root_mem) ho.staged hload ho.collections (.refl g)
  have hrecords := isSome_records? hr ho hitems
  rcases roots with _ | ⟨key, _ | ⟨other, roots⟩⟩
  · exact ⟨_, rfl, none, rfl, fun i hi => by cases hi⟩
  · simp only [hhydrate, bind, Except.bind]
    exact ⟨_, rfl, items.head?, rfl, fun i hi => hrecords i (List.mem_of_head? hi)⟩
  · exact ⟨_, rfl, none, rfl, fun i hi => by cases hi⟩

theorem settled_fetchOne (hr : r.Serves s db root) (h : Asks s operators root query d p)
    (hapart : p.NamesApart) (hroot : b.root = root) (hoperators : b.operators = operators) :
    Settled (run ⟨b, none⟩ (fetchOne s db (.descriptor d))).1
      (¬ RepeatsSingle operators root query ∧ Storable d.limit ∧ Storable d.offset)
      fun found => ∀ item ∈ found, (r.record? s db item).isSome = true := by
  obtain ⟨o, ho⟩ := exists_drawn hr h hapart
  have hquery := Descriptor.fromQuery_of_descriptor h.1
  have hanswer : (run ⟨b, none⟩ (fetchOne s db (.descriptor d))).1 =
      (answerOne s db ⟨b, none⟩ d).1 := (outcome_fetchOne s db d ⟨⟨b, none⟩, []⟩).answer
  rw [hanswer]
  unfold answerOne
  simp only [planOf_eq_ok h hroot hoperators, ho.outline, readThrough, hquery.cache, hquery.hydration]
  refine (settled_readOne hr h hapart ho).map ?_
  rintro _ ⟨item, rfl, hitem⟩
  exact hitem

theorem settled_count (hr : r.Serves s db root) (h : Asks s operators root query d p)
    (hapart : p.NamesApart) (hroot : b.root = root) (hoperators : b.operators = operators) :
    Settled (run ⟨b, none⟩ (count s db (.descriptor d))).1 (¬ RepeatsSingle operators root query)
      fun _ => True := by
  obtain ⟨o, ho⟩ := exists_drawn hr h hapart
  have hanswer : (run ⟨b, none⟩ (count s db (.descriptor d))).1 = answerCount s db ⟨b, none⟩ d :=
    (outcome_count s db d ⟨⟨b, none⟩, []⟩).answer
  rw [hanswer]
  unfold answerCount
  simp only [planOf_eq_ok h hroot hoperators, bind, Except.bind]
  rcases settled_countRows hr h hapart ho with ⟨hc, n, hn, -⟩ | hno
  · exact .inl ⟨hc, n, hn, trivial⟩
  · exact .inr hno

/-- The error of a plan that cannot be built is the answer of every operation. -/
theorem run_of_error {e : QueryError} (hroot : b.root = root) (hoperators : b.operators = operators)
    (he : (Plan.build s operators root d).plan = .error e) :
    (run ⟨b, none⟩ (fetchAll s db (.descriptor d))).1 = .error e ∧
      (run ⟨b, none⟩ (fetchOne s db (.descriptor d))).1 = .error e ∧
      (run ⟨b, none⟩ (count s db (.descriptor d))).1 = .error e := by
  have hplan : planOf s ⟨b, none⟩ d = .error e := by
    unfold planOf
    rw [hroot, hoperators]
    exact he
  refine ⟨(run_fetchAll s db ⟨b, none⟩ d).trans ?_,
    (outcome_fetchOne s db d ⟨⟨b, none⟩, []⟩).answer.trans ?_,
    (outcome_count s db d ⟨⟨b, none⟩, []⟩).answer.trans ?_⟩
  · unfold answerAll
    rw [hplan]
  · unfold answerOne
    rw [hplan]
  · unfold answerCount
    rw [hplan]
    rfl

/-- The statuses of an operation that ends as it should. -/
def Expected (op : Operation) (status : Nat) : Prop :=
  status = 200 ∨ status = 400 ∨ status = 404 ∧ op = .one

/-- A response whose status is expected, or one that is left unexplained under a condition. -/
def Explains (op : Operation) (unbindable : Prop) (response : Response) : Prop :=
  Expected op response.status ∧ ¬ unbindable ∨ response.status = 500 ∧ unbindable

theorem status_ofShown {v : Option Value} (h : v.isSome = true) : (Response.ofShown v).status = 200 := by
  obtain ⟨v, rfl⟩ := Option.isSome_iff_exists.mp h
  rfl

/-- The response to what is settled. -/
theorem explains_of_settled {α : Type} {x : Except QueryError α} {op : Operation} {condition : Prop}
    {good : α → Prop} {respond : α → Response} (hx : Settled x condition good)
    (hrespond : ∀ a, good a → Expected op (respond a).status) :
    Explains op (¬ condition) (responseOf respond x) := by
  rcases hx with ⟨hc, a, rfl, ha⟩ | ⟨hc, e, rfl, he⟩
  · exact .inl ⟨hrespond a ha, not_not.mpr hc⟩
  · refine .inr ⟨?_, hc⟩
    rw [responseOf, QueryError.status_response, he]
    rfl

theorem not_bindable_iff {op : Operation} (hop : op ≠ .count) :
    ¬ (¬ RepeatsSingle operators root query ∧ Storable d.limit ∧ Storable d.offset) ↔
      Unbindable operators root query op d := by
  unfold Unbindable
  rw [not_and_or, not_not]
  exact or_congr_right (by simp [hop])

/-- The response of an operation to the descriptor of a query string. -/
theorem explains_respondTo (hr : r.Serves s db root) (h : Asks s operators root query d p)
    (hapart : p.NamesApart) (op : Operation) :
    Explains op (Unbindable operators root query op d) (respondTo s db operators r op d) := by
  cases op with
  | list =>
    obtain ⟨b, hroot, hoperators, hb⟩ := perform_eq operators hr.entity
      (fetchAll s db (.descriptor d)) fun a => .ofShown (answer? s db r a)
    rw [← not_bindable_iff (by decide), respondTo, hb]
    exact explains_of_settled (settled_fetchAll hr h hapart hroot hoperators)
      fun a ha => .inl (status_ofShown ha)
  | one =>
    obtain ⟨b, hroot, hoperators, hb⟩ := perform_eq operators hr.entity
      (fetchOne s db (.descriptor d)) (r.oneResponse s db)
    rw [← not_bindable_iff (by decide), respondTo_one, hb]
    refine explains_of_settled (settled_fetchOne hr h hapart hroot hoperators) fun found hfound => ?_
    cases found with
    | some i => exact .inl (status_ofShown (hfound i rfl))
    | none => exact .inr (.inr ⟨rfl, rfl⟩)
  | count =>
    obtain ⟨b, hroot, hoperators, hb⟩ := perform_eq operators hr.entity
      (Repository.count s db (.descriptor d))
      fun n => .success (.mapping [(.text "count", .integer n)])
    have hcount : Unbindable operators root query .count d ↔
        ¬ ¬ RepeatsSingle operators root query := by simp [Unbindable]
    rw [hcount, respondTo, hb]
    exact explains_of_settled (settled_count hr h hapart hroot hoperators) fun n _ => .inl rfl

/-- The response of an operation to the descriptor of a query string whose plan is not built. -/
theorem respondTo_of_error (hr : r.Serves s db root) (hd : descriptor query = .ok d) {e : QueryError}
    (he : (Plan.build s operators root d).plan = .error e) (op : Operation) :
    (respondTo s db operators r op d).status = 400 := by
  have hrefused : e.response.status = 400 := by
    rw [QueryError.status_response, build_error (Descriptor.fromQuery_of_descriptor hd) he]
    rfl
  have hperform : ∀ {α : Type} {action : Work α} (respond : α → Response),
      (∀ b : Builder, b.root = root → b.operators = operators → (run ⟨b, none⟩ action).1 = .error e) →
        (perform s operators r action respond).status = 400 := fun respond haction => by
    obtain ⟨b, hroot, hoperators, hb⟩ := perform_eq operators hr.entity _ respond
    rw [hb, haction b hroot hoperators]
    exact hrefused
  cases op with
  | list => exact hperform _ fun b hroot hoperators => (run_of_error hroot hoperators he).1
  | one => exact hperform _ fun b hroot hoperators => (run_of_error hroot hoperators he).2.1
  | count => exact hperform _ fun b hroot hoperators => (run_of_error hroot hoperators he).2.2

/-- The response of an operation to a query string. -/
theorem explains_respond (hr : r.Serves s db root)
    (hapart : ∀ d p, Asks s operators root query d p → p.NamesApart) (op : Operation) :
    Explains op (∃ d p, Asks s operators root query d p ∧ Unbindable operators root query op d)
      (r.respond s db operators op query) := by
  unfold respond
  cases hd : descriptor query with
  | error e =>
    obtain ⟨fs, rfl⟩ := Descriptor.faults_of_descriptor hd
    refine .inl ⟨.inr (.inl rfl), ?_⟩
    rintro ⟨d, p, h, -⟩
    cases hd.symm.trans h.1
  | ok d =>
    dsimp only
    cases hp : (Plan.build s operators root d).plan with
    | error e =>
      refine .inl ⟨.inr (.inl (respondTo_of_error hr hd hp op)), ?_⟩
      rintro ⟨d', p, ⟨hd', hp'⟩, -⟩
      cases hd.symm.trans hd'
      cases hp.symm.trans hp'
    | ok p =>
      have hasks : Asks s operators root query d p := ⟨hd, hp⟩
      have honly : (∃ d p, Asks s operators root query d p ∧ Unbindable operators root query op d) ↔
          Unbindable operators root query op d := by
        constructor
        · rintro ⟨d', p', ⟨hd', -⟩, h⟩
          cases hd.symm.trans hd'
          exact h
        · exact fun h => ⟨d, p, hasks, h⟩
      rw [honly]
      exact explains_respondTo hr hasks (hapart d p hasks) op

theorem status_responseOf {α : Type} {op : Operation} {respond : α → Response}
    (hrespond : ∀ a, Expected op (respond a).status ∨ (respond a).status = 500)
    (x : Except QueryError α) :
    Expected op (responseOf respond x).status ∨ (responseOf respond x).status = 500 := by
  cases x with
  | ok a => exact hrespond a
  | error e =>
    rw [responseOf, QueryError.status_response]
    split
    · exact .inl (.inr (.inl rfl))
    · exact .inr rfl

theorem status_ofShown_or (op : Operation) (v : Option Value) :
    Expected op (Response.ofShown v).status ∨ (Response.ofShown v).status = 500 := by
  cases v with
  | some v => exact .inl (.inl rfl)
  | none => exact .inr rfl

/-- Whatever a query string says, the response is an expected one or leaves a failure unexplained. -/
theorem status_respond (hentity : s.entity? r.entity = some root) (op : Operation)
    (query : List (String × String)) :
    Expected op (r.respond s db operators op query).status ∨
      (r.respond s db operators op query).status = 500 := by
  unfold respond
  cases descriptor query with
  | error e =>
    cases e with
    | faults fs => exact .inl (.inr (.inl rfl))
    | unusableKey kind => exact .inr rfl
  | ok d =>
    dsimp only
    cases op with
    | list =>
      obtain ⟨b, -, -, hb⟩ := perform_eq operators hentity
        (fetchAll s db (.descriptor d)) fun a => .ofShown (answer? s db r a)
      rw [respondTo, hb]
      exact status_responseOf (fun a => status_ofShown_or _ _) _
    | one =>
      obtain ⟨b, -, -, hb⟩ := perform_eq operators hentity
        (fetchOne s db (.descriptor d)) (r.oneResponse s db)
      rw [respondTo_one, hb]
      refine status_responseOf (fun found => ?_) _
      cases found with
      | some i => exact status_ofShown_or _ _
      | none => exact .inl (.inr (.inr ⟨rfl, rfl⟩))
    | count =>
      obtain ⟨b, -, -, hb⟩ := perform_eq operators hentity
        (Repository.count s db (.descriptor d))
        fun n => .success (.mapping [(.text "count", .integer n)])
      rw [respondTo, hb]
      exact status_responseOf (fun n => .inl (.inl rfl)) _

end Resource

namespace Router

open Resource

/-- A request is responded to by the operation of the resource that it is led to. -/
theorem respond_of_find? {s : Schema} {db : Database} {operators : OperatorTable Operator}
    {router : Router} {q : Request} {r : Resource} {op : Operation}
    (hmethod : Text.upper q.method = "GET") (hfound : router.find? q.path = some (r, op)) :
    respond s operators router db q = r.respond s db operators op q.query := by
  unfold respond
  rw [hfound]
  exact if_pos hmethod

/-- A query string is answered, refused, or finds no single record, or else the failure is left
unexplained. Under names that differ this happens exactly if the plan is built and a filter that compares
with one value is given several, or a bound of a fetch is beyond 64 bits. -/
theorem status_respond_iff {s : Schema} {db : Database} {operators : OperatorTable Operator}
    {router : Router} {q : Request} {r : Resource} {op : Operation} {root : Entity}
    (hmethod : Text.upper q.method = "GET") (hfound : router.find? q.path = some (r, op))
    (hr : r.Serves s db root) :
    (Expected op (respond s operators router db q).status ∨
      (respond s operators router db q).status = 500) ∧
    ((∀ d p, Asks s operators root q.query d p → p.NamesApart) →
      ((respond s operators router db q).status = 500 ↔
        ∃ d p, Asks s operators root q.query d p ∧ Unbindable operators root q.query op d)) := by
  rw [respond_of_find? hmethod hfound]
  refine ⟨Resource.status_respond hr.entity op q.query, fun hapart => ?_⟩
  rcases explains_respond hr hapart op with ⟨hexpected, hbound⟩ | ⟨hstatus, hunbound⟩
  · refine ⟨fun h => ?_, fun h => absurd h hbound⟩
    rcases hexpected with h' | h' | ⟨h', -⟩ <;> rw [h] at h' <;> cases h'
  · exact ⟨fun _ => hunbound, fun _ => hstatus⟩

/-- Articles with their comments, on pages of two. -/
def discussedArticles : Request where
  path := "/articles"
  query := [("join[comments]", "inner"), ("filter[comments.text:like]", "%t%"), ("sort[id]", "desc"),
    ("limit", "2"), ("count", "true")]

/-- Articles with one of two numbers, asked for as if a filter could take both. -/
def numberedArticles : Request where
  path := "/articles"
  query := [("filter[id]", "1"), ("filter[id]", "2")]

theorem articles_serves : Model.articles.Serves Model.sample Model.sampleRows Model.Blog.article where
  schema := sample_wellFormed
  identifiers := by decide +kernel
  links := by decide +kernel
  database := sampleRows_sound
  kinds := by decide +kernel
  entity := by decide +kernel
  fits := by decide +kernel
  size := by decide +kernel

theorem expected_discussedArticles :
    Expected .list (respond Model.sample .builtIn Model.router Model.sampleRows discussedArticles).status ∧
      (respond Model.sample .builtIn Model.router Model.sampleRows discussedArticles).status ≠ 500 := by
  have hplan : ((descriptor discussedArticles.query).toOption.bind fun d =>
      (Plan.build Model.sample .builtIn Model.Blog.article d).plan.toOption.map fun p =>
        (decide p.NamesApart, d.limit, d.offset)) = some (true, some 2, none) := by
    decide +kernel
  have hasked : ∀ d p, Asks Model.sample .builtIn Model.Blog.article discussedArticles.query d p →
      p.NamesApart ∧ d.limit = some 2 ∧ d.offset = none := by
    rintro d p ⟨hd, hp⟩
    simpa [hd, hp, Except.toOption] using hplan
  have honce : ∀ key, (QueryString.filterValues discussedArticles.query key).length ≤ 1 := fun key => by
    have hkeys : discussedArticles.query.map (bracketKey? ·.1) = [some (.join, "comments"),
        some (.filter, "comments.text:like"), some (.sort, "id"), none, none] := by decide +kernel
    simp only [discussedArticles, List.map_cons, List.map_nil, List.cons.injEq] at hkeys
    by_cases hkey : key = "comments.text:like" <;>
      simp [QueryString.filterValues, discussedArticles, hkeys, hkey, eq_comm]
  have hfound : Model.router.find? discussedArticles.path = some (Model.articles, .list) := by
    decide +kernel
  obtain ⟨hstatus, hiff⟩ := status_respond_iff (by decide +kernel) hfound articles_serves
  have hanswered := mt (hiff fun d p h => (hasked d p h).1).mp ?_
  · exact ⟨hstatus.resolve_right hanswered, hanswered⟩
  rintro ⟨d, p, hasks, ⟨key, o, hlength, -⟩ | ⟨-, hbounds⟩⟩
  · exact absurd (honce key) (by omega)
  · obtain ⟨-, hlimit, hoffset⟩ := hasked d p hasks
    rw [hlimit, hoffset] at hbounds
    refine hbounds ⟨fun n hn => ?_, fun n hn => by cases hn⟩
    cases hn
    decide

/-- A filter that is given two values is left unexplained. -/
theorem status_numberedArticles :
    (respond Model.sample .builtIn Model.router Model.sampleRows numberedArticles).status = 500 := by
  decide +kernel

end Router
end EntityQuery
