import EntityQuery.Proofs.ChangedJoins
import EntityQuery.Proofs.Compilation
import EntityQuery.Proofs.Runnable
/-!
Joins that are restated. Where a join has another condition that is true of the same rows, binds no more
parameters and names no more columns, the statements of a plan find the same rows, and they run where they
ran before: so the plan gives what it gave before. A column that is known to resolve may be named anew.
-/
namespace EntityQuery

variable {known : ColumnRef → Prop}

/-- A predicate is true of the rows of another one, and it needs no more parameters and columns, but for
known columns. -/
structure Predicate.Says (known : ColumnRef → Prop) (q p : Predicate) : Prop where
  holds : ∀ row : JoinedRow, q.holds row = p.holds row
  parameters : ∀ x ∈ q.parameters, x ∈ p.parameters
  columns : ∀ c ∈ q.columns, c ∈ p.columns ∨ known c

theorem Predicate.Says.refl {p : Predicate} : p.Says known p :=
  ⟨fun _ => rfl, fun _ hx => hx, fun _ hc => .inl hc⟩

/-! ### Sources -/

namespace Source

/-- A source is another one with conditions that say the same. -/
inductive Says (known : ColumnRef → Prop) : Source → Source → Prop
  | refl (source : Source) : Says known source source
  | join {left left' right : Source} {outer : Bool} {on on' : Predicate} :
      Says known left' left → on'.Says known on →
        Says known (.join left' right outer on') (.join left right outer on)

variable {source source' : Source} (h : Says known source' source)

include h

theorem Says.rows (db : Database) : source'.rows db = source.rows db := by
  induction h with
  | refl => rfl
  | join _ hon ih => simp only [Source.rows, ih, hon.holds]

theorem Says.tables : source'.tables = source.tables := by
  induction h with
  | refl => rfl
  | join _ _ ih => simp only [Source.tables, ih]

theorem Says.scope : source'.scope = source.scope := by
  unfold Source.scope
  rw [h.tables]

theorem Says.parameters : ∀ x ∈ source'.parameters, x ∈ source.parameters := by
  induction h with
  | refl => exact fun _ hx => hx
  | join _ hon ih =>
    simp only [Source.parameters, List.mem_append]
    exact fun x => Or.imp (Or.imp_left (ih x)) (hon.parameters x)

theorem Says.resolves {s : Schema} {scope : NameScope} (hknown : ∀ c, known c → s.resolves scope c = true)
    (hsource : source.resolves s scope = true) : source'.resolves s scope = true := by
  induction h with
  | refl => exact hsource
  | join _ hon ih =>
    unfold Source.resolves at hsource ⊢
    simp only [Bool.and_eq_true, List.all_eq_true] at hsource ⊢
    exact ⟨⟨ih hsource.1.1, hsource.1.2⟩, fun c hc =>
      (hon.columns c hc).elim (hsource.2 c) (hknown c)⟩

/-- A selection over a source that says the same runs where that over the other one runs, and finds the
same rows. -/
theorem Says.runs {q : Select} (hq : q.sources = [source]) {s : Schema}
    (hknown : ∀ c, known c → s.resolves source.scope c = true) (hcheck : q.check s = .ok ())
    (db : Database) : { q with sources := [source'] }.check s = .ok () ∧
      { q with sources := [source'] }.rows db = q.rows db := by
  constructor
  · obtain ⟨hbinds, hresolves⟩ := Select.check_eq_ok_iff.mp hcheck
    refine Select.check_eq_ok_iff.mpr ⟨fun x hx => hbinds x ?_, ?_⟩
    · simp only [Select.parameters, hq, List.flatMap_singleton, List.mem_append] at hx ⊢
      exact hx.imp_left (Or.imp_left (h.parameters x))
    · simp only [Select.resolves, hq, List.flatMap_singleton, h.scope, List.all_cons, List.all_nil,
        Bool.and_true, Bool.and_eq_true] at hresolves ⊢
      exact ⟨⟨⟨hresolves.1.1.1, h.resolves hknown hresolves.1.1.2⟩, hresolves.1.2⟩, hresolves.2⟩
  · simp only [Select.rows, hq, productRows, h.rows db]

end Source

namespace Plan

/-! ### Chains of joins -/

/-- The condition that a join without a link table puts its target to a source under. -/
def ResolvedJoin.on? (j : ResolvedJoin) : Option Predicate :=
  match j.predicate with
  | .replaced p => some p
  | .linked extra => match linkPredicate j 0 with
    | .direct p => some (narrowed p extra)
    | .through _ _ _ => none

/-- A join is another one under a condition that says the same. -/
def ResolvedJoin.Restates (known : ColumnRef → Prop) (k j : ResolvedJoin) : Prop :=
  k = j ∨ (k.target = j.target ∧ k.outer = j.outer ∧
    ∃ on' on, k.on? = some on' ∧ j.on? = some on ∧ on'.Says known on)

theorem linkPredicate_direct {j : ResolvedJoin} {p : Predicate} {n : Nat}
    (h : linkPredicate j n = .direct p) (m : Nat) : linkPredicate j m = .direct p := by
  unfold linkPredicate at h ⊢
  cases hlink : j.relationship.link with
  | through => simp [hlink] at h
  | _ => simpa only [hlink] using h

theorem ResolvedJoin.on?_eq_some {j : ResolvedJoin} {on : Predicate} (h : j.on? = some on) :
    j.linkTable? = none ∧
      ∀ left n, continued left j n = .join left j.target.source j.outer on := by
  unfold on? at h
  cases hpredicate : j.predicate with
  | replaced p =>
    rw [hpredicate] at h
    cases h
    exact ⟨linkTable?_replaced hpredicate, fun left n => by simp [continued, hpredicate]⟩
  | linked extra =>
    simp only [hpredicate] at h
    cases hlink : linkPredicate j 0 with
    | through => simp [hlink] at h
    | direct p =>
      simp only [hlink, Option.some.injEq] at h
      refine ⟨linkTable?_direct hlink, fun left n => ?_⟩
      simp [continued, hpredicate, linkPredicate_direct hlink n, h]

theorem ResolvedJoin.Restates.linkTable? {k j : ResolvedJoin} (h : Restates known k j) :
    k.linkTable? = j.linkTable? := by
  rcases h with rfl | ⟨-, -, on', on, hk, hj, -⟩
  · rfl
  · rw [(on?_eq_some hk).1, (on?_eq_some hj).1]

theorem ResolvedJoin.Restates.continued {k j : ResolvedJoin} (h : Restates known k j) {left' left : Source}
    (hleft : left'.Says known left) (n : Nat) : (continued left' k n).Says known (continued left j n) := by
  rcases h with rfl | ⟨htarget, houter, on', on, hk, hj, hsame⟩
  · have hjoin : ∀ {right outer on},
        (Source.join left' right outer on).Says known (.join left right outer on) := .join hleft .refl
    unfold Plan.continued
    cases k.predicate with
    | replaced p => exact hjoin
    | linked extra =>
      cases linkPredicate k n with
      | direct p => exact hjoin
      | through table toSource toTarget =>
        dsimp only
        split
        · exact hjoin
        · exact .join hjoin .refl
  · rw [(on?_eq_some hk).2, (on?_eq_some hj).2, htarget, houter]
    exact .join hleft hsame

/-- A chain of restated joins says what the chain of the joins says. -/
theorem chain_restated {ks js : List ResolvedJoin} (h : List.Forall₂ (ResolvedJoin.Restates known) ks js)
    {left' left : Source} (hleft : left'.Says known left) (used : List String) :
    (chain left' used ks).Says known (chain left used js) := by
  induction h generalizing left' left used with
  | nil => exact hleft
  | @cons k j ks js hjoin _ ih =>
    have hnumber : linkNumber used k = linkNumber used j := by
      unfold linkNumber
      rw [hjoin.linkTable?]
    have hused : usedAfter used k = usedAfter used j := by
      unfold usedAfter
      rw [hjoin.linkTable?]
    rw [chain, chain, hnumber, hused]
    exact ih (hjoin.continued hleft _) _

theorem joined_restated {p q : Plan} {ks js : List ResolvedJoin} (hroot : q.root = p.root)
    (hjoins : List.Forall₂ (ResolvedJoin.Restates known) ks js) :
    (q.joined ks).Says known (p.joined js) := by
  unfold joined
  rw [hroot]
  exact chain_restated hjoins (.refl _) []

/-! ### Plans -/

/-- Plans that are the same but for the types and the conditions of their joins. -/
structure SameFrame (s : Schema) (q p : Plan) : Prop where
  layout : q.Layout s
  layout' : p.Layout s
  root : q.root = p.root
  conditions : q.conditions = p.conditions
  order : q.orderColumns = p.orderColumns
  bounds : q.limit = p.limit ∧ q.offset = p.offset
  index : q.indexBy = p.indexBy ∧ q.collectionIndex = p.collectionIndex
  apart : q.LoadsApart ↔ p.LoadsApart

theorem SameFrame.symm {s : Schema} {p q : Plan} (h : SameFrame s q p) : SameFrame s p q :=
  ⟨h.layout', h.layout, h.root.symm, h.conditions.symm, h.order.symm,
    ⟨h.bounds.1.symm, h.bounds.2.symm⟩, ⟨h.index.1.symm, h.index.2.symm⟩, h.apart.symm⟩

theorem sameFrame_mapJoins {s : Schema} {p : Plan} {f : JoinClause → JoinClause} (hf : JoinClause.Keeps f)
    (hp : p.Layout s) : SameFrame s (p.mapJoins f) p where
  layout := layout_mapJoins hf hp
  layout' := hp
  root := rfl
  conditions := rfl
  order := rfl
  bounds := ⟨rfl, rfl⟩
  index := ⟨rfl, collectionIndex_mapJoins hf p⟩
  apart := by
    unfold LoadsApart mapJoins
    dsimp only
    simp only [List.map_map, Function.comp_def, hf.sourceAlias, hf.relation]

/-- A plan whose joins restate those of another one, and which has all else of it. -/
structure Restates (s : Schema) (known : ColumnRef → Prop) (q p : Plan) : Prop where
  frame : SameFrame s q p
  joins : ∀ js, p.resolveJoins = .ok js → ∃ ks, q.resolveJoins = .ok ks ∧
    q.loadTree ks = p.loadTree js ∧ List.Forall₂ (ResolvedJoin.Restates known) ks js
  resolves : ∀ js, p.resolveJoins = .ok js → ∀ c, known c → s.resolves (p.joined js).scope c = true

section

variable {s : Schema} {p : Plan} {f : JoinClause → JoinClause} {F : ResolvedJoin → ResolvedJoin}
  (hf : JoinClause.Keeps f) (hF : ResolvedJoin.Keeps F) (hp : p.Layout s)
  (hresolve : (p.mapJoins f).resolveJoins = p.resolveJoins.map (List.map F))
  (hknown : ∀ js, p.resolveJoins = .ok js → ∀ c, known c → s.resolves (p.joined js).scope c = true)

include hf hF hp hresolve hknown

theorem restates_mapJoins
    (hjoins : ∀ js, p.resolveJoins = .ok js → ∀ j ∈ js, ResolvedJoin.Restates known (F j) j) :
    Restates s known (p.mapJoins f) p where
  frame := sameFrame_mapJoins hf hp
  joins js hjs := by
    refine ⟨js.map F, by rw [hresolve, hjs]; rfl, loadTree_map hF p js, ?_⟩
    exact List.forall₂_map_left_iff.mpr (List.forall₂_same.mpr (hjoins js hjs))
  resolves := hknown

theorem restated_mapJoins
    (hjoins : ∀ js, p.resolveJoins = .ok js → ∀ j ∈ js, ResolvedJoin.Restates known j (F j)) :
    Restates s known p (p.mapJoins f) := by
  have hfollowed : ∀ ks, (p.mapJoins f).resolveJoins = .ok ks → ∃ js, p.resolveJoins = .ok js ∧
      js.map F = ks ∧ List.Forall₂ (ResolvedJoin.Restates known) js ks := fun ks hks => by
    rw [hresolve] at hks
    obtain ⟨js, hjs, rfl⟩ := ok_of_map hks
    exact ⟨js, hjs, rfl, List.forall₂_map_right_iff.mpr (List.forall₂_same.mpr (hjoins js hjs))⟩
  refine ⟨(sameFrame_mapJoins hf hp).symm, fun ks hks => ?_, fun ks hks => ?_⟩
  · obtain ⟨js, hjs, rfl, hall⟩ := hfollowed ks hks
    exact ⟨js, hjs, (loadTree_map hF p js).symm, hall⟩
  · obtain ⟨js, hjs, -, hall⟩ := hfollowed ks hks
    rw [← (joined_restated (p := p.mapJoins f) rfl hall).scope]
    exact hknown js hjs

end

namespace Restates

variable {s : Schema} {db : Database} {p q : Plan} {js ks : List ResolvedJoin}
  (h : Restates s known q p)

include h

/-- What the plan loads is loaded from the restated joins. -/
theorem load {o : Repository.Outline} (ho : p.outline = .ok o) {out : List EntityKey × Graph}
    (hload : Repository.load s db p o = .ok out) :
    ∃ i, q.outline = .ok i ∧ Repository.load s db q i = .ok out := by
  obtain ⟨hjs, horder⟩ := Repository.outline_eq_ok ho
  obtain ⟨ks, hks, htree, hjoins⟩ := h.joins o.1 hjs
  obtain ⟨selection, hselection, hcheck, hrows⟩ := Repository.load_eq_ok hload
  have hapart : p.LoadsApart := by
    by_contra hnot
    rw [assemble_of_not_loadsApart h.frame.layout' hnot hjs] at hselection
    cases hselection
  rw [assemble_of_loadsApart h.frame.layout' hapart hjs] at hselection
  cases hselection
  have hsame := joined_restated h.frame.root hjoins
  have hselection' := assemble_of_loadsApart h.frame.layout (h.frame.apart.mpr hapart) hks o.2
  rw [htree, h.frame.conditions, h.frame.bounds.1, h.frame.bounds.2] at hselection'
  refine ⟨(ks, o.2), ?_, ?_⟩
  · unfold outline
    simp only [hks, checkLoads_of_layout h.frame.layout, h.frame.order, horder, bind, Except.bind]
  · obtain ⟨hcheck', hfound⟩ := hsame.runs rfl (h.resolves _ hjs) hcheck db
    unfold Repository.load Select.run
    simp only [hselection', hcheck', bind, Except.bind, Except.map, hfound]
    exact hrows

theorem countRows {n : Nat} (hn : Repository.countRows s db p = .ok n) :
    Repository.countRows s db q = .ok n := by
  obtain ⟨keys, hkeys, hn⟩ := ok_of_bind hn
  obtain ⟨js, hjs, -⟩ := ok_of_bind hkeys
  obtain ⟨ks, hks, -, hjoins⟩ := h.joins js hjs
  rw [keySelection_of_resolveJoins h.frame.layout' hjs] at hkeys
  cases hkeys
  obtain ⟨⟨⟩, hcheck, rfl⟩ := ok_of_map hn
  have hsame := joined_restated h.frame.root hjoins
  have hkeys' := keySelection_of_resolveJoins h.frame.layout hks
  have hroot : q.rootAlias = p.rootAlias := congrArg Entity.aliasName h.frame.root
  rw [h.frame.conditions, h.frame.root, hroot] at hkeys'
  obtain ⟨hcheck', hfound⟩ := hsame.runs rfl (h.resolves _ hjs) hcheck db
  unfold Repository.countRows Select.runCount Select.countDistinct
  simp only [hkeys', hcheck', bind, Except.bind, Except.map, hfound]
  rfl

theorem shape (db : Database) (hydration : Hydration) (g : Graph) (roots : List EntityKey) :
    Repository.shape db q hydration g roots = Repository.shape db p hydration g roots := by
  have hunfolding : Repository.unfolding db q = Repository.unfolding db p := by
    unfold Repository.unfolding
    rw [h.frame.index.2]
  unfold Repository.shape Repository.hydrate Repository.hydrateIndexed
  rw [h.frame.index.1, hunfolding]

end Restates

end Plan

namespace Repository

variable {s : Schema} {db : Database} {r : Repository} {d e : Descriptor} {p q : Plan}

/-- A query whose plan restates that of another one gives what the other one gives. -/
theorem fetchAll_of_restates (h : Plan.Restates s known q p) (hp : planOf s r d = .ok p)
    (hq : planOf s r e = .ok q) (hf : r.ReadsAfresh d) (hf' : r.ReadsAfresh e)
    (hsame : e = { d with relations := e.relations }) {a : Answer}
    (ha : (run r (fetchAll s db (.descriptor d))).1 = .ok a) :
    (run r (fetchAll s db (.descriptor e))).1 = .ok a := by
  rw [fetchAll_afresh s db hf] at ha
  obtain ⟨p', hp', ha⟩ := ok_of_bind ha
  cases hp.symm.trans hp'
  obtain ⟨o, ho, ha⟩ := ok_of_bind ha
  obtain ⟨items, hitems, ha⟩ := ok_of_bind ha
  obtain ⟨roots, g, hload, hshape⟩ := readAll_eq_ok hitems
  obtain ⟨i, hi, hload'⟩ := h.load ho hload
  have hitems' : readAll s db q e.hydration i = .ok items := by
    unfold readAll
    simp only [hload', bind, Except.bind, h.shape]
    rw [hsame]
    exact hshape
  have hanswered : answered s db e q items = .ok a := by
    unfold answered at ha ⊢
    rw [hsame]
    dsimp only
    split at ha
    · rename_i hpage
      obtain ⟨n, hn, rfl⟩ := ok_of_map ha
      rw [if_pos hpage, h.countRows hn]
      rfl
    · rename_i hpage
      rwa [if_neg hpage]
  rw [fetchAll_afresh s db hf', hq]
  simp only [bind, Except.bind, hi, hitems', hanswered]

theorem count_of_restates (h : Plan.Restates s known q p) (hp : planOf s r d = .ok p)
    (hq : planOf s r e = .ok q) {n : Nat} (hn : (run r (count s db (.descriptor d))).1 = .ok n) :
    (run r (count s db (.descriptor e))).1 = .ok n := by
  obtain ⟨p', hp', hcount⟩ := count_eq_ok hn
  cases hp.symm.trans hp'
  have hanswer : (run r (count s db (.descriptor e))).1 = answerCount s db r e :=
    (outcome_count s db e ⟨r, []⟩).answer
  rw [hanswer]
  unfold answerCount
  simp only [hq, bind, Except.bind, h.countRows hcount]

end Repository
end EntityQuery
