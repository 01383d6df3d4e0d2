import Mathlib.Data.List.TakeWhile
import EntityQuery.Proofs.ChangedJoins
import EntityQuery.Proofs.Mapping
import EntityQuery.Proofs.RowOrder
import EntityQuery.Proofs.Session
import EntityQuery.Text.Identifier
/-!
The outer form of a query: one of its relations is joined outer, and a filter keeps the matches that have
a key of its target. The plan of the outer form differs from that of the query in the type of one join
and in this filter.
-/
namespace EntityQuery

namespace Text

theorem afterLastDot_append {a f : String} (hf : '.' ∉ f.toList) :
    afterLastDot (a ++ "." ++ f) = f := congrArg Prod.snd (splitLastDot_append (a := a) hf)

theorem afterLastDot_dotless {f : String} (hf : '.' ∉ f.toList) : afterLastDot f = f :=
  congrArg Prod.snd (splitLastDot_dotless hf)

theorem splitFirstDot?_eq_some {name head tail : String}
    (h : splitFirstDot? name = some (head, tail)) : name = head ++ "." ++ tail := by
  unfold splitFirstDot? at h
  split at h
  · cases h
  · rename_i c rest hdrop
    cases h
    have hfirst := List.head?_dropWhile_not (· != '.') name.toList
    have hparts := List.takeWhile_append_dropWhile (p := (· != '.')) (l := name.toList)
    rw [hdrop] at hfirst hparts
    obtain rfl : c = '.' := by simpa using hfirst
    exact String.ext (by simpa using hparts.symm)

theorem splitFirstDot?_eq_none {name : String} (h : splitFirstDot? name = none) :
    '.' ∉ name.toList := by
  unfold splitFirstDot? at h
  split at h
  · rename_i hdrop
    intro hdot
    have hpass := List.dropWhile_eq_nil_iff.mp hdrop _ hdot
    simp at hpass
  · cases h

theorem not_mem_of_isIdentifier {c : Char} (hstart : inRanges identifierStart c = false)
    (hcontinue : inRanges identifierContinue c = false) {name : String}
    (h : isIdentifier name = true) : c ∉ name.toList := by
  unfold isIdentifier isIdentifierChars at h
  split at h
  · cases h
  · rename_i first rest hchars
    obtain ⟨hfirst, hrest⟩ := Bool.and_eq_true_iff.mp h
    rw [hchars]
    intro hc
    rcases List.mem_cons.mp hc with rfl | hc
    · rw [hfirst] at hstart
      cases hstart
    · rw [List.all_eq_true.mp hrest c hc] at hcontinue
      cases hcontinue

theorem dotless_of_isIdentifier {name : String} (h : isIdentifier name = true) : '.' ∉ name.toList :=
  not_mem_of_isIdentifier (by decide +kernel) (by decide +kernel) h

theorem colonless_of_isIdentifier {name : String} (h : isIdentifier name = true) : ':' ∉ name.toList :=
  not_mem_of_isIdentifier (by decide +kernel) (by decide +kernel) h

theorem ne_empty_of_isIdentifier {name : String} (h : isIdentifier name = true) : name ≠ "" := by
  rintro rfl
  cases h

end Text

theorem splitFilterKey?_append {path name : String} (hpath : ':' ∉ path.toList)
    (hname : ':' ∉ name.toList) : splitFilterKey? (path ++ ":" ++ name) = some (path, name) := by
  have hcs : (path ++ ":" ++ name).toList = path.toList ++ ':' :: name.toList := by simp
  unfold splitFilterKey?
  rw [hcs, Text.splitAt_append hpath, Text.splitAt_without hname]
  simp

/-- Members of entities are named by identifiers. -/
def Schema.Identifiers (s : Schema) : Prop :=
  ∀ e ∈ s.entities, ∀ name ∈ e.memberNames, Text.isIdentifier name = true

instance (s : Schema) : Decidable s.Identifiers :=
  inferInstanceAs (Decidable (∀ e ∈ s.entities, ∀ name ∈ e.memberNames, _))

theorem Schema.Identifiers.column {s : Schema} (hids : s.Identifiers) {e : Entity} (he : e ∈ s.entities)
    {c : Column} (hc : c ∈ e.columns) : Text.isIdentifier c.field = true :=
  hids e he c.field (List.mem_append_left _ (List.mem_map_of_mem hc))

theorem Schema.Identifiers.field {s : Schema} (hids : s.Identifiers) {e : Entity} (he : e ∈ s.entities)
    {f : String} {c : Column} (hc : e.column? f = some c) : Text.isIdentifier f = true := by
  have hfield : c.field = f := by simpa using List.find?_some hc
  exact hfield ▸ hids.column he (List.mem_of_find?_eq_some hc)

theorem sample_identifiers : Model.sample.Identifiers := by decide +kernel

/-- Options of a relation, outer if they give a certain alias. -/
def RelationOptions.outerAt (a key : String) (o : RelationOptions) : RelationOptions :=
  if Plan.joinAlias key o = a then { o with joinType := .left } else o

/-- A join, outer if it stands under a certain alias. -/
def JoinClause.outerAt (a : String) (j : JoinClause) : JoinClause :=
  if j.aliasName = a then { j with joinType := .left } else j

section

variable (a : String) (j : JoinClause)

theorem JoinClause.keeps_outerAt : JoinClause.Keeps (·.outerAt a) := by
  constructor <;> exact fun j => by unfold outerAt; split <;> rfl

theorem JoinClause.outerAt_predicate : (j.outerAt a).predicate = j.predicate := by
  unfold outerAt
  split <;> rfl

end

namespace Plan

variable {s : Schema} {p q : Plan} {a : String}

/-- A plan whose join under an alias is outer. -/
def outerAt (a : String) (p : Plan) : Plan := { p with joins := p.joins.map (·.outerAt a) }

theorem asksChanged_outerAt (a key : String) (o : RelationOptions) :
    AsksChanged (·.outerAt a) key o (o.outerAt a key) where
  joinAlias := by
    unfold RelationOptions.outerAt
    split <;> rfl
  indexBy := by
    unfold RelationOptions.outerAt
    split <;> rfl
  fields := by
    unfold RelationOptions.outerAt
    split <;> rfl
  condition := by
    unfold RelationOptions.outerAt
    split <;> rfl
  clause p target condition fields := by
    have hjoin : (p.joinClause key o target condition fields).aliasName = joinAlias key o := rfl
    unfold RelationOptions.outerAt JoinClause.outerAt
    rw [hjoin]
    by_cases h : joinAlias key o = a
    · rw [if_pos h, if_pos h]
      rfl
    · rw [if_neg h, if_neg h]

theorem addRelations_outerAt (s : Schema) (p : Plan) (a : String)
    (relations : List (String × RelationOptions)) :
    (p.outerAt a).addRelations s (relations.map fun e => (e.1, e.2.outerAt a e.1)) =
      ((p.addRelations s relations).1.outerAt a, (p.addRelations s relations).2) :=
  addRelations_mapJoins s p fun e _ => asksChanged_outerAt a e.1 e.2

theorem withSort_outerAt (s : Schema) (p : Plan) (a : String) (sort : List (String × Direction)) :
    (p.outerAt a).withSort s sort = (p.withSort s sort).outerAt a :=
  withSort_mapJoins (JoinClause.keeps_outerAt a) s p sort

theorem collectionIndex_outerAt (p : Plan) (a : String) :
    (p.outerAt a).collectionIndex = p.collectionIndex :=
  collectionIndex_mapJoins (JoinClause.keeps_outerAt a) p

/-- A join that has been followed, outer if it stands under a certain alias. -/
def ResolvedJoin.outerAt (a : String) (j : ResolvedJoin) : ResolvedJoin :=
  if j.target.aliasName = a then { j with outer := true } else j

theorem linkNumber_outerAt (used : List String) (a : String) (j : ResolvedJoin) :
    linkNumber used (j.outerAt a) = linkNumber used j := by
  unfold ResolvedJoin.outerAt
  split <;> rfl

theorem usedAfter_outerAt (used : List String) (a : String) (j : ResolvedJoin) :
    usedAfter used (j.outerAt a) = usedAfter used j := by
  unfold ResolvedJoin.outerAt
  split <;> rfl

theorem resolveJoin_outerAt (p : Plan) (a : String) (place : Nat) (j : JoinClause) :
    (p.outerAt a).resolveJoin place (j.outerAt a) =
      (p.resolveJoin place j).map (ResolvedJoin.outerAt a) := by
  have hkeeps := JoinClause.keeps_outerAt a
  have hsource : (p.outerAt a).source (j.outerAt a) = p.source j := source_mapJoins hkeeps p j
  have hrelationship : (p.outerAt a).relationship (j.outerAt a) = p.relationship j :=
    relationship_mapJoins hkeeps p j
  unfold resolveJoin
  rw [hsource, hrelationship, JoinClause.outerAt_predicate, hkeeps.occurrence, hkeeps.fields]
  rcases p.relationship j with e | r
  · rfl
  rcases j.predicate with e | predicate
  · rfl
  have halias : (j.occurrence place).aliasName = j.aliasName := rfl
  simp only [bind, Except.bind, Except.map, ResolvedJoin.outerAt, JoinClause.outerAt, halias]
  by_cases h : j.aliasName = a <;> simp [h]

theorem resolveJoins_outerAt (p : Plan) (a : String) :
    (p.outerAt a).resolveJoins = p.resolveJoins.map (List.map (ResolvedJoin.outerAt a)) :=
  resolveJoins_mapJoins fun j _ place => resolveJoin_outerAt p a place j

theorem resolveJoins_predicates (p : Plan) (predicates : List Predicate) :
    ({ p with predicates := predicates } : Plan).resolveJoins = p.resolveJoins :=
  JoinsAs.resolveJoins ⟨rfl, rfl, rfl, rfl⟩

theorem occurrence?_outerAt (p : Plan) (a : String) (k : Nat) :
    (p.outerAt a).occurrence? k = p.occurrence? k :=
  occurrence?_mapJoins (JoinClause.keeps_outerAt a) p k

theorem ResolvedJoin.keeps_outerAt (a : String) : ResolvedJoin.Keeps (·.outerAt a) := by
  constructor <;> exact fun j => by unfold outerAt; split <;> rfl

end Plan

/-- The outer form of a query: the relation under a key, with these options, is joined outer, and a
filter asks for a field of its target. -/
def Descriptor.outerForm (d : Descriptor) (key : String) (o : RelationOptions) (field : String)
    (v : Value) : Descriptor :=
  { d with
    relations := d.relations.insert key { o with joinType := .left }
    parameters := d.parameters.insert
      (Plan.joinAlias key o ++ "." ++ field ++ ":" ++ "isnotnull") v }

theorem insertEntry_eq_map {α : Type} {key : String} {v w : α} {entries : List (String × α)}
    (hkeys : (entries.map Prod.fst).Nodup) (hfind : entries.lookup key = some w) :
    insertEntry key v entries = entries.map fun e => if e.1 = key then (key, v) else e := by
  induction entries with
  | nil => cases hfind
  | cons e rest ih =>
    obtain ⟨k, u⟩ := e
    obtain ⟨hk, hrest⟩ := List.nodup_cons.mp hkeys
    unfold insertEntry
    by_cases h : k = key
    · subst h
      have hne : ∀ e ∈ rest, ¬ e.1 = k := fun e he hek => hk (List.mem_map.mpr ⟨e, he, hek⟩)
      have hmap : rest.map (fun e => if e.1 = k then (k, v) else e) = rest := by
        conv_rhs => rw [← List.map_id rest]
        exact List.map_congr_left fun e he => if_neg (hne e he)
      rw [if_pos rfl, List.map_cons, if_pos rfl, hmap]
    · have hlookup : rest.lookup key = some w := by
        rw [List.lookup_cons, beq_false_of_ne fun e => h e.symm] at hfind
        exact hfind
      rw [if_neg h, List.map_cons, if_neg h, ih hrest hlookup]

namespace Descriptor

variable {d : Descriptor} {key : String} {o : RelationOptions} {root : Entity}

theorem mem_relations (hrel : d.relations.find? key = some o) : (key, o) ∈ d.relations.entries := by
  obtain ⟨before, after, hsplit, -⟩ := List.lookup_eq_some_iff.mp hrel
  rw [hsplit]
  simp

/-- Aliases tell the relations of a query apart. -/
theorem relation_of_joinAlias (hd : d.DistinctAliases root) (hrel : d.relations.find? key = some o)
    {e : String × RelationOptions} (he : e ∈ d.relations.entries)
    (halias : Plan.joinAlias e.1 e.2 = Plan.joinAlias key o) : e = (key, o) := by
  have hnodup : (d.relations.entries.map fun e => Plan.joinAlias e.1 e.2).Nodup :=
    (List.nodup_cons.mp hd).2
  exact List.inj_on_of_nodup_map hnodup he (mem_relations hrel) halias

theorem relations_outerForm (hd : d.DistinctAliases root) (hrel : d.relations.find? key = some o)
    (field : String) (v : Value) : (d.outerForm key o field v).relations.entries =
      d.relations.entries.map fun e => (e.1, e.2.outerAt (Plan.joinAlias key o) e.1) := by
  have hentries : (d.outerForm key o field v).relations.entries =
      insertEntry key { o with joinType := .left } d.relations.entries := rfl
  rw [hentries, insertEntry_eq_map d.relations.nodup hrel]
  refine List.map_congr_left fun e he => ?_
  unfold RelationOptions.outerAt
  by_cases hkey : e.1 = key
  · obtain rfl : e = (key, o) :=
      List.inj_on_of_nodup_map d.relations.nodup he (mem_relations hrel) hkey
    rw [if_pos rfl, if_pos rfl]
  · have halias : Plan.joinAlias e.1 e.2 ≠ Plan.joinAlias key o := fun h =>
      hkey (congrArg Prod.fst (relation_of_joinAlias hd hrel he h))
    rw [if_neg hkey, if_neg halias]

theorem distinctAliases_outerForm (hd : d.DistinctAliases root)
    (hrel : d.relations.find? key = some o) (field : String) (v : Value) :
    (d.outerForm key o field v).DistinctAliases root := by
  have haliases : (d.outerForm key o field v).joinAliases = d.joinAliases := by
    unfold joinAliases
    rw [relations_outerForm hd hrel, List.map_map]
    refine List.map_congr_left fun e _ => ?_
    dsimp only [Function.comp_apply, RelationOptions.outerAt]
    split <;> rfl
  unfold DistinctAliases
  rw [haliases]
  exact hd

end Descriptor

/-- Parameters with one more, or with one that is given another value and stands for the same
predicate. -/
theorem mapM_insertEntry {ε α β : Type} {f : String × α → Except ε β} {name : String} {v : α} {q : β}
    (hq : ∀ w, f (name, w) = .ok q) {entries : List (String × α)} {xs : List β}
    (h : entries.mapM f = .ok xs) :
    ∃ ys, (insertEntry name v entries).mapM f = .ok ys ∧ ∀ y, y ∈ ys ↔ y ∈ xs ∨ y = q := by
  induction entries generalizing xs with
  | nil =>
    cases h
    refine ⟨[q], ?_, by simp⟩
    rw [insertEntry, List.mapM_cons, hq]
    rfl
  | cons e rest ih =>
    obtain ⟨k, w⟩ := e
    rw [List.mapM_cons] at h
    obtain ⟨x, hx, h⟩ := ok_of_bind h
    obtain ⟨zs, hzs, h⟩ := ok_of_bind h
    cases h
    unfold insertEntry
    by_cases hk : k = name
    · subst hk
      cases (hq w).symm.trans hx
      refine ⟨q :: zs, ?_, by simp⟩
      rw [if_pos rfl, List.mapM_cons, hq, hzs]
      rfl
    · obtain ⟨ys, hys, hmem⟩ := ih hzs
      refine ⟨x :: ys, ?_, fun y => by simp [hmem, or_assoc]⟩
      rw [if_neg hk, List.mapM_cons, hx, hys]
      rfl

namespace Plan

variable {s : Schema} {p q : Plan}

/-- The last part of a key is the relation that it names. -/
theorem afterLastDot_of_splitRelation {key : String}
    (h : '.' ∉ (p.splitRelation key).2.toList) :
    Text.afterLastDot key = (p.splitRelation key).2 := by
  unfold splitRelation at h ⊢
  cases hkey : Text.splitFirstDot? key with
  | some parts =>
    rw [hkey] at h
    rw [Text.splitFirstDot?_eq_some hkey, Text.afterLastDot_append h]
  | none =>
    have hdot := Text.splitFirstDot?_eq_none hkey
    rw [hkey] at h
    dsimp only at h ⊢
    rw [Text.afterLastDot_dotless hdot]
    cases hroot : Text.splitFirstDot? (p.rootAlias ++ "." ++ key) with
    | none => rfl
    | some parts =>
      rw [hroot] at h
      dsimp only [Option.getD_some] at h ⊢
      rw [← Text.afterLastDot_append (a := p.rootAlias) hdot, Text.splitFirstDot?_eq_some hroot,
        Text.afterLastDot_append h]

theorem joinAlias_ne_empty {key : String} {o : RelationOptions}
    (h : Text.isIdentifier (p.splitRelation key).2 = true) : joinAlias key o ≠ "" := by
  have hlast : Text.afterLastDot key ≠ "" := by
    rw [afterLastDot_of_splitRelation (Text.dotless_of_isIdentifier h)]
    exact Text.ne_empty_of_isIdentifier h
  unfold joinAlias
  split
  · split
    · exact hlast
    · rename_i hne
      simpa using hne
  · exact hlast

/-- The alias of a join is not empty: a relation is named by an identifier. -/
theorem joinAlias_of_layout (hids : s.Identifiers) (hp : p.Layout s) (hroot : p.root ∈ s.entities)
    {i : Nat} {j : JoinClause} (hj : p.joins[i]? = some j) {e : String × RelationOptions}
    (hasked : Asked p.root e j) : joinAlias e.1 e.2 ≠ "" := by
  obtain ⟨k, -, o, r, ho, -, hr, -⟩ := hp.source i j hj
  have hname : Text.isIdentifier j.relation = true := by
    refine hids _ (entity_of_occurrence? hp hroot ho) _ (List.mem_append_right _ ?_)
    exact List.mem_map.mpr ⟨r, List.mem_of_find?_eq_some hr, relationship?_name hr⟩
  have hrelation : j.relation = ((ofRoot p.root).splitRelation e.1).2 :=
    congrArg Prod.snd hasked.path
  exact joinAlias_ne_empty (hrelation ▸ hname)

/-- A key with a colon is no field of the root. -/
theorem column?_of_colon (hids : s.Identifiers) {root : Entity} (hroot : root ∈ s.entities)
    (key : String) (hcolon : ':' ∈ key.toList) : (rootOccurrence root).column? key = none := by
  refine Option.map_eq_none_iff.mpr (List.find?_eq_none.mpr fun column hcolumn hname => ?_)
  have hid := hids.column hroot hcolumn
  rw [beq_iff_eq.mp hname] at hid
  exact Text.colonless_of_isIdentifier hid hcolon

/-- A filter key of a path and an operator, which both have no colon, gives the predicate of the operator. -/
theorem parameterPredicate_append {operators : OperatorTable Operator} (hids : s.Identifiers)
    (hroot : p.root ∈ s.entities) {path op : String} (hpath : ':' ∉ path.toList)
    (hop : ':' ∉ op.toList) (v : Value) :
    p.parameterPredicate operators (path ++ ":" ++ op) v =
      operators.resolve op >>= fun o => p.column path >>= fun c => o.apply c v := by
  unfold parameterPredicate
  rw [column?_of_colon hids hroot _ (by simp), splitFilterKey?_append hpath hop]

/-- A filter that asks for a field of the occurrence under an alias. -/
theorem parameterPredicate_isNotNull {operators : OperatorTable Operator}
    (hoperator : operators.resolve "isnotnull" = .ok .isNotNull) (hids : s.Identifiers)
    (hroot : p.root ∈ s.entities) {o : Occurrence} (ho : p.names.find? o.aliasName = some o)
    (hne : o.aliasName ≠ "") (hcolon : ':' ∉ o.aliasName.toList) {field : String}
    (hfield : Text.isIdentifier field = true) {c : ColumnRef} (hc : o.column? field = some c)
    (v : Value) :
    p.parameterPredicate operators (o.aliasName ++ "." ++ field ++ ":" ++ "isnotnull") v =
      .ok (.nullTest false c) := by
  have hdot := Text.dotless_of_isIdentifier hfield
  have hpath : ':' ∉ (o.aliasName ++ "." ++ field).toList := by
    simpa [hcolon] using Text.colonless_of_isIdentifier hfield
  have hcolumn : p.column (o.aliasName ++ "." ++ field) = .ok c := by
    have hsplit : p.splitPath (o.aliasName ++ "." ++ field) = (o.aliasName, field) := by
      simp [splitPath, Text.splitLastDot_append hdot, hne]
    unfold column
    simp only [hsplit, ho, hc]
  rw [parameterPredicate_append hids hroot hpath (by decide), hoperator, hcolumn]
  rfl

/-- The plan of the outer form: one join is outer, and one more condition asks for the key field. -/
theorem build_outerForm {operators : OperatorTable Operator} {root : Entity} {d : Descriptor}
    {key field : String} {o : RelationOptions} {v : Value} {c : ColumnRef}
    (hd : d.DistinctAliases root) (hrel : d.relations.find? key = some o)
    (h : (build s operators root d).plan = .ok p)
    (hfilter : ∀ w, p.parameterPredicate operators
      (joinAlias key o ++ "." ++ field ++ ":" ++ "isnotnull") w = .ok (.nullTest false c))
    (h' : (build s operators root (d.outerForm key o field v)).plan = .ok q) :
    ∃ predicates, q = { p.outerAt (joinAlias key o) with predicates := predicates } ∧
      ∀ row : JoinedRow, predicates.all (·.holds row) =
        (p.predicates.all (·.holds row) && (Predicate.nullTest false c).holds row) := by
  obtain ⟨first, joined, filtered, hs, hr, hf, rfl⟩ := build_eq_ok h
  obtain ⟨first', joined', filtered', hs', hr', hf', rfl⟩ := build_eq_ok h'
  obtain rfl : first = first' := Except.ok.inj (hs.symm.trans hs')
  have hnone := (frame_joined hs hr).2.1
  have hfirst : first.outerAt (joinAlias key o) = first := by
    rw [start_eq_ok hs]
    rfl
  have hjoined : joined' = joined.outerAt (joinAlias key o) := by
    have hall := addRelations_outerAt s first (joinAlias key o) d.relations.entries
    rw [hfirst, ← Descriptor.relations_outerForm hd hrel field v, hr', hr] at hall
    exact congrArg Prod.fst hall
  obtain ⟨predicates, hpredicates, rfl⟩ := addParameters_eq_ok hf
  obtain ⟨predicates', hpredicates', rfl⟩ := addParameters_eq_ok hf'
  rw [hjoined] at hpredicates' ⊢
  have hsame : ∀ e : String × Value, (joined.outerAt (joinAlias key o)).parameterPredicate operators
      e.1 e.2 = joined.parameterPredicate operators e.1 e.2 := fun _ => rfl
  simp only [hsame] at hpredicates'
  have hq : ∀ w, joined.parameterPredicate operators
      (joinAlias key o ++ "." ++ field ++ ":" ++ "isnotnull") w = .ok (.nullTest false c) := hfilter
  obtain ⟨ys, hys, hmem⟩ := mapM_insertEntry (v := v) hq hpredicates
  obtain rfl : predicates' = ys := Except.ok.inj (hpredicates'.symm.trans hys)
  have hempty : (joined.outerAt (joinAlias key o)).predicates ++ predicates' = predicates' := by
    rw [show (joined.outerAt (joinAlias key o)).predicates = [] from hnone, List.nil_append]
  refine ⟨predicates', ?_, fun row => ?_⟩
  · have hsort := withSort_outerAt s { joined with predicates := predicates' } (joinAlias key o)
      d.sort.entries
    rw [hempty]
    exact hsort
  · have hown : ({ joined with predicates := joined.predicates ++ predicates }.withSort s
        d.sort.entries).predicates = predicates := by
      rw [hnone]
      rfl
    rw [hown, Bool.eq_iff_iff, Bool.and_eq_true_iff, List.all_eq_true, List.all_eq_true]
    simp only [hmem]
    constructor
    · exact fun hall => ⟨fun x hx => hall x (.inl hx), hall _ (.inr rfl)⟩
    · rintro ⟨hall, hlast⟩ x (hx | rfl)
      · exact hall x hx
      · exact hlast

end Plan
end EntityQuery
