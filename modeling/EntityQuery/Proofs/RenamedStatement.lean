import EntityQuery.Proofs.Compilation
import EntityQuery.Proofs.RenamedRows
/-!
The statements of a plan under other aliases. Both steps of drawing them up follow positions and names,
which the renaming keeps apart: the statements are those of the plan, under these aliases.
-/
namespace EntityQuery

namespace Predicate

variable (f : Renaming)

mutual

theorem columns_renamed : ∀ p : Predicate, (p.renamed f).columns = p.columns.map (ColumnRef.renamed f)
  | .constant _ | .truth _ _ _ | .nullTest _ _ | .member _ _ _ | .between _ _ _ => rfl
  | .compare _ _ r | .like _ _ _ r => by cases r <;> rfl
  | .all ps | .any ps => by
    unfold Predicate.renamed columns
    exact columnsOf_renamed ps
  | .negation p => by
    unfold Predicate.renamed columns
    exact columns_renamed p

theorem columnsOf_renamed : ∀ ps : List Predicate,
    columnsOf (renamedAll f ps) = (columnsOf ps).map (ColumnRef.renamed f)
  | [] => rfl
  | p :: ps => by
    unfold renamedAll columnsOf
    rw [columns_renamed p, columnsOf_renamed ps, List.map_append]

end

theorem conjuncts_renamed (p : Predicate) :
    (p.renamed f).conjuncts = p.conjuncts.map (Predicate.renamed f) := by
  cases p with
  | all ps => exact renamedAll_eq_map f ps
  | _ => rfl

theorem conjunction_renamed (ps : List Predicate) :
    conjunction (ps.map (Predicate.renamed f)) = (conjunction ps).renamed f := by
  have hparts : (ps.map (Predicate.renamed f)).flatMap conjuncts =
      (ps.flatMap conjuncts).map (Predicate.renamed f) := by
    rw [List.flatMap_map, List.map_flatMap]
    simp only [conjuncts_renamed]
  unfold conjunction
  rw [hparts]
  rcases ps.flatMap conjuncts with _ | ⟨p, _ | ⟨q, qs⟩⟩
  · rfl
  · rfl
  · exact congrArg all (renamedAll_eq_map f (p :: q :: qs)).symm

end Predicate

theorem Source.owners_renamed (f : Renaming) (src : Source) : (src.renamed f).owners = src.owners := by
  induction src with
  | table owner name a => rfl
  | join left right outer on ihl ihr =>
    unfold owners at ihl ihr ⊢
    unfold renamed tables
    rw [List.map_append, ihl, ihr, List.map_append]

namespace Plan

variable {p : Plan} {f : Renaming}

/-! ### Following names -/

def JoinPredicate.renamed (f : Renaming) : JoinPredicate → JoinPredicate
  | .linked extra => .linked (extra.map (Predicate.renamed f))
  | .replaced p => .replaced (p.renamed f)

/-- A join that has been followed to occurrences under other aliases. -/
def ResolvedJoin.renamed (f : Renaming) (j : ResolvedJoin) : ResolvedJoin :=
  { j with
    source := j.source.renamed f
    target := j.target.renamed f
    predicate := JoinPredicate.renamed f j.predicate }

theorem predicate_renamed (f : Renaming) (j : JoinClause) :
    (j.renamed f).predicate = j.predicate.map (JoinPredicate.renamed f) := by
  unfold JoinClause.predicate JoinClause.renamed
  dsimp only
  cases j.condition with
  | absent => rfl
  | predicate q => rcases j.conditionType with _ | _ | _ <;> rfl
  | unsuitable v => rcases j.conditionType with _ | _ | _ <;> cases v <;> rfl

theorem source_renamed (hroot : f p.rootAlias = p.rootAlias) (j : JoinClause) :
    (p.renamed f).source (j.renamed f) = (p.source j).renamed f := by
  unfold source
  rw [show (j.renamed f).sourceAlias = f j.sourceAlias from rfl, find?_names_renamed]
  cases p.names.find? j.sourceAlias with
  | none => exact (rootOccurrence_renamed hroot).symm
  | some o => rfl

theorem resolveJoin_renamed (hroot : f p.rootAlias = p.rootAlias) (place : Nat) (j : JoinClause) :
    (p.renamed f).resolveJoin place (j.renamed f) =
      (p.resolveJoin place j).map (ResolvedJoin.renamed f) := by
  have hrelationship : (p.renamed f).relationship (j.renamed f) = p.relationship j := by
    unfold relationship
    rw [source_renamed hroot]
    rfl
  unfold resolveJoin
  rw [hrelationship, predicate_renamed, source_renamed hroot]
  cases p.relationship j with
  | error e => rfl
  | ok r => cases j.predicate <;> rfl

theorem resolveJoins_renamed (hroot : f p.rootAlias = p.rootAlias) :
    (p.renamed f).resolveJoins = p.resolveJoins.map (List.map (ResolvedJoin.renamed f)) := by
  have hfrom : ∀ (js : List JoinClause) place,
      (p.renamed f).resolveJoinsFrom place (js.map (JoinClause.renamed f)) =
        (p.resolveJoinsFrom place js).map (List.map (ResolvedJoin.renamed f)) := by
    intro js
    induction js with
    | nil => exact fun _ => rfl
    | cons j js ih =>
      intro place
      rw [List.map_cons]
      unfold resolveJoinsFrom
      rw [resolveJoin_renamed hroot, ih]
      cases p.resolveJoin place j with
      | error e => rfl
      | ok r => cases p.resolveJoinsFrom (place + 1) js <;> rfl
  exact hfrom p.joins 0

theorem checkLoads_renamed (hroot : f p.rootAlias = p.rootAlias) :
    (p.renamed f).checkLoads .empty 0 (p.renamed f).joins = p.checkLoads .empty 0 p.joins := by
  have hfrom : ∀ (js : List JoinClause) (loaded : OrderedMap Nat) place,
      (p.renamed f).checkLoads (loaded.renamed f fun _ position => position) place
          (js.map (JoinClause.renamed f)) = p.checkLoads loaded place js := by
    intro js
    induction js with
    | nil => exact fun _ _ => rfl
    | cons j js ih =>
      intro loaded place
      have hnext : (loaded.renamed f fun _ position => position).insert (f j.aliasName) (place + 1) =
          (loaded.insert j.aliasName (place + 1)).renamed f fun _ position => position :=
        (OrderedMap.renamed_insert f.injective _ _ _ _).symm
      have hfind : (loaded.renamed f fun _ position => position).find? (f j.sourceAlias) =
          loaded.find? j.sourceAlias :=
        (OrderedMap.find?_renamed f.injective _ _ _).trans Option.map_id'
      have hrest : (p.renamed f).checkLoads
          ((loaded.renamed f fun _ position => position).insert (f j.aliasName) (place + 1))
          (place + 1) (js.map (JoinClause.renamed f)) =
            p.checkLoads (loaded.insert j.aliasName (place + 1)) (place + 1) js := by
        rw [hnext, ih]
      rw [List.map_cons]
      unfold checkLoads
      rw [source_renamed hroot, show (j.renamed f).sourceAlias = f j.sourceAlias from rfl,
        show (j.renamed f).aliasName = f j.aliasName from rfl, hfind, hrest]
      rfl
  exact hfrom p.joins .empty 0

theorem orderColumns_renamed (hroot : f p.rootAlias = p.rootAlias) :
    (p.renamed f).orderColumns = p.orderColumns.map (renamedOrder f) := by
  have hcolumn : ∀ c : OrderClause, (p.renamed f).orderColumn (c.renamed f) =
      (p.orderColumn c).map fun e => (e.1.renamed f, e.2) := by
    intro c
    have hnamed : ((p.renamed f).names.find? (f c.aliasName)).getD (rootOccurrence p.root) =
        ((p.names.find? c.aliasName).getD (rootOccurrence p.root)).renamed f := by
      rw [find?_names_renamed]
      cases p.names.find? c.aliasName with
      | none => exact (rootOccurrence_renamed hroot).symm
      | some o => rfl
    unfold orderColumn
    dsimp only
    rw [show (c.renamed f).aliasName = f c.aliasName from rfl,
      show (p.renamed f).root = p.root from rfl, hnamed, Occurrence.column?_renamed,
      show (c.renamed f).field = c.field from rfl]
    cases ((p.names.find? c.aliasName).getD (rootOccurrence p.root)).column? c.field <;> rfl
  have hlist : ∀ order : List OrderClause,
      (order.map (OrderClause.renamed f)).mapM (p.renamed f).orderColumn =
        (order.mapM p.orderColumn).map (renamedOrder f) := by
    intro order
    induction order with
    | nil => rfl
    | cons c order ih =>
      rw [List.map_cons, List.mapM_cons, List.mapM_cons, hcolumn, ih]
      cases p.orderColumn c with
      | error e => rfl
      | ok column => cases order.mapM p.orderColumn <;> rfl
  exact hlist p.orderBy

/-- An outline under other aliases. -/
def renamedOutline (f : Renaming) (o : List ResolvedJoin × List (ColumnRef × Direction)) :
    List ResolvedJoin × List (ColumnRef × Direction) :=
  (o.1.map (ResolvedJoin.renamed f), renamedOrder f o.2)

theorem outline_renamed (hroot : f p.rootAlias = p.rootAlias) :
    (p.renamed f).outline = p.outline.map (renamedOutline f) := by
  unfold outline
  rw [resolveJoins_renamed hroot, checkLoads_renamed hroot, orderColumns_renamed hroot]
  cases p.resolveJoins with
  | error e => rfl
  | ok js =>
    simp only [Except.map, bind, Except.bind]
    cases p.checkLoads .empty 0 p.joins with
    | error e => rfl
    | ok _ => cases p.orderColumns <;> rfl

/-! ### Putting joins together -/

def LinkPredicate.renamed (f : Renaming) : LinkPredicate → LinkPredicate
  | .direct p => .direct (p.renamed f)
  | .through table toSource toTarget => .through table (toSource.renamed f) (toTarget.renamed f)

/-- The link of a join under other aliases: those of link tables are numbered. -/
theorem linkPredicate_renamed (f : Renaming) (j : ResolvedJoin) {n : Nat} (hn : 0 < n) :
    linkPredicate (j.renamed f) n = LinkPredicate.renamed f (linkPredicate j n) := by
  unfold linkPredicate
  rw [show (j.renamed f).relationship = j.relationship from rfl]
  cases j.relationship.link with
  | owns key foreign => rfl
  | refers foreign key => rfl
  | through table sourceKey linkSource targetKey linkTarget =>
    have hnumbered : f (table ++ "_" ++ toString n) = table ++ "_" ++ toString n :=
      f.numbered ⟨table, n, hn, rfl⟩
    simp only [LinkPredicate.renamed, equality, Predicate.renamed, Operand.renamed, ColumnRef.renamed,
      Occurrence.columnNamed, ResolvedJoin.renamed, Occurrence.renamed, hnumbered]

theorem narrowed_renamed (f : Renaming) (q : Predicate) (extra : Option Predicate) :
    narrowed (q.renamed f) (extra.map (Predicate.renamed f)) = (narrowed q extra).renamed f := by
  cases extra with
  | none => rfl
  | some e => exact Predicate.conjunction_renamed f [q, e]

theorem linkTable?_renamed (f : Renaming) (j : ResolvedJoin) :
    (j.renamed f).linkTable? = j.linkTable? := by
  unfold ResolvedJoin.linkTable? ResolvedJoin.renamed
  dsimp only
  cases j.predicate <;> cases j.relationship.link <;> rfl

theorem continued_renamed (f : Renaming) (left : Source) (j : ResolvedJoin) {n : Nat} (hn : 0 < n) :
    continued (left.renamed f) (j.renamed f) n = (continued left j n).renamed f := by
  have htarget : (j.renamed f).target.source = j.target.source.renamed f := rfl
  have houter : (j.renamed f).outer = j.outer := rfl
  unfold continued
  rw [linkPredicate_renamed f j hn, htarget, houter,
    show (j.renamed f).predicate = JoinPredicate.renamed f j.predicate from rfl]
  cases j.predicate with
  | replaced q => rfl
  | linked extra =>
    dsimp only [JoinPredicate.renamed]
    cases linkPredicate j n with
    | direct q =>
      dsimp only [LinkPredicate.renamed]
      rw [narrowed_renamed]
      rfl
    | through table toSource toTarget =>
      have hnumbered : f (table ++ "_" ++ toString n) = table ++ "_" ++ toString n :=
        f.numbered ⟨table, n, hn, rfl⟩
      have hlink : (Source.table (.link j.target.position) table (table ++ "_" ++ toString n)).renamed f =
          .table (.link j.target.position) table (table ++ "_" ++ toString n) :=
        congrArg (Source.table _ table) hnumbered
      dsimp only [LinkPredicate.renamed]
      rw [narrowed_renamed]
      cases j.outer <;> simp only [Source.renamed, hnumbered, if_true, if_false, Bool.false_eq_true] <;>
        rfl

theorem continueAt_renamed (f : Renaming) (owner : Owner) {g g' : Source → Source}
    (hg : ∀ src : Source, g' (src.renamed f) = (g src).renamed f) (sources : List Source) :
    continueAt owner g' (sources.map (Source.renamed f)) =
      (continueAt owner g sources).map (List.map (Source.renamed f)) := by
  induction sources with
  | nil => rfl
  | cons src sources ih =>
    rw [List.map_cons]
    unfold continueAt
    rw [Source.owners_renamed, ih, hg]
    split
    · rfl
    · rw [Option.map_map, Option.map_map]
      rfl

/-- Whether the source at a place holds all columns beside a target. -/
def holdsAll (sources : List Source) (target : Owner) (columns : List ColumnRef) (i : Nat) : Bool :=
  match sources[i]? with
  | some src => columns.all fun c => (target :: src.owners).contains c.owner
  | none => false

theorem candidateSources_eq (sources : List Source) (j : ResolvedJoin) (q : Predicate) :
    candidateSources sources j q =
      let places := List.range sources.length
      let fitting := places.filter (holdsAll sources (.entity j.target.position) q.columns)
      if sources.length ≤ 1 || q.columns.isEmpty then places
      else if fitting.isEmpty then places else fitting := rfl

theorem holdsAll_renamed (f : Renaming) (sources : List Source) (target : Owner)
    (columns : List ColumnRef) :
    holdsAll (sources.map (Source.renamed f)) target (columns.map (ColumnRef.renamed f)) =
      holdsAll sources target columns := by
  funext i
  unfold holdsAll
  rw [List.getElem?_map]
  cases sources[i]? with
  | none => rfl
  | some src =>
    dsimp only [Option.map_some]
    rw [List.all_map, Source.owners_renamed]
    rfl

theorem candidateSources_renamed (f : Renaming) (sources : List Source) (j : ResolvedJoin)
    (q : Predicate) : candidateSources (sources.map (Source.renamed f)) (j.renamed f) (q.renamed f) =
      candidateSources sources j q := by
  rw [candidateSources_eq, candidateSources_eq, Predicate.columns_renamed, holdsAll_renamed,
    List.length_map, List.isEmpty_map]
  rfl

theorem addJoin_renamed (f : Renaming) (root : Occurrence) (sources : List Source) {n : Nat}
    (hn : 0 < n) (j : ResolvedJoin) :
    addJoin (root.renamed f) (sources.map (Source.renamed f)) n (j.renamed f) =
      (addJoin root sources n j).map (List.map (Source.renamed f)) := by
  have hadd : ∀ src : Source, continued (src.renamed f) (j.renamed f) n =
      (continued src j n).renamed f := fun src => continued_renamed f src j hn
  have hpredicate : (j.renamed f).predicate = JoinPredicate.renamed f j.predicate := rfl
  unfold addJoin
  rw [hpredicate]
  cases j.predicate with
  | replaced q =>
    dsimp only [JoinPredicate.renamed]
    rw [candidateSources_renamed, List.isEmpty_map]
    split
    · exact congrArg (fun src => Except.ok [src]) (hadd root.source)
    · rcases candidateSources sources j q with _ | ⟨i, _ | ⟨k, rest⟩⟩
      · rfl
      · refine congrArg Except.ok (List.ext_getElem? fun k => ?_)
        rw [List.getElem?_modify, List.getElem?_map, List.getElem?_map, List.getElem?_modify]
        cases sources[k]? with
        | none => split <;> rfl
        | some src =>
          split
          · exact congrArg some (hadd src)
          · rfl
      · rfl
  | linked extra =>
    have hposition : (j.renamed f).source.position = j.source.position ∧
        (j.renamed f).target.position = j.target.position := ⟨rfl, rfl⟩
    dsimp only [JoinPredicate.renamed]
    rw [hposition.1, hposition.2]
    split
    · rfl
    · refine congrArg Except.ok ?_
      rw [continueAt_renamed f _ hadd]
      cases continueAt (.entity j.source.position) (fun src => continued src j n) sources with
      | some next => rfl
      | none =>
        have hlast : continued (j.renamed f).source.source (j.renamed f) n =
            (continued j.source.source j n).renamed f := hadd j.source.source
        simp [hlast]

theorem addJoins_renamed (f : Renaming) (root : Occurrence) (js : List ResolvedJoin)
    (sources : List Source) (used : List String) :
    addJoins (root.renamed f) (sources.map (Source.renamed f)) used
        (js.map (ResolvedJoin.renamed f)) =
      (addJoins root sources used js).map (List.map (Source.renamed f)) := by
  induction js generalizing sources used with
  | nil => rfl
  | cons j js ih =>
    rw [List.map_cons]
    unfold addJoins
    dsimp only
    rw [linkTable?_renamed, addJoin_renamed f root sources (Nat.succ_pos _) j]
    cases addJoin root sources _ j with
    | error e => rfl
    | ok next => exact ih next _

theorem hasReplacedRoot_renamed (hroot : f p.rootAlias = p.rootAlias) :
    (p.renamed f).hasReplacedRoot [] (p.renamed f).joins = p.hasReplacedRoot [] p.joins := by
  have hfrom : ∀ js earlier : List JoinClause,
      (p.renamed f).hasReplacedRoot (earlier.map (JoinClause.renamed f))
        (js.map (JoinClause.renamed f)) = p.hasReplacedRoot earlier js := by
    intro js
    induction js with
    | nil => exact fun _ => rfl
    | cons j js ih =>
      intro earlier
      have hstarts : (p.renamed f).startsAtReplacedRoot (j.renamed f)
          (earlier.map (JoinClause.renamed f)) = p.startsAtReplacedRoot j earlier := by
        have hsame : ∀ e : JoinClause, ((e.renamed f).aliasName == (j.renamed f).sourceAlias) =
            (e.aliasName == j.sourceAlias) := fun e => by
          simp [JoinClause.renamed, f.injective.eq_iff]
        unfold startsAtReplacedRoot
        rw [source_renamed hroot, List.any_map]
        simp only [Function.comp_def, hsame]
        rfl
      have hrest := ih (earlier ++ [j])
      rw [List.map_append] at hrest
      rw [List.map_cons, hasReplacedRoot, hasReplacedRoot, hstarts]
      exact congrArg (p.startsAtReplacedRoot j earlier || ·) hrest
  exact hfrom p.joins []

theorem hasRepeatedPath_renamed (f : Renaming) (js : List ResolvedJoin) :
    hasRepeatedPath (js.map (ResolvedJoin.renamed f)) = hasRepeatedPath js := by
  induction js with
  | nil => rfl
  | cons j js ih =>
    rw [List.map_cons, hasRepeatedPath, hasRepeatedPath, ih, List.any_map]
    rfl

theorem withRoot_renamed (f : Renaming) (root : Occurrence) (sources : List Source) :
    withRoot (root.renamed f) (sources.map (Source.renamed f)) =
      (withRoot root sources).map (Source.renamed f) := by
  unfold withRoot
  rw [List.any_map]
  simp only [Function.comp_def, Source.owners_renamed]
  rw [show (root.renamed f).position = root.position from rfl]
  split
  · rfl
  · rw [List.map_append]
    rfl

theorem loadTree_renamed (hroot : f p.rootAlias = p.rootAlias) (js : List ResolvedJoin) :
    (p.renamed f).loadTree (js.map (ResolvedJoin.renamed f)) = (p.loadTree js).renamed f := by
  have hfold : ∀ (js : List ResolvedJoin) (t : LoadTree),
      (js.map (ResolvedJoin.renamed f)).foldl
        (fun t j => LoadTree.attach j.source.position j.relationship (.node j.target j.fields []) t)
        (t.renamed f) = (js.foldl
        (fun t j => LoadTree.attach j.source.position j.relationship (.node j.target j.fields []) t)
        t).renamed f := by
    intro js
    induction js with
    | nil => exact fun _ => rfl
    | cons j js ih =>
      intro t
      rw [List.map_cons, List.foldl_cons, List.foldl_cons, ← ih]
      exact congrArg (List.foldl _ · _) (LoadTree.attach_renamed f _ _ (.node j.target j.fields []) t)
  have hnode : (LoadTree.node (rootOccurrence p.root) p.fields []).renamed f =
      .node (rootOccurrence p.root) p.fields [] :=
    congrArg (LoadTree.node · p.fields []) (rootOccurrence_renamed hroot)
  unfold loadTree
  rw [← hfold, hnode]
  rfl

theorem conditions_renamed (hroot : f p.rootAlias = p.rootAlias) :
    (p.renamed f).conditions = p.conditions.map (Predicate.renamed f) := by
  have hkind : ∀ (name : String) (values : List Value),
      (Predicate.member false ((rootOccurrence p.root).columnNamed name) values).renamed f =
        .member false ((rootOccurrence p.root).columnNamed name) values := fun name values =>
    congrArg (fun o : Occurrence => Predicate.member false (o.columnNamed name) values)
      (rootOccurrence_renamed hroot)
  unfold conditions
  rw [List.map_append, show (p.renamed f).root = p.root from rfl]
  refine congrArg (_ ++ ·) ?_
  cases p.root.family with
  | none => rfl
  | some family =>
    dsimp only
    split
    · rfl
    · rw [List.map_cons, hkind]
      rfl

def Selection.renamed (f : Renaming) (selection : Selection) : Selection :=
  ⟨selection.select.renamed f, selection.tree.renamed f⟩

/-- The selection under other aliases. -/
theorem assemble_renamed (hroot : f p.rootAlias = p.rootAlias) (js : List ResolvedJoin)
    (order : List (ColumnRef × Direction)) :
    (p.renamed f).assemble (js.map (ResolvedJoin.renamed f)) (renamedOrder f order) =
      (p.assemble js order).map (Selection.renamed f) := by
  have hjoins := addJoins_renamed f (rootOccurrence p.root) js [] []
  rw [rootOccurrence_renamed hroot] at hjoins
  rw [List.map_nil] at hjoins
  unfold assemble
  dsimp only
  rw [hasReplacedRoot_renamed hroot, hasRepeatedPath_renamed, loadTree_renamed hroot,
    conditions_renamed hroot, show (p.renamed f).root = p.root from rfl, hjoins]
  split
  · rfl
  · cases addJoins (rootOccurrence p.root) [] [] js with
    | error e => rfl
    | ok sources =>
      have hsources := withRoot_renamed f (rootOccurrence p.root) sources
      rw [rootOccurrence_renamed hroot] at hsources
      simp only [Except.map, bind, Except.bind]
      split
      · rfl
      · rw [LoadTree.columns_renamed, hsources]
        rfl

/-- The selection of the keys under other aliases. -/
theorem keySelection_renamed (hroot : f p.rootAlias = p.rootAlias) :
    (p.renamed f).keySelection = p.keySelection.map (Select.renamed f) := by
  unfold keySelection
  rw [resolveJoins_renamed hroot]
  cases p.resolveJoins with
  | error e => rfl
  | ok js =>
    have hjoins := addJoins_renamed f (rootOccurrence p.root) js [(rootOccurrence p.root).source] []
    have hsource : (rootOccurrence p.root).source.renamed f = (rootOccurrence p.root).source :=
      congrArg Occurrence.source (rootOccurrence_renamed hroot)
    rw [rootOccurrence_renamed hroot, List.map_singleton, hsource] at hjoins
    let column (c : Column) : ColumnRef := ⟨.entity 0, (rootOccurrence p.root).aliasName, c⟩
    have hcolumns : (p.root.keyColumns.map column).map (ColumnRef.renamed f) =
        p.root.keyColumns.map column := by
      rw [List.map_map]
      refine List.map_congr_left fun c _ => ?_
      exact congrArg (fun a => ColumnRef.mk (.entity 0) a c) hroot
    change (p.renamed f).assembleKeys (js.map (ResolvedJoin.renamed f)) =
      (p.assembleKeys js).map (Select.renamed f)
    unfold assembleKeys
    dsimp only
    rw [show (p.renamed f).root = p.root from rfl, hjoins, conditions_renamed hroot]
    cases addJoins (rootOccurrence p.root) [(rootOccurrence p.root).source] [] js with
    | error e => rfl
    | ok sources =>
      simp only [Except.map, bind, Except.bind, Select.renamed]
      rw [hcolumns]
      rfl

/-! ### The index of collections -/

theorem collectionIndex_renamed (f : Renaming) (hroot : f p.rootAlias = p.rootAlias) :
    (p.renamed f).collectionIndex = p.collectionIndex := by
  have hpaths : ∀ (js : List JoinClause) (paths : OrderedMap RelationPath),
      joinPaths (paths.renamed f fun _ path => path) (js.map (JoinClause.renamed f)) =
        (joinPaths paths js).map fun jp => (jp.1.renamed f, jp.2) := by
    intro js
    induction js with
    | nil => exact fun _ => rfl
    | cons j js ih =>
      intro paths
      have hfind : (paths.renamed f fun _ path => path).find? (f j.sourceAlias) =
          paths.find? j.sourceAlias :=
        (OrderedMap.find?_renamed f.injective _ _ _).trans Option.map_id'
      have hnext : ∀ path, (paths.renamed f fun _ path => path).insert (f j.aliasName) path =
          (paths.insert j.aliasName path).renamed f fun _ path => path := fun path =>
        (OrderedMap.renamed_insert f.injective _ _ _ _).symm
      rw [List.map_cons, joinPaths, joinPaths, List.map_cons,
        show (j.renamed f).sourceAlias = f j.sourceAlias from rfl, hfind,
        show (j.renamed f).aliasName = f j.aliasName from rfl, hnext, ih]
      rfl
  have hempty : (OrderedMap.empty.insert p.rootAlias ([] : RelationPath)).renamed f
      (fun _ path => path) = OrderedMap.empty.insert p.rootAlias [] := by
    rw [OrderedMap.renamed_insert f.injective, hroot]
    rfl
  have hstep : ∀ index jp, withIndex index (JoinClause.renamed f jp.1, jp.2) = withIndex index jp := by
    intro index jp
    unfold withIndex
    rw [JoinClause.indexField?_renamed]
  have hall := hpaths p.joins (OrderedMap.empty.insert p.rootAlias [])
  rw [hempty] at hall
  rw [collectionIndex_eq, collectionIndex_eq]
  change (joinPaths (OrderedMap.empty.insert p.rootAlias []) (p.joins.map _)).foldl _ _ = _
  rw [hall, List.foldl_map]
  simp only [hstep]

end Plan
end EntityQuery
