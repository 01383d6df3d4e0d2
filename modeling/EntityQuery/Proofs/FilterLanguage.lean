import EntityQuery.Proofs.RelationStage
/-!
The language of filter keys. A key is a field of the root, or it is a path and an operator with one colon
between them. The filter stage turns every entry into one predicate, up to the first entry whose key means
nothing or whose operator rejects its value.
-/
namespace EntityQuery

/-- A list is mapped up to its first member that fails. -/
theorem mapM_eq_error_iff {ε α β : Type} {f : α → Except ε β} {xs : List α} {err : ε} :
    xs.mapM f = .error err ↔ ∃ good x rest, xs = good ++ x :: rest ∧ (∀ g ∈ good, ∃ y, f g = .ok y) ∧
      f x = .error err := by
  induction xs with
  | nil => simp [pure, Except.pure]
  | cons x xs ih =>
    rw [List.mapM_cons]
    cases hx : f x with
    | error e =>
      constructor
      · intro h
        cases h
        exact ⟨[], x, xs, rfl, nofun, hx⟩
      · rintro ⟨good, z, rest, hsplit, hgood, hz⟩
        cases good with
        | nil =>
          obtain ⟨rfl, rfl⟩ := List.cons.inj hsplit
          cases hx.symm.trans hz
          rfl
        | cons w good =>
          obtain ⟨rfl, -⟩ := List.cons.inj hsplit
          obtain ⟨y, hy⟩ := hgood x List.mem_cons_self
          cases hx.symm.trans hy
    | ok y =>
      have hrest : (do let ys ← xs.mapM f; pure (y :: ys)) = .error err ↔ xs.mapM f = .error err := by
        cases xs.mapM f <;> simp [pure, Except.pure, bind, Except.bind]
      refine hrest.trans (ih.trans ⟨?_, ?_⟩)
      · rintro ⟨good, z, rest, rfl, hgood, hz⟩
        exact ⟨x :: good, z, rest, rfl, List.forall_mem_cons.mpr ⟨⟨y, hx⟩, hgood⟩, hz⟩
      · rintro ⟨good, z, rest, hsplit, hgood, hz⟩
        cases good with
        | nil =>
          obtain ⟨rfl, rfl⟩ := List.cons.inj hsplit
          cases hx.symm.trans hz
        | cons w good =>
          obtain ⟨rfl, rfl⟩ := List.cons.inj hsplit
          exact ⟨good, z, rest, rfl, (List.forall_mem_cons.mp hgood).2, hz⟩

/-- The operator that a name stands for: two names are reserved as they are written, all others are looked
up in lower case. -/
inductive OperatorNamed (operators : OperatorTable Operator) : String → Operator → Prop
  | negatedLike : OperatorNamed operators "nlike" .negatedLike
  | nullCheck : OperatorNamed operators "null" .nullCheck
  | registered {name : String} {o : Operator} (hnlike : name ≠ "nlike") (hnull : name ≠ "null")
      (ho : OrderedMap.find? operators (Text.lower name) = some o) : OperatorNamed operators name o

theorem operatorNamed_iff {operators : OperatorTable Operator} {name : String} {o : Operator} :
    OperatorNamed operators name o ↔ operators.resolve name = .ok o := by
  unfold OperatorTable.resolve Operator.negatedLikeName Operator.nullCheckName
  constructor
  · intro h
    cases h with
    | negatedLike => rfl
    | nullCheck => rfl
    | registered hnlike hnull ho => simp [hnlike, hnull, OperatorTable.get, ho]
  · intro h
    split at h
    · rename_i hname
      cases h
      exact hname ▸ .negatedLike
    · rename_i hnlike
      split at h
      · rename_i hname
        cases h
        exact hname ▸ .nullCheck
      · rename_i hnull
        unfold OperatorTable.get at h
        split at h
        · rename_i ho
          cases h
          exact .registered hnlike hnull ho
        · cases h

theorem resolve_eq_error {operators : OperatorTable Operator} {name : String} {err : QueryError}
    (h : operators.resolve name = .error err) : err = .unknownOperator name := by
  unfold OperatorTable.resolve OperatorTable.get at h
  split at h
  · cases h
  · split at h
    · cases h
    · split at h
      · cases h
      · exact (Except.error.inj h).symm

namespace Plan

/-! ### What a key means -/

/-- The alias and the field of a path: the texts before and after its last dot. Without a dot, or with
nothing before it, the alias is that of the root. -/
inductive PathNames (rootAlias : String) : String → String → String → Prop
  | bare {field : String} (hfield : '.' ∉ field.toList) : PathNames rootAlias field rootAlias field
  | rooted {field : String} (hfield : '.' ∉ field.toList) :
      PathNames rootAlias ("." ++ field) rootAlias field
  | qualified {a field : String} (ha : a ≠ "") (hfield : '.' ∉ field.toList) :
      PathNames rootAlias (a ++ "." ++ field) a field

theorem pathNames_iff {p : Plan} {path a field : String} :
    PathNames p.rootAlias path a field ↔ p.splitPath path = (a, field) := by
  unfold splitPath
  constructor
  · intro h
    cases h with
    | bare hfield => simp [Text.splitLastDot_dotless hfield]
    | rooted hfield =>
      have hpath : "." ++ field = "" ++ "." ++ field := by rw [String.empty_append]
      rw [hpath, Text.splitLastDot_append hfield]
      rfl
    | qualified ha hfield => simp [Text.splitLastDot_append hfield, ha]
  · intro h
    have hfield := Text.not_mem_splitLastDot path
    by_cases hdot : '.' ∈ path.toList
    · have happend := Text.append_splitLastDot hdot
      rcases hsplit : Text.splitLastDot path with ⟨before, last⟩
      rw [hsplit] at h happend hfield
      obtain ⟨rfl, rfl⟩ := Prod.mk.inj h
      subst happend
      by_cases hempty : before = ""
      · subst hempty
        rw [String.empty_append]
        exact .rooted hfield
      · simpa [hempty] using .qualified hempty hfield
    · rw [Text.splitLastDot_dotless hdot] at h
      obtain ⟨rfl, rfl⟩ := Prod.mk.inj h
      exact .bare hdot

/-- A key that is no field of the root has a path and an operator with a colon between them, the only one. -/
structure FilterKey (root : Entity) (key path name : String) : Prop where
  noField : root.hasField key = false
  key : key = path ++ ":" ++ name
  path : ':' ∉ path.toList
  name : ':' ∉ name.toList

/-- The column of a path behind the joins of a root, or what is wrong with the path. -/
inductive PathMeans (root : Entity) (joins : List JoinClause) (path : String) :
    Except QueryError ColumnRef → Prop
  | unknownAlias {a field : String} (hpath : PathNames root.aliasName path a field)
      (hnone : a ∉ root.aliasName :: joins.map (·.aliasName)) :
      PathMeans root joins path (.error (.unknownAlias a path))
  | unknownField {a field : String} {o : Occurrence} (hpath : PathNames root.aliasName path a field)
      (ha : lastNamed a (rootOccurrence root :: broughtBy joins) = some o)
      (hnone : o.entity.hasField field = false) :
      PathMeans root joins path (.error (.unknownField field o.entity.fullName))
  | column {a field : String} {o : Occurrence} {c : Column}
      (hpath : PathNames root.aliasName path a field)
      (ha : lastNamed a (rootOccurrence root :: broughtBy joins) = some o)
      (hc : o.entity.column? field = some c) :
      PathMeans root joins path (.ok ⟨.entity o.position, a, c⟩)

/-- The operator and the column of a key behind the joins of a root, or what is wrong with the key; a bad
operator is told before a bad path. -/
inductive KeyMeans (operators : OperatorTable Operator) (root : Entity) (joins : List JoinClause)
    (key : String) : Except QueryError (Operator × ColumnRef) → Prop
  | rootField {c : Column} (hc : root.column? key = some c) :
      KeyMeans operators root joins key (.ok (.equal, ⟨.entity 0, root.aliasName, c⟩))
  | malformed (hfield : root.hasField key = false) (hcolons : key.toList.count ':' ≠ 1) :
      KeyMeans operators root joins key (.error (.malformedParameter key))
  | unknownOperator {path name : String} (hkey : FilterKey root key path name)
      (hnone : ∀ o, ¬ OperatorNamed operators name o) :
      KeyMeans operators root joins key (.error (.unknownOperator name))
  | unknownPath {path name : String} {o : Operator} {err : QueryError}
      (hkey : FilterKey root key path name) (ho : OperatorNamed operators name o)
      (hpath : PathMeans root joins path (.error err)) : KeyMeans operators root joins key (.error err)
  | column {path name : String} {o : Operator} {c : ColumnRef} (hkey : FilterKey root key path name)
      (ho : OperatorNamed operators name o) (hpath : PathMeans root joins path (.ok c)) :
      KeyMeans operators root joins key (.ok (o, c))

/-- What an entry gives: the predicate of its operator over its column and value. -/
def EntryGives (operators : OperatorTable Operator) (root : Entity) (joins : List JoinClause)
    (e : String × Value) (result : Except QueryError Predicate) : Prop :=
  ∃ meaning, KeyMeans operators root joins e.1 meaning ∧
    result = meaning.bind fun m => m.1.apply m.2 e.2

/-- The operator and the column of a key. -/
def keyMeaning (operators : OperatorTable Operator) (p : Plan) (key : String) :
    Except QueryError (Operator × ColumnRef) :=
  match (rootOccurrence p.root).column? key with
  | some c => .ok (.equal, c)
  | none => match splitFilterKey? key with
    | none => .error (.malformedParameter key)
    | some (path, name) => (operators.resolve name).bind fun o => (p.column path).map fun c => (o, c)

section Keys

variable {operators : OperatorTable Operator} {p : Plan} {key : String}

theorem parameterPredicate_eq (v : Value) :
    p.parameterPredicate operators key v = (p.keyMeaning operators key).bind fun m => m.1.apply m.2 v := by
  unfold parameterPredicate keyMeaning
  cases (rootOccurrence p.root).column? key with
  | some c => rfl
  | none =>
    cases splitFilterKey? key with
    | none => rfl
    | some parts =>
      obtain ⟨path, name⟩ := parts
      dsimp only
      cases operators.resolve name with
      | error e => rfl
      | ok o => cases p.column path <;> rfl

theorem pathMeans_iff (hnames : NamesOf p.names p.root p.joins) {path : String}
    {result : Except QueryError ColumnRef} :
    PathMeans p.root p.joins path result ↔ p.column path = result := by
  unfold column
  constructor
  · intro h
    cases h with
    | unknownAlias hpath hnone =>
      simp [pathNames_iff.mp hpath, hnames.find?_eq_none_iff.mpr hnone]
    | @unknownField a field o hpath ha hnone =>
      have hcolumn : o.entity.column? field = none := by simpa [Entity.hasField] using hnone
      simp [pathNames_iff.mp hpath, (hnames.last a).trans ha, Occurrence.column?, hcolumn]
    | @column a field o c hpath ha hc =>
      simp [pathNames_iff.mp hpath, (hnames.last a).trans ha, Occurrence.column?, hc,
        (mem_of_lastNamed ha).2]
  · rintro rfl
    rcases hsplit : p.splitPath path with ⟨a, field⟩
    have hpath := pathNames_iff.mpr hsplit
    dsimp only
    cases ha : p.names.find? a with
    | none => exact .unknownAlias hpath (hnames.find?_eq_none_iff.mp ha)
    | some o =>
      have hlast := (hnames.last a).symm.trans ha
      dsimp only
      unfold Occurrence.column?
      cases hc : o.entity.column? field with
      | none => exact .unknownField hpath hlast (by simp [Entity.hasField, hc])
      | some c =>
        obtain rfl := (mem_of_lastNamed hlast).2
        exact .column hpath hlast hc

theorem splitFilterKey?_eq_none_iff : splitFilterKey? key = none ↔ key.toList.count ':' ≠ 1 := by
  constructor
  · intro hnone hcount
    have hmem : ':' ∈ key.toList := List.count_pos_iff.mp (by omega)
    obtain ⟨path, name, hkey, hpath⟩ := List.eq_append_cons_of_mem hmem
    have hname : ':' ∉ name := by
      rw [hkey, List.count_append, List.count_cons_self] at hcount
      exact List.count_eq_zero.mp (by omega)
    have happend : key = String.ofList path ++ ":" ++ String.ofList name := String.ext (by simpa using hkey)
    rw [happend, splitFilterKey?_append (by simpa using hpath) (by simpa using hname)] at hnone
    cases hnone
  · intro hcount
    cases hsplit : splitFilterKey? key with
    | none => rfl
    | some parts =>
      obtain ⟨path, name⟩ := parts
      obtain ⟨rfl, hpath, hname⟩ := splitFilterKey?_eq_some hsplit
      refine absurd ?_ hcount
      simp [List.count_eq_zero.mpr hpath, List.count_eq_zero.mpr hname]

theorem FilterKey.split {path name : String} (h : FilterKey p.root key path name) :
    (rootOccurrence p.root).column? key = none ∧ splitFilterKey? key = some (path, name) := by
  refine ⟨?_, h.key ▸ splitFilterKey?_append h.path h.name⟩
  simpa [column?_rootOccurrence, Entity.hasField] using h.noField

/-- A meaning of a key is the one that the stage works with. -/
theorem KeyMeans.keyMeaning_eq (hnames : NamesOf p.names p.root p.joins)
    {meaning : Except QueryError (Operator × ColumnRef)}
    (h : KeyMeans operators p.root p.joins key meaning) : p.keyMeaning operators key = meaning := by
  unfold keyMeaning
  cases h with
  | rootField hc => simp [column?_rootOccurrence, hc]
  | malformed hfield hcolons =>
    have hcolumn : p.root.column? key = none := by simpa [Entity.hasField] using hfield
    simp [column?_rootOccurrence, hcolumn, splitFilterKey?_eq_none_iff.mpr hcolons]
  | @unknownOperator path name hkey hnone =>
    obtain ⟨hcolumn, hsplit⟩ := hkey.split
    simp only [hcolumn, hsplit]
    cases hresolve : operators.resolve name with
    | error e =>
      rw [resolve_eq_error hresolve]
      rfl
    | ok o => exact absurd (operatorNamed_iff.mpr hresolve) (hnone o)
  | unknownPath hkey ho hpath =>
    obtain ⟨hcolumn, hsplit⟩ := hkey.split
    simp [hcolumn, hsplit, operatorNamed_iff.mp ho, (pathMeans_iff hnames).mp hpath, Except.bind,
      Except.map]
  | column hkey ho hpath =>
    obtain ⟨hcolumn, hsplit⟩ := hkey.split
    simp [hcolumn, hsplit, operatorNamed_iff.mp ho, (pathMeans_iff hnames).mp hpath, Except.bind,
      Except.map]

/-- What the stage works with is a meaning of the key. -/
theorem keyMeans_keyMeaning (hnames : NamesOf p.names p.root p.joins) (key : String) :
    KeyMeans operators p.root p.joins key (p.keyMeaning operators key) := by
  unfold keyMeaning
  rw [column?_rootOccurrence]
  cases hc : p.root.column? key with
  | some c => exact .rootField hc
  | none =>
    have hfield : p.root.hasField key = false := by simp [Entity.hasField, hc]
    dsimp only [Option.map_none]
    -- the order in which the key is taken apart is the order of the errors
    cases hsplit : splitFilterKey? key with
    | none => exact .malformed hfield (splitFilterKey?_eq_none_iff.mp hsplit)
    | some parts =>
      obtain ⟨path, name⟩ := parts
      obtain ⟨happend, hpath, hname⟩ := splitFilterKey?_eq_some hsplit
      have hkey : FilterKey p.root key path name := ⟨hfield, happend, hpath, hname⟩
      dsimp only
      cases ho : operators.resolve name with
      | error e =>
        rw [resolve_eq_error ho]
        exact .unknownOperator hkey fun o hnamed => by
          rw [operatorNamed_iff.mp hnamed] at ho
          cases ho
      | ok o =>
        cases hcol : p.column path with
        | error e => exact .unknownPath hkey (operatorNamed_iff.mpr ho) ((pathMeans_iff hnames).mpr hcol)
        | ok c => exact .column hkey (operatorNamed_iff.mpr ho) ((pathMeans_iff hnames).mpr hcol)

/-- The relation determines one meaning for each key, the one that the stage works with. -/
theorem keyMeans_iff (hnames : NamesOf p.names p.root p.joins)
    {meaning : Except QueryError (Operator × ColumnRef)} :
    KeyMeans operators p.root p.joins key meaning ↔ p.keyMeaning operators key = meaning :=
  ⟨KeyMeans.keyMeaning_eq hnames, fun h => h ▸ keyMeans_keyMeaning hnames key⟩

/-- What an entry gives is what the stage makes of it. -/
theorem entryGives_iff (hnames : NamesOf p.names p.root p.joins) {e : String × Value}
    {result : Except QueryError Predicate} :
    EntryGives operators p.root p.joins e result ↔ p.parameterPredicate operators e.1 e.2 = result := by
  rw [parameterPredicate_eq]
  constructor
  · rintro ⟨meaning, hmeaning, rfl⟩
    rw [(keyMeans_iff hnames).mp hmeaning]
  · rintro rfl
    exact ⟨_, (keyMeans_iff hnames).mpr rfl, rfl⟩

/-! ### All entries -/

/-- How the filter stage treats the entries behind the relations of a root. -/
structure ReadsFilters (operators : OperatorTable Operator) (root : Entity) (p : Plan)
    (parameters : List (String × Value)) : Prop where
  /-- Each key has one meaning. -/
  meaning : ∀ key, ∃! meaning, KeyMeans operators root p.joins key meaning
  /-- Keys of unknown operators are told apart from all other bad keys. -/
  kind : ∀ key err, KeyMeans operators root p.joins key (.error err) →
    (err.kind = .unknownOperator ∧ ∃ path name, FilterKey root key path name ∧
      ∀ o, ¬ OperatorNamed operators name o) ∨ err.kind = .invalidArgument
  /-- Entries that all give a predicate add these in their order and change nothing else. -/
  accepted : ∀ q, p.addParameters operators parameters = .ok q ↔
    ∃ predicates, List.Forall₂ (fun e predicate => EntryGives operators root p.joins e (.ok predicate))
      parameters predicates ∧ q = { p with predicates := p.predicates ++ predicates }
  /-- Otherwise the first entry that gives none decides, with its error. -/
  refused : ∀ err, p.addParameters operators parameters = .error err ↔
    ∃ good e rest, parameters = good ++ e :: rest ∧
      (∀ x ∈ good, ∃ predicate, EntryGives operators root p.joins x (.ok predicate)) ∧
      EntryGives operators root p.joins e (.error err)

theorem addParameters_eq (operators : OperatorTable Operator) (p : Plan)
    (parameters : List (String × Value)) :
    p.addParameters operators parameters =
      (parameters.mapM fun e => p.parameterPredicate operators e.1 e.2).map fun predicates =>
        { p with predicates := p.predicates ++ predicates } := by
  unfold addParameters
  cases parameters.mapM fun e => p.parameterPredicate operators e.1 e.2 <;> rfl

theorem readsFilters_of_namesOf (hnames : NamesOf p.names p.root p.joins)
    (parameters : List (String × Value)) : ReadsFilters operators p.root p parameters where
  meaning key := ⟨_, (keyMeans_iff hnames).mpr rfl, fun _ hm => ((keyMeans_iff hnames).mp hm).symm⟩
  kind key err hmeans := by
    cases hmeans with
    | malformed => exact .inr rfl
    | unknownOperator hkey hnone => exact .inl ⟨rfl, _, _, hkey, hnone⟩
    | unknownPath hkey ho hpath => cases hpath <;> exact .inr rfl
  accepted q := by
    rw [addParameters_eq, map_eq_ok_iff]
    simp only [mapM_eq_ok_iff, entryGives_iff hnames]
    exact exists_congr fun _ => and_congr_right fun _ => eq_comm
  refused err := by
    rw [addParameters_eq]
    simp only [entryGives_iff hnames]
    refine Iff.trans ?_ mapM_eq_error_iff
    cases parameters.mapM fun e => p.parameterPredicate operators e.1 e.2 <;> simp [Except.map]

/-- The filter stage behind the relations of any root accepts exactly the language of filter keys. -/
theorem addParameters_stage {s : Schema} {root : Entity} {d : Descriptor} {first : Plan}
    {relations : List (String × RelationOptions)} (hstart : start root d = .ok first)
    (hjoins : first.addRelations s relations = (p, none)) (parameters : List (String × Value)) :
    ReadsFilters operators root p parameters := by
  have hadded := (relationsAdded_nil hstart).run hjoins
  have hroot := root_start hstart
  have hsame : p.root = root := hadded.root_eq.trans hroot
  rw [← hsame]
  exact readsFilters_of_namesOf (hadded.root_eq ▸ hadded.names) parameters

/-- Filters over the articles and their comments; the field of the last one is unknown. -/
def filtersOfComments : List (String × Value) :=
  [("title", .text "One"), ("c.text:LIKE", .text "%a%"), (".id:null", .boolean true),
    ("c.title:eq", .integer 1)]

theorem readsFilters_filtersOfComments : ∃ first p, start Model.Blog.article {} = .ok first ∧
    first.addRelations Model.Blog.schema [("comments", { joinAlias := some "c" })] = (p, none) ∧
    ReadsFilters .builtIn Model.Blog.article p filtersOfComments := by
  have hstart : start Model.Blog.article {} = .ok (ofRoot Model.Blog.article) := rfl
  have hjoins : ((ofRoot Model.Blog.article).addRelations Model.Blog.schema
      [("comments", { joinAlias := some "c" })]).2 = none := by decide +kernel
  exact ⟨_, _, hstart, Prod.ext rfl hjoins, addParameters_stage hstart (Prod.ext rfl hjoins) _⟩

end Keys

end Plan
end EntityQuery
