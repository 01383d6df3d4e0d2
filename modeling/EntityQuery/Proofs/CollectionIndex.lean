import EntityQuery.Graph.Record
import EntityQuery.Proofs.JoinPaths
import EntityQuery.Proofs.RelationStage
/-!
The index of joined collections. A join packs its index behind its alias and a dot, and the plan unpacks
it at the first dot. So the index of a plan has exactly the paths of the joins that have an index, and at
each path the field that was named last; but behind an alias that has a dot itself, that field comes out
with a part of the alias before it.
-/
namespace EntityQuery

/-- The index that the entry at a place gives to its join; an empty name is none. -/
def Descriptor.indexAt? (d : Descriptor) (place : Nat) : Option String :=
  d.relations.entries[place]?.bind fun e => e.2.indexBy.filter fun field => !field.isEmpty

namespace Text

/-- What is unpacked of a field that is packed behind an alias and a dot. -/
def unpacked (aliasName field : String) : String :=
  match splitFirstDot? aliasName with
  | none => field
  | some parts => parts.2 ++ "." ++ field

theorem splitFirstDot?_packed (aliasName field : String) :
    (splitFirstDot? (aliasName ++ "." ++ field)).map Prod.snd = some (unpacked aliasName field) := by
  unfold unpacked
  cases h : splitFirstDot? aliasName with
  | none => rw [splitFirstDot?_append (splitFirstDot?_eq_none h)]; rfl
  | some parts =>
    obtain ⟨head, tail⟩ := parts
    have hassoc : aliasName ++ "." ++ field = head ++ "." ++ (tail ++ "." ++ field) := by
      rw [splitFirstDot?_eq_some h]
      simp only [String.append_assoc]
    rw [hassoc, splitFirstDot?_append (not_mem_of_splitFirstDot? h)]
    rfl

/-- A field is unpacked as it was exactly behind an alias without a dot. -/
theorem unpacked_eq_iff {aliasName field : String} :
    unpacked aliasName field = field ↔ '.' ∉ aliasName.toList := by
  unfold unpacked
  cases h : splitFirstDot? aliasName with
  | none => simp [splitFirstDot?_eq_none h]
  | some parts =>
    refine iff_of_false (fun hsame => ?_) (fun hdot => ?_)
    · have hlength := congrArg String.length hsame
      simp [String.length_append] at hlength
    · rw [splitFirstDot?_dotless hdot] at h
      cases h

theorem dot_mem_unpacked {aliasName field : String} (h : '.' ∈ aliasName.toList) :
    '.' ∈ (unpacked aliasName field).toList := by
  unfold unpacked
  cases hparts : splitFirstDot? aliasName with
  | none => exact absurd h (splitFirstDot?_eq_none hparts)
  | some parts => simp

end Text

namespace Plan

variable {s : Schema} {operators : OperatorTable Operator} {root : Entity} {d : Descriptor} {p : Plan}
  {path path' : RelationPath} {field : String} {index : List (RelationPath × String)}

/-! ### Paths of aliases -/

/-- The relationships that lead from the root to what stands under an alias. -/
inductive PathTo (p : Plan) : String → RelationPath → Prop
  | root : p.PathTo p.rootAlias []
  | join {j : JoinClause} {path : RelationPath} (hj : j ∈ p.joins) (hsource : p.PathTo j.sourceAlias path) :
      p.PathTo j.aliasName (path ++ [j.relation])

theorem pathTo_of_pathAt? (hp : p.Layout s) {k : Nat} {o : Occurrence} (ho : p.occurrence? k = some o)
    (hpath : p.pathAt? k = some path) : p.PathTo o.aliasName path := by
  induction k using Nat.strongRecOn generalizing o path with
  | ind k ih =>
    cases k with
    | zero =>
      cases ho
      cases hpath
      exact .root
    | succ i =>
      obtain ⟨j, hj, rfl⟩ := Option.map_eq_some_iff.mp ho
      obtain ⟨n, hn, source, before, hsource, hname, hbefore, hindexed⟩ := path_of_join hp hj
      rw [pathAt?, hindexed] at hpath
      cases hpath
      exact .join (List.mem_of_getElem? hj) (hname ▸ ih n (by omega) hsource hbefore)

theorem exists_pathAt?_of_pathTo (hp : p.Layout s) {a : String} (h : p.PathTo a path) :
    ∃ k o, p.occurrence? k = some o ∧ o.aliasName = a ∧ p.pathAt? k = some path := by
  induction h with
  | root => exact ⟨0, _, rfl, rfl, rfl⟩
  | @join j path hj _ ih =>
    obtain ⟨k, o, ho, hname, hpath⟩ := ih
    obtain ⟨i, hi⟩ := List.mem_iff_getElem?.mp hj
    obtain ⟨n, -, source, before, hsource, hsourceName, hbefore, hindexed⟩ := path_of_join hp hi
    obtain rfl : n = k := by
      have hsame := occurrence?_name hp hsource
      rw [hsourceName, ← hname, occurrence?_name hp ho] at hsame
      rw [← occurrence?_position hsource, ← occurrence?_position ho, Option.some.inj hsame]
    cases hbefore.symm.trans hpath
    exact ⟨i + 1, j.occurrence i, by simp [occurrence?, hi], rfl, by rw [pathAt?, hindexed]; rfl⟩

/-- The joined paths are those of the aliases. -/
theorem joinedPaths_eq_some_iff (hp : p.Layout s) {i : Nat} {j : JoinClause} :
    p.joinedPaths[i]? = some (j, path) ↔ p.joins[i]? = some j ∧ p.PathTo j.aliasName path := by
  constructor
  · intro h
    obtain ⟨hj, -⟩ := join_of_joinedPath hp h
    have ho : p.occurrence? (i + 1) = some (j.occurrence i) := by simp [occurrence?, hj]
    exact ⟨hj, pathTo_of_pathAt? hp ho (by rw [pathAt?, h]; rfl)⟩
  · rintro ⟨hj, hpath⟩
    obtain ⟨k, o, ho, hname, hk⟩ := exists_pathAt?_of_pathTo hp hpath
    have hsame := occurrence?_name hp ho
    rw [hname, hp.join_name i j hj] at hsame
    obtain rfl : i + 1 = k := by
      rw [← occurrence?_position ho, ← Option.some.inj hsame]
      rfl
    obtain ⟨n, -, o, before, -, -, -, hindexed⟩ := path_of_join hp hj
    rw [pathAt?, hindexed] at hk
    cases hk
    exact hindexed

/-! ### The fold over the joins -/

theorem lookup_insertPath (path path' : RelationPath) (field : String)
    (index : List (RelationPath × String)) :
    (insertPath path field index).lookup path' =
      if path' = path then some field else index.lookup path' := by
  induction index with
  | nil =>
    by_cases hsame : path' = path
    · simp [insertPath, hsame]
    · simp [insertPath, List.lookup_cons, beq_eq_false_iff_ne.mpr hsame, hsame]
  | cons e index ih =>
    obtain ⟨before, given⟩ := e
    unfold insertPath
    by_cases he : before = path
    · by_cases hsame : path' = path
      · simp [he, hsame]
      · simp [he, hsame, List.lookup_cons, beq_eq_false_iff_ne.mpr hsame]
    · rw [if_neg he, List.lookup_cons, List.lookup_cons, ih]
      by_cases hbefore : path' = before
      · have hne : path' ≠ path := fun hsame => he (hbefore ▸ hsame)
        simp [hbefore, he]
      · simp [beq_eq_false_iff_ne.mpr hbefore]

theorem keys_insertPath (path : RelationPath) (field : String) (index : List (RelationPath × String)) :
    (insertPath path field index).map Prod.fst =
      if path ∈ index.map Prod.fst then index.map Prod.fst else index.map Prod.fst ++ [path] := by
  induction index with
  | nil => simp [insertPath]
  | cons e index ih =>
    by_cases he : e.1 = path
    · simp [insertPath, he]
    · have hne : path ≠ e.1 := Ne.symm he
      simp only [insertPath, he, if_false, List.map_cons, ih, List.mem_cons, hne, false_or]
      split <;> rfl

theorem nodup_insertPath (h : (index.map Prod.fst).Nodup) :
    ((insertPath path field index).map Prod.fst).Nodup := by
  rw [keys_insertPath]
  split
  · exact h
  · rename_i hnew
    exact List.nodup_append.mpr ⟨h, List.nodup_singleton _, fun x hx y hy hsame =>
      hnew (List.mem_singleton.mp hy ▸ hsame ▸ hx)⟩

/-- No path stands twice in the index of a plan. -/
theorem nodup_collectionIndex (p : Plan) : (p.collectionIndex.map Prod.fst).Nodup := by
  have hfold : ∀ (indexed : List (JoinClause × RelationPath)) {index : List (RelationPath × String)},
      (index.map Prod.fst).Nodup → ((indexed.foldl withIndex index).map Prod.fst).Nodup := by
    intro indexed
    induction indexed with
    | nil => exact id
    | cons jp indexed ih =>
      intro index h
      refine ih ?_
      unfold withIndex
      split
      · exact nodup_insertPath h
      · exact h
  rw [collectionIndex_eq]
  exact hfold _ List.nodup_nil

/-- The field that a join puts at a path. -/
def fieldAlong (path : RelationPath) (jp : JoinClause × RelationPath) : Option String :=
  if jp.2 = path then jp.1.indexField? else none

theorem lookup_withIndex (index : List (RelationPath × String)) (jp : JoinClause × RelationPath) :
    (withIndex index jp).lookup path = (fieldAlong path jp).or (index.lookup path) := by
  unfold withIndex fieldAlong
  cases hfield : jp.1.indexField? with
  | none => simp
  | some field =>
    rw [lookup_insertPath]
    by_cases hpath : jp.2 = path
    · simp [hpath]
    · simp [hpath, Ne.symm hpath]

/-- The last join that puts a field at a path decides. -/
theorem lookup_foldl_withIndex {indexed : List (JoinClause × RelationPath)} :
    (indexed.foldl withIndex []).lookup path = some field ↔
      ∃ (i : Nat) (jp : JoinClause × RelationPath), indexed[i]? = some jp ∧
        fieldAlong path jp = some field ∧
        ∀ (i' : Nat) jp', indexed[i']? = some jp' → (fieldAlong path jp').isSome → i' ≤ i := by
  induction indexed using List.reverseRecOn with
  | nil => simp
  | append_singleton indexed jp ih =>
    have hlast : (indexed ++ [jp])[indexed.length]? = some jp := by simp
    have hle : ∀ {i x}, (indexed ++ [jp])[i]? = some x → i ≤ indexed.length := fun hx => by
      have hlt := (List.getElem?_eq_some_iff.mp hx).1
      simp at hlt
      omega
    rw [List.foldl_append, List.foldl_cons, List.foldl_nil, lookup_withIndex]
    cases hfield : fieldAlong path jp with
    | some given =>
      rw [Option.some_or, Option.some.injEq]
      constructor
      · rintro rfl
        exact ⟨_, jp, hlast, hfield, fun i' jp' hjp' _ => hle hjp'⟩
      · rintro ⟨i, jp', hjp', hfield', hlater⟩
        obtain rfl : i = indexed.length :=
          Nat.le_antisymm (hle hjp') (hlater _ jp hlast (by simp [hfield]))
        cases hlast.symm.trans hjp'
        exact Option.some.inj (hfield.symm.trans hfield')
    -- a join without an index along the path leaves the last one before it
    | none =>
      rw [Option.none_or, ih]
      constructor
      · rintro ⟨i, jp', hjp', hfield', hlater⟩
        refine ⟨i, jp', ?_, hfield', fun i' x hx hsome => ?_⟩
        · rw [List.getElem?_append_left (List.getElem?_eq_some_iff.mp hjp').1, hjp']
        · rcases getElem?_append_singleton hx with hx | ⟨-, rfl⟩
          · exact hlater i' x hx hsome
          · simp [hfield] at hsome
      · rintro ⟨i, jp', hjp', hfield', hlater⟩
        rcases getElem?_append_singleton hjp' with hjp' | ⟨-, rfl⟩
        · refine ⟨i, jp', hjp', hfield', fun i' x hx hsome => hlater i' x ?_ hsome⟩
          rw [List.getElem?_append_left (List.getElem?_eq_some_iff.mp hx).1, hx]
        · cases hfield.symm.trans hfield'

/-! ### Joins with an index -/

/-- A join of a plan has an index and leads along a path. -/
structure IndexedAlong (d : Descriptor) (p : Plan) (path : RelationPath) (place : Nat) (j : JoinClause)
    (field : String) : Prop where
  joined : p.joins[place]? = some j
  along : p.PathTo j.aliasName path
  index : d.indexAt? place = some field

/-- The last join along a path that has an index. -/
structure LastIndexed (d : Descriptor) (p : Plan) (path : RelationPath) (place : Nat) (j : JoinClause)
    (field : String) : Prop extends IndexedAlong d p path place j field where
  last : ∀ {place' j' field'}, IndexedAlong d p path place' j' field' → place' ≤ place

/-- Each join of a built plan is the one that the entry at its place adds behind those before it. -/
theorem exists_entry_build (h : (build s operators root d).plan = .ok p) {i : Nat} {j : JoinClause}
    (hj : p.joins[i]? = some j) : ∃ e, d.relations.entries[i]? = some e ∧
      Joins s root (p.joins.take i) e j := by
  obtain ⟨hroot, -⟩ := build_frame h
  obtain ⟨first, joined, filtered, hstart, hjoined, hfiltered, rfl⟩ := build_eq_ok h
  obtain ⟨predicates, -, rfl⟩ := addParameters_eq_ok hfiltered
  have hadded := (relationsAdded_nil hstart).run hjoined
  obtain ⟨e, he, hjoins, -⟩ := hadded.joined i j hj
  have hfirst := root_start hstart
  exact ⟨e, he, hfirst ▸ hjoins⟩

/-- The index of a built join is unpacked from that of its entry. -/
theorem indexField?_build (h : (build s operators root d).plan = .ok p) {i : Nat} {j : JoinClause}
    (hj : p.joins[i]? = some j) :
    j.indexField? = (d.indexAt? i).map (Text.unpacked j.aliasName) := by
  obtain ⟨e, he, hjoins⟩ := exists_entry_build h hj
  unfold JoinClause.indexField? Descriptor.indexAt?
  rw [hjoins.indexBy, he, Option.bind_some]
  cases e.2.indexBy with
  | none => rfl
  | some field => by_cases hfield : field = "" <;> simp [hfield, Option.filter, Text.splitFirstDot?_packed]

/-- A join puts a field along a path exactly if it has an index and leads along it. -/
theorem fieldAlong_joinedPaths (hd : d.DistinctAliases root) (h : (build s operators root d).plan = .ok p)
    {i : Nat} : (∃ jp, p.joinedPaths[i]? = some jp ∧ fieldAlong path jp = some field) ↔
      ∃ j given, IndexedAlong d p path i j given ∧ field = Text.unpacked j.aliasName given := by
  have hp := layout_build hd h
  constructor
  · rintro ⟨⟨j, along⟩, hjp, hfield⟩
    obtain ⟨rfl, hindex⟩ := Option.ite_none_right_eq_some.mp hfield
    obtain ⟨hj, hpath⟩ := (joinedPaths_eq_some_iff hp).mp hjp
    rw [indexField?_build h hj] at hindex
    obtain ⟨given, hgiven, rfl⟩ := Option.map_eq_some_iff.mp hindex
    exact ⟨j, given, ⟨hj, hpath, hgiven⟩, rfl⟩
  · rintro ⟨j, given, hindexed, rfl⟩
    refine ⟨(j, path), (joinedPaths_eq_some_iff hp).mpr ⟨hindexed.joined, hindexed.along⟩, ?_⟩
    rw [fieldAlong, if_pos rfl, indexField?_build h hindexed.joined, hindexed.index, Option.map_some]

/-- The field at a path of the index is that of the last join along it that has an index. -/
theorem lookup_collectionIndex_iff (hd : d.DistinctAliases root)
    (h : (build s operators root d).plan = .ok p) :
    p.collectionIndex.lookup path = some field ↔
      ∃ place j given, LastIndexed d p path place j given ∧ field = Text.unpacked j.aliasName given := by
  have hat : ∀ {i field}, (∃ jp, p.joinedPaths[i]? = some jp ∧ fieldAlong path jp = some field) ↔ _ :=
    fun {i field} => fieldAlong_joinedPaths hd h
  rw [collectionIndex_eq, lookup_foldl_withIndex]
  constructor
  · rintro ⟨i, jp, hjp, hfield, hlater⟩
    obtain ⟨j, given, hindexed, rfl⟩ := hat.mp ⟨jp, hjp, hfield⟩
    refine ⟨i, j, given, ⟨hindexed, fun hindexed' => ?_⟩, rfl⟩
    obtain ⟨jp', hjp', hfield'⟩ := hat.mpr ⟨_, _, hindexed', rfl⟩
    exact hlater _ jp' hjp' (by simp [hfield'])
  · rintro ⟨i, j, given, hlast, rfl⟩
    obtain ⟨jp, hjp, hfield⟩ := hat.mpr ⟨j, given, hlast.toIndexedAlong, rfl⟩
    refine ⟨i, jp, hjp, hfield, fun i' jp' hjp' hsome => ?_⟩
    obtain ⟨field', hfield'⟩ := Option.isSome_iff_exists.mp hsome
    obtain ⟨j', given', hindexed', -⟩ := hat.mp ⟨jp', hjp', hfield'⟩
    exact hlast.last hindexed'

/-- Along a path with an index there is a last join with one. -/
theorem exists_lastIndexed {place : Nat} {j : JoinClause} (h : IndexedAlong d p path place j field) :
    ∃ place j field, LastIndexed d p path place j field := by
  classical
  let isIndexed : Nat → Prop := fun place => ∃ j field, IndexedAlong d p path place j field
  have hbound : ∀ {place}, isIndexed place → place ≤ p.joins.length := fun ⟨_, _, hindexed⟩ =>
    Nat.le_of_lt (List.getElem?_eq_some_iff.mp hindexed.joined).1
  have hgreatest : isIndexed (Nat.findGreatest isIndexed p.joins.length) :=
    Nat.findGreatest_spec (hbound ⟨j, field, h⟩) ⟨j, field, h⟩
  obtain ⟨last, given, hlast⟩ := hgreatest
  exact ⟨_, last, given, hlast, fun {place' j' field'} hindexed =>
    Nat.le_findGreatest (hbound ⟨j', field', hindexed⟩) ⟨j', field', hindexed⟩⟩

/-- Where joins load apart, no two of them lead along one path. -/
theorem lastIndexed_of_loadsApart (hp : p.Layout s) (hapart : p.LoadsApart) {place : Nat} {j : JoinClause}
    (h : IndexedAlong d p path place j field) : LastIndexed d p path place j field where
  toIndexedAlong := h
  last {place' j' field'} h' := by
    have hpath : p.pathAt? (place + 1) = some path := by
      rw [pathAt?, (joinedPaths_eq_some_iff hp).mpr ⟨h.joined, h.along⟩]
      rfl
    have hpath' : p.pathAt? (place' + 1) = some path := by
      rw [pathAt?, (joinedPaths_eq_some_iff hp).mpr ⟨h'.joined, h'.along⟩]
      rfl
    have hsame := pathAt?_inj hp hapart hpath' hpath
    omega

/-! ### Collections under the index -/

/-- A collection at a path of the index is keyed by the field there. -/
theorem unfoldReference_keyed {u : Unfolding} (hfield : u.index.lookup path = some field)
    (way : List EntityKey) (record : Graph → EntityKey → Unfolded) (g : Graph) (ks : List EntityKey) :
    unfoldReference u way path record g (.many ks) =
      (unfoldKeyed u.read field record g (ks.filter fun k => !way.contains k)).map fun (es, h) =>
        (some (.mapping (Value.keyedOfList es)), h) := by
  simp only [unfoldReference, hfield]

/-- Entities have no member whose name has a dot. -/
theorem column?_eq_none_of_dot (hids : s.Identifiers) {e : Entity} (he : e ∈ s.entities)
    (hdot : '.' ∈ field.toList) : e.column? field = none := by
  refine List.find?_eq_none.mpr fun c hc hname => ?_
  obtain rfl : c.field = field := by simpa using hname
  exact Text.dotless_of_isIdentifier (hids.column he hc) hdot

/-- The index of a built plan has exactly the paths of the joins with an index, each once and with the
index of the last such join along it as it is unpacked from behind its alias. That is the field that was
given, and the collection is keyed by it, exactly if the alias has no dot; otherwise no entity has the
field, and a collection that shows any item fails. -/
theorem collectionIndex_lastIndexed (hids : s.Identifiers) (hd : d.DistinctAliases root)
    (h : (build s operators root d).plan = .ok p) :
    (p.collectionIndex.map Prod.fst).Nodup ∧
    (∀ path, path ∈ p.collectionIndex.map Prod.fst ↔
      ∃ place j field, IndexedAlong d p path place j field) ∧
    ∀ {path place j field}, LastIndexed d p path place j field →
      p.collectionIndex.lookup path = some (Text.unpacked j.aliasName field) ∧
      (Text.unpacked j.aliasName field = field ↔ '.' ∉ j.aliasName.toList) ∧
      ∀ (u : Unfolding), u.index = p.collectionIndex → ∀ way record g ks,
        ('.' ∉ j.aliasName.toList → unfoldReference u way path record g (.many ks) =
          (unfoldKeyed u.read field record g (ks.filter fun k => !way.contains k)).map fun (es, h) =>
            (some (.mapping (Value.keyedOfList es)), h)) ∧
        ('.' ∈ j.aliasName.toList → ∀ k n, (ks.filter fun k => !way.contains k).head? = some k →
          g.node? k = some n → n.entity ∈ s.entities →
          n.column? (Text.unpacked j.aliasName field) = none →
          unfoldReference u way path record g (.many ks) =
            .error (.noAttribute n.entity.name (Text.unpacked j.aliasName field))) := by
  refine ⟨nodup_collectionIndex p, fun path => ?_, fun {path place j field} hlast => ?_⟩
  · have hmem : path ∈ p.collectionIndex.map Prod.fst ↔ (p.collectionIndex.lookup path).isSome := by
      rw [List.lookup_isSome_iff, List.mem_map]
      exact exists_congr fun e => and_congr_right fun _ => by rw [beq_iff_eq, eq_comm]
    rw [hmem, Option.isSome_iff_exists]
    constructor
    · rintro ⟨field, hfield⟩
      obtain ⟨place, j, given, hlast, -⟩ := (lookup_collectionIndex_iff hd h).mp hfield
      exact ⟨place, j, given, hlast.toIndexedAlong⟩
    · rintro ⟨place, j, field, hindexed⟩
      obtain ⟨place, j, given, hlast⟩ := exists_lastIndexed hindexed
      exact ⟨_, (lookup_collectionIndex_iff hd h).mpr ⟨place, j, given, hlast, rfl⟩⟩
  · have hlookup := (lookup_collectionIndex_iff hd h).mpr ⟨place, j, field, hlast, rfl⟩
    refine ⟨hlookup, Text.unpacked_eq_iff, fun u hu way record g ks => ⟨fun hdot => ?_, ?_⟩⟩
    · rw [Text.unpacked_eq_iff.mpr hdot] at hlookup
      exact unfoldReference_keyed (by rw [hu, hlookup]) way record g ks
    · intro hdot k n hk hn he hcolumn
      obtain ⟨rest, hitems⟩ := List.head?_eq_some_iff.mp hk
      have hread : g.readField u.read k (Text.unpacked j.aliasName field) =
          .error (.noAttribute n.entity.name (Text.unpacked j.aliasName field)) := by
        simp only [Graph.readField, hn, hcolumn,
          column?_eq_none_of_dot hids he (Text.dot_mem_unpacked hdot)]
      rw [unfoldReference_keyed (by rw [hu, hlookup]), hitems]
      simp only [unfoldKeyed, hread, bind, Except.bind, Except.map]

/-- The comments of articles by their identity, and the articles of their authors by title. -/
def indexedArticles (aliasName : String) : Descriptor where
  relations := .ofList
    [("comments", { joinAlias := some aliasName, indexBy := some "id" }), ("author", {}),
     ("author.articles", { joinAlias := some "others", indexBy := some "title" })]

theorem lastIndexed_indexedArticles : ∃ p place j,
    (build Model.sample .builtIn Model.Blog.article (indexedArticles "c")).plan = .ok p ∧
      LastIndexed (indexedArticles "c") p ["author", "articles"] place j "title" ∧
      p.collectionIndex.lookup ["author", "articles"] = some "title" := by
  have hd : (indexedArticles "c").DistinctAliases Model.Blog.article := by decide +kernel
  have hbuild : ((build Model.sample .builtIn Model.Blog.article (indexedArticles "c")).plan.toOption.map
      fun p => (decide p.LoadsApart, p.joinedPaths[2]?.map fun jp => (jp.1.aliasName, jp.2))) =
        some (true, some ("others", ["author", "articles"])) := by decide +kernel
  obtain ⟨p, hbuilt, hfacts⟩ := Option.map_eq_some_iff.mp hbuild
  obtain ⟨hapart, hothers⟩ := Prod.mk.inj hfacts
  obtain ⟨⟨j, along⟩, hjp, hj⟩ := Option.map_eq_some_iff.mp hothers
  obtain ⟨halias, rfl⟩ := Prod.mk.inj hj
  have hp := layout_build hd (eq_ok_of_toOption hbuilt)
  obtain ⟨hjoined, halong⟩ := (joinedPaths_eq_some_iff hp).mp hjp
  have hlast : LastIndexed (indexedArticles "c") p ["author", "articles"] 2 j "title" :=
    lastIndexed_of_loadsApart hp (of_decide_eq_true hapart) ⟨hjoined, halong, by decide +kernel⟩
  obtain ⟨-, -, hindex⟩ := collectionIndex_lastIndexed (by decide +kernel) hd (eq_ok_of_toOption hbuilt)
  obtain ⟨hlookup, hsame, -⟩ := hindex hlast
  rw [hsame.mpr (halias ▸ by decide)] at hlookup
  exact ⟨p, 2, j, eq_ok_of_toOption hbuilt, hlast, hlookup⟩

/-- Behind an alias with a dot the index of the comments is not the field that was given. -/
theorem not_lookup_indexedArticles :
    (indexedArticles "a.b").DistinctAliases Model.Blog.article ∧
      ∃ p place j, (build Model.sample .builtIn Model.Blog.article (indexedArticles "a.b")).plan = .ok p ∧
        LastIndexed (indexedArticles "a.b") p ["comments"] place j "id" ∧
        p.collectionIndex.lookup ["comments"] = some "b.id" := by
  have hd : (indexedArticles "a.b").DistinctAliases Model.Blog.article := by decide +kernel
  have hbuild : ((build Model.sample .builtIn Model.Blog.article (indexedArticles "a.b")).plan.toOption.map
      fun p => ((decide p.LoadsApart, p.joinedPaths[0]?.map Prod.snd), p.collectionIndex.lookup ["comments"])) =
        some ((true, some ["comments"]), some "b.id") := by decide +kernel
  obtain ⟨p, hbuilt, hfacts⟩ := Option.map_eq_some_iff.mp hbuild
  obtain ⟨hplan, hlookup⟩ := Prod.mk.inj hfacts
  obtain ⟨hapart, hcomments⟩ := Prod.mk.inj hplan
  obtain ⟨⟨j, along⟩, hjp, rfl⟩ := Option.map_eq_some_iff.mp hcomments
  have hp := layout_build hd (eq_ok_of_toOption hbuilt)
  obtain ⟨hjoined, halong⟩ := (joinedPaths_eq_some_iff hp).mp hjp
  exact ⟨hd, p, 0, j, eq_ok_of_toOption hbuilt,
    lastIndexed_of_loadsApart hp (of_decide_eq_true hapart) ⟨hjoined, halong, by decide +kernel⟩, hlookup⟩

end Plan
end EntityQuery
