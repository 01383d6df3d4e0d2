import EntityQuery.Proofs.OuterJoins
import EntityQuery.Proofs.SortNames
/-!
Sorts as partitions. The entries of a sort that name a field of the root, or a field behind the first join
under an alias, become clauses of the order; the others remain. No entry is lost, given twice or moved, and
none decides what becomes of another.
-/
namespace EntityQuery

section

variable {α β : Type}

/-- A list parted into what is given for its members and those for which nothing is given, both in the
order of the list. -/
inductive Parted (gives : α → β → Prop) : List α → List β → List α → Prop
  | nil : Parted gives [] [] []
  | given {x : α} {y : β} {xs : List α} {ys : List β} {rest : List α} :
      gives x y → Parted gives xs ys rest → Parted gives (x :: xs) (y :: ys) rest
  | left {x : α} {xs : List α} {ys : List β} {rest : List α} :
      (∀ y, ¬ gives x y) → Parted gives xs ys rest → Parted gives (x :: xs) ys (x :: rest)

variable {gives : α → β → Prop} {f : α → Option β}

theorem parted_filterMap (h : ∀ x y, gives x y ↔ f x = some y) (xs : List α) :
    Parted gives xs (xs.filterMap f) (xs.filter fun x => (f x).isNone) := by
  induction xs with
  | nil => exact .nil
  | cons x xs ih =>
    cases hx : f x with
    | none =>
      rw [List.filterMap_cons_none hx, List.filter_cons_of_pos (by simp [hx])]
      exact .left (fun y hy => by simpa [hx] using (h x y).mp hy) ih
    | some y =>
      rw [List.filterMap_cons_some hx, List.filter_cons_of_neg (by simp [hx])]
      exact .given ((h x y).mpr hx) ih

theorem Parted.eq_filterMap (h : ∀ x y, gives x y ↔ f x = some y) {xs : List α} {ys : List β}
    {rest : List α} (hp : Parted gives xs ys rest) :
    ys = xs.filterMap f ∧ rest = xs.filter fun x => (f x).isNone := by
  induction hp with
  | nil => exact ⟨rfl, rfl⟩
  | @given x y xs ys rest hgives _ ih =>
    have hx : f x = some y := (h x y).mp hgives
    rw [List.filterMap_cons_some hx, List.filter_cons_of_neg (by simp [hx]), ← ih.1]
    exact ⟨rfl, ih.2⟩
  | @left x xs ys rest hnone _ ih =>
    have hx : f x = none := Option.eq_none_iff_forall_ne_some.mpr fun y hy => hnone y ((h x y).mpr hy)
    rw [List.filterMap_cons_none hx, List.filter_cons_of_pos (by simp [hx]), ← ih.2]
    exact ⟨ih.1, rfl⟩

/-- The members for which nothing is given are all left when they are parted again. -/
theorem filterMap_filter_isNone (f : α → Option β) (xs : List α) :
    (xs.filter fun x => (f x).isNone).filterMap f = [] := by
  rw [List.filterMap_eq_nil_iff]
  intro x hx
  simpa using (List.mem_filter.mp hx).2

end

namespace Plan

variable {s : Schema} {p : Plan}

/-- The clause that an entry of a sort stands for: a dotless field of the root, or a field of what the
first join under an alias leads to from the entity that its source alias stands for in the end. -/
inductive SortsBy (s : Schema) (p : Plan) : String × Direction → OrderClause → Prop
  | bare {field : String} {dir : Direction} :
      '.' ∉ field.toList → p.root.hasField field = true →
      SortsBy s p (field, dir) ⟨p.rootAlias, field, dir⟩
  | joined {a field : String} {dir : Direction} {earlier later : List JoinClause} {j : JoinClause}
      {source : Occurrence} {r : Relationship} {target : Entity} :
      '.' ∉ a.toList → p.joins = earlier ++ j :: later → j.aliasName = a →
      (∀ k ∈ earlier, k.aliasName ≠ a) → p.lastUnder? j.sourceAlias = some source →
      source.entity.relationship? j.relation = some r → s.entity? r.target = some target →
      target.hasField field = true → SortsBy s p (a ++ "." ++ field, dir) ⟨a, field, dir⟩

theorem findJoin_eq_some_iff {a : String} {j : JoinClause} :
    p.findJoin a = some j ↔ j.aliasName = a ∧ ∃ earlier later, p.joins = earlier ++ j :: later ∧
      ∀ k ∈ earlier, k.aliasName ≠ a := by
  rw [findJoin, List.find?_eq_some_iff_append]
  simp

theorem sortTarget?_eq_some_iff (hlast : p.NamesLast) {j : JoinClause} {target : Entity} :
    p.sortTarget? s j = some target ↔ ∃ source r, p.lastUnder? j.sourceAlias = some source ∧
      source.entity.relationship? j.relation = some r ∧ s.entity? r.target = some target := by
  simp [sortTarget?, Option.bind_eq_some_iff, hlast j.sourceAlias]

/-- An entry is resolved to the clause that it stands for. -/
theorem sortsBy_iff (hlast : p.NamesLast) (e : String × Direction) (c : OrderClause) :
    SortsBy s p e c ↔ p.sortClause? s e.1 e.2 = some c := by
  constructor
  · intro h
    cases h with
    | bare hdot hfield => simp [sortClause?, Text.splitFirstDot?_dotless hdot, hfield]
    | joined hdot hjoins hname hearlier hsource hr htarget hfield =>
      have hjoin := findJoin_eq_some_iff.mpr ⟨hname, _, _, hjoins, hearlier⟩
      have hleads := (sortTarget?_eq_some_iff hlast).mpr ⟨_, _, hsource, hr, htarget⟩
      simp [sortClause?, Text.splitFirstDot?_append hdot, hjoin, hleads, hfield]
  · obtain ⟨name, dir⟩ := e
    intro h
    unfold sortClause? at h
    split at h
    · rename_i hbare
      obtain ⟨hfield, hc⟩ := Option.ite_none_right_eq_some.mp h
      obtain rfl := Option.some.inj hc
      exact .bare (Text.splitFirstDot?_eq_none hbare) hfield
    · rename_i a field hname
      obtain ⟨j, hj, h⟩ := Option.bind_eq_some_iff.mp h
      obtain ⟨target, htarget, h⟩ := Option.bind_eq_some_iff.mp h
      obtain ⟨hfield, hc⟩ := Option.ite_none_right_eq_some.mp h
      obtain rfl := Option.some.inj hc
      obtain ⟨halias, earlier, later, hjoins, hearlier⟩ := findJoin_eq_some_iff.mp hj
      obtain ⟨source, r, hsource, hr, hleads⟩ := (sortTarget?_eq_some_iff hlast).mp htarget
      obtain rfl : name = a ++ "." ++ field := Text.splitFirstDot?_eq_some hname
      exact .joined (Text.not_mem_of_splitFirstDot? hname) hjoins halias hearlier hsource hr hleads hfield

/-- Resolving the entries of a sort parts them. What is resolved depends on each entry alone and not on
the clauses that a plan has already, so that remaining entries remain, and two sorts may be resolved one
after the other. -/
structure PartsSorts (s : Schema) (p : Plan) : Prop where
  parted : ∀ sort clauses remaining, Parted (SortsBy s p) sort clauses remaining ↔
    p.resolveSort s sort = ⟨clauses, remaining⟩
  again : ∀ sort, p.resolveSort s (p.resolveSort s sort).remaining =
    ⟨[], (p.resolveSort s sort).remaining⟩
  append : ∀ sort more, p.resolveSort s (sort ++ more) =
    ⟨(p.resolveSort s sort).clauses ++ (p.resolveSort s more).clauses,
      (p.resolveSort s sort).remaining ++ (p.resolveSort s more).remaining⟩
  attached : ∀ sort more, (p.withSort s sort).resolveSort s more = p.resolveSort s more

theorem partsSorts_of_namesLast (hlast : p.NamesLast) : p.PartsSorts s where
  parted sort clauses remaining := by
    have hgives := fun e c => sortsBy_iff (s := s) hlast e c
    constructor
    · intro h
      obtain ⟨rfl, rfl⟩ := h.eq_filterMap hgives
      rfl
    · intro h
      cases h
      exact parted_filterMap hgives sort
  again sort := by
    refine congrArg₂ SortResolution.mk (filterMap_filter_isNone _ sort) ?_
    simp [resolveSort]
  append sort more := congrArg₂ SortResolution.mk List.filterMap_append (List.filter_append sort more)
  attached _ _ := rfl

theorem unresolvedSort_build {operators : OperatorTable Operator} {root : Entity} {d : Descriptor}
    (h : (build s operators root d).plan = .ok p) :
    p.unresolvedSort = (p.resolveSort s d.sort.entries).remaining := by
  obtain ⟨first, joined, filtered, -, -, -, rfl⟩ := build_eq_ok h
  rfl

/-- Every plan that is built parts the entries of sorts, also if its aliases have been taken over; its own
sort gives its order, and the entries that it could not be ordered by. -/
theorem partsSorts_build {operators : OperatorTable Operator} {root : Entity} {d : Descriptor}
    (h : (build s operators root d).plan = .ok p) : p.PartsSorts s ∧
      Parted (SortsBy s p) d.sort.entries p.orderBy p.unresolvedSort := by
  have hparts := partsSorts_of_namesLast (s := s) (namesLast_build h)
  refine ⟨hparts, (hparts.parted _ _ _).mpr ?_⟩
  rw [orderBy_build h, unresolvedSort_build h]
  rfl

/-- Articles whose comments are joined under the alias of the authors. -/
def retakenAuthors : Descriptor where
  relations := .ofList [("author", { joinAlias := some "a" }), ("a.articles", { joinAlias := some "b" }),
    ("comments", { joinAlias := some "a" })]
  sort := .ofList [("b.title", .ascending), ("a.name", .descending), ("a.text", .ascending),
    ("title", .ascending)]

/-- The first join under the alias leads to authors, whatever the alias stands for in the end; what was
joined from the authors starts at comments, and is not found. -/
theorem partsSorts_retakenAuthors : ∃ p,
    (build Model.sample .builtIn Model.Blog.article retakenAuthors).plan = .ok p ∧
      p.PartsSorts Model.sample ∧
      p.orderBy = [⟨"a", "name", .descending⟩, ⟨"article", "title", .ascending⟩] ∧
      p.unresolvedSort = [("b.title", .ascending), ("a.text", .ascending)] := by
  have hbuild : ((build Model.sample .builtIn Model.Blog.article retakenAuthors).plan.toOption.map
      fun p => (p.orderBy, p.unresolvedSort)) =
      some ([⟨"a", "name", .descending⟩, ⟨"article", "title", .ascending⟩],
        [("b.title", .ascending), ("a.text", .ascending)]) := by decide +kernel
  obtain ⟨p, hp, hfacts⟩ := Option.map_eq_some_iff.mp hbuild
  obtain ⟨hparts, -⟩ := partsSorts_build (eq_ok_of_toOption hp)
  exact ⟨p, eq_ok_of_toOption hp, hparts, (Prod.mk.inj hfacts).1, (Prod.mk.inj hfacts).2⟩

end Plan
end EntityQuery
