import EntityQuery.Proofs.EagerFetch
import EntityQuery.Proofs.Paging
/-!
Queries that only follow references to single entities. Such a join adds at most one row to each row,
so a root stands in one joined row at most, and no collection is joined: limit and offset count roots.
-/
namespace EntityQuery

theorem length_filter_le_one {α : Type} {f : α → Bool} {xs : List α} (hx : xs.Nodup)
    (h : ∀ a ∈ xs, ∀ b ∈ xs, f a = true → f b = true → a = b) : (xs.filter f).length ≤ 1 := by
  have hfilter := hx.filter f
  rcases hf : xs.filter f with _ | ⟨a, _ | ⟨b, rest⟩⟩
  · exact Nat.zero_le 1
  · exact Nat.le_refl 1
  · have hmem : ∀ c ∈ [a, b], c ∈ xs ∧ f c = true := by
      intro c hc
      refine List.mem_filter.mp ?_
      rw [hf]
      exact List.mem_of_mem_take (i := 2) hc
    rw [hf] at hfilter
    have ha := hmem a (by simp)
    have hb := hmem b (by simp)
    have hne := (List.nodup_cons.mp hfilter).1
    rw [h a ha.1 b hb.1 ha.2 hb.2] at hne
    exact absurd List.mem_cons_self hne

theorem sublist_map_of_flatMap {α β γ : Type} {f : α → List β} {k : β → γ} {g : α → γ} {xs : List α}
    (h : ∀ x ∈ xs, ((f x).map k).Sublist [g x]) : ((xs.flatMap f).map k).Sublist (xs.map g) := by
  induction xs with
  | nil => exact List.Sublist.refl []
  | cons x xs ih =>
    rw [List.flatMap_cons, List.map_append, List.map_cons, ← List.singleton_append]
    exact (h x List.mem_cons_self).append (ih fun y hy => h y (List.mem_cons_of_mem x hy))

namespace Plan

open JoinedRow

variable {s : Schema} {db : Database} {p : Plan} {js : List ResolvedJoin}

/-- A join that follows a reference to a single entity, narrowed by a condition or not. -/
def ResolvedJoin.Single (j : ResolvedJoin) : Prop :=
  j.relationship.isManyToOne = true ∧ ∃ extra, j.predicate = .linked extra

instance (j : ResolvedJoin) : Decidable j.Single :=
  match h : j.predicate with
  | .linked extra =>
    decidable_of_iff (j.relationship.isManyToOne = true) ⟨fun hone => ⟨hone, extra, h⟩, And.left⟩
  | .replaced _ => isFalse fun ⟨_, _, he⟩ => by cases h.symm.trans he

theorem holds_narrowed {q : Predicate} {extra : Option Predicate} {row : JoinedRow}
    (h : (narrowed q extra).holds row = true) : q.holds row = true := by
  cases extra with
  | none => exact h
  | some e => exact Predicate.holds_conjunction.mp h q List.mem_cons_self

theorem mem_additions_source {db : Database} {o : Occurrence} {outer : Bool} {on : Predicate}
    {l x : JoinedRow} (h : x ∈ Source.additions db o.source outer on l) :
    x = [] ∨ ∃ y ∈ db.rows o.entity.table, x = [(.entity o.position, y)] := by
  refine (Source.mem_additions h).imp_right fun hx => ?_
  rw [rows_source] at hx
  obtain ⟨y, hy, rfl⟩ := List.mem_map.mp hx
  exact ⟨y, hy, rfl⟩

/-- A join along a reference adds nothing or the one row that is referred to. -/
theorem additions_single (hs : s.WellFormed) (hdb : db.Sound s) {j : ResolvedJoin} {n place : Nat}
    (hj : j.Single) (hfit : j.Fitting s) (hsource : j.source.position ≤ place)
    (htarget : j.target.position = place + 1) {l : JoinedRow} (hl : UpTo place l)
    (hproper : ∀ k r, l.rowAt k = some r → ∀ column, (r.get column).Proper) :
    (j.additions db n l).length ≤ 1 ∧ ∀ x ∈ j.additions db n l,
      x = [] ∨ ∃ y ∈ db.rows j.target.entity.table, x = [(.entity j.target.position, y)] := by
  obtain ⟨hone, extra, hpredicate⟩ := hj
  obtain ⟨on, hon⟩ : ∃ on, linkPredicate j n = .direct on := by
    unfold Relationship.isManyToOne at hone
    unfold linkPredicate
    cases hl : j.relationship.link with
    | refers foreign key => exact ⟨_, rfl⟩
    | owns key foreign => exact ⟨_, rfl⟩
    | through table sourceKey linkSource targetKey linkTarget =>
      rw [hl] at hone
      cases hone
  have hadd : j.additions db n l =
      Source.additions db j.target.source j.outer (narrowed on extra) l := by
    unfold ResolvedJoin.additions
    rw [hpredicate]
    simp only [hon]
  rw [hadd]
  refine ⟨?_, fun x hx => mem_additions_source hx⟩
  have hmatched : ((j.target.source.rows db).filter fun x =>
      (narrowed on extra).holds (l ++ x)).length ≤ 1 := by
    rw [rows_source]
    refine length_filter_le_one ((hdb.nodup_rows hs hfit.target).map fun a b hab => ?_) ?_
    · exact congrArg Prod.snd (List.head_eq_of_cons_eq hab)
    · intro a ha b hb hona honb
      obtain ⟨y, hy, rfl⟩ := List.mem_map.mp ha
      obtain ⟨z, hz, rfl⟩ := List.mem_map.mp hb
      obtain ⟨r, hr⟩ := (part_direct hfit hon hsource htarget hl hy).mp (holds_narrowed hona)
      obtain ⟨r', hr'⟩ := (part_direct hfit hon hsource htarget hl hz).mp (holds_narrowed honb)
      cases hr.source.symm.trans hr'.source
      rw [related_unique hs hdb hfit.target hone hfit.link (hproper _ _ hr.source) hr.related
        hr'.related]
  unfold Source.additions
  dsimp only
  split
  · exact Nat.le_refl 1
  · exact hmatched

/-- Joins along references add at most one row to a row. -/
theorem length_extensions_le_one (hs : s.WellFormed) (hdb : db.Sound s) {place : Nat}
    {used : List String} {l : JoinedRow} (hst : Staged s p place js)
    (hjs : ∀ j ∈ js, j.Single ∧ j.Fitting s) (hl : UpTo place l)
    (hproper : ∀ part ∈ l, ∀ column, (part.2.get column).Proper) :
    (extensions db used l js).length ≤ 1 := by
  induction js generalizing place used l with
  | nil => exact Nat.le_refl 1
  | cons j js ih =>
    obtain ⟨hsource, htarget⟩ := staged_position hst
    obtain ⟨hj, hfit⟩ := hjs j List.mem_cons_self
    have hat : ∀ k r, l.rowAt k = some r → ∀ column, (r.get column).Proper := by
      intro k r hr
      obtain ⟨before, after, rfl, -⟩ := List.lookup_eq_some_iff.mp hr
      exact hproper (.entity k, r) (by simp)
    obtain ⟨hlength, hparts⟩ := additions_single (n := linkNumber used j) hs hdb hj hfit hsource
      htarget hl hat
    have hone : ∀ x ∈ j.additions db (linkNumber used j) l,
        (extensions db (usedAfter used j) (l ++ x) js).length ≤ 1 := by
      intro x hx
      refine ih hst.2.2.2.2 (fun k hk => hjs k (List.mem_cons_of_mem j hk)) ?_ ?_
      · refine hl.append (Nat.le_succ place) fun part hp => ?_
        rcases hparts x hx with rfl | ⟨y, -, rfl⟩
        · cases hp
        · rw [List.mem_singleton.mp hp, ← htarget]
          exact Nat.le_refl _
      · intro part hp
        rcases List.mem_append.mp hp with hp | hp
        · exact hproper part hp
        · rcases hparts x hx with rfl | ⟨y, hy, rfl⟩
          · cases hp
          · rw [List.mem_singleton.mp hp]
            exact fun column => hdb.proper hs hfit.target hy column
    unfold extensions
    rcases hadd : j.additions db (linkNumber used j) l with _ | ⟨x, _ | ⟨x', rest⟩⟩
    · exact Nat.zero_le 1
    · rw [List.flatMap_cons, List.flatMap_nil, List.append_nil, List.length_map]
      exact hone x (by rw [hadd]; exact List.mem_cons_self)
    · rw [hadd] at hlength
      simp at hlength

/-- Where joins follow references only, no root stands in two joined rows. -/
theorem nodup_rootKeys (hs : s.WellFormed) (hdb : db.Sound s) (hroot : p.root ∈ s.entities)
    (hst : Staged s p 0 js) (hjs : ∀ j ∈ js, j.Single) :
    ((p.matched db js).map p.rootKey).Nodup := by
  have hfit := fitting_of_root hs hroot hst
  have hkeys : ((p.rootRows db).map p.root.keyOf).Nodup :=
    (hdb.nodup_rows hs hroot).map_on fun a ha b hb hab =>
      (row_of_keyOf hs hdb hroot hroot ha hb hab).1
  have hsub : (((p.joined js).rows db).map p.rootKey).Sublist
      ((p.rootRows db).map p.root.keyOf) := by
    rw [rows_joined]
    refine sublist_map_of_flatMap fun r hr => ?_
    have hproper : ∀ part ∈ [(Owner.entity 0, r)], ∀ column, (part.2.get column).Proper := by
      intro part hp
      rw [List.mem_singleton.mp hp]
      exact fun column => hdb.proper hs hroot hr column
    have hlength : (extensions db [] [(.entity 0, r)] js).length ≤ 1 :=
      length_extensions_le_one hs hdb hst (fun j hj => ⟨hjs j hj, hfit j hj⟩) (upTo_root r) hproper
    rcases hx : extensions db [] [(.entity 0, r)] js with _ | ⟨x, _ | ⟨x', rest⟩⟩
    · exact List.nil_sublist _
    · have hkey : p.rootKey ((.entity 0, r) :: x) = p.root.keyOf r :=
        rootKey_of_rowAt (rowAt_entity 0 r x)
      rw [List.map_singleton, List.map_singleton, hkey]
    · rw [hx] at hlength
      simp at hlength
  exact hkeys.sublist ((List.filter_sublist.map _).trans hsub)

/-- Joins along references bring no collection. -/
theorem rowPerRoot_of_references (hs : s.WellFormed) (hdb : db.Sound s) (hroot : p.root ∈ s.entities)
    (hst : Staged s p 0 js) (hjs : ∀ j ∈ js, j.Single) (g : Graph) : p.RowPerRoot s db js g where
  once := nodup_rootKeys hs hdb hroot hst hjs
  alone := by
    intro row _ h hl x name items href
    have hkind : joinKind js x.family name = false := by
      unfold joinKind
      rw [Option.any_eq_false]
      intro j hj
      have hmem := List.mem_of_find?_eq_some hj
      have hfit := fitting_of_root hs hroot hst j hmem
      simpa using hs.single_reference _ hfit.source _ hfit.relationship (hjs j hmem).1
    have hfits := LoadTree.loadAll_fits (areOf_loadTree hs hroot hst) Graph.fits_empty hl
    have hmany := hfits x name _ href
    rw [hkind] at hmany
    cases hmany

end Plan

namespace Repository

open Plan

variable {s : Schema} {db : Database} {r : Repository} {d : Descriptor}

/-- Limit and offset count the roots of a query whose relations are references to single entities. -/
theorem lists_of_references (hs : s.WellFormed) (hdb : db.Sound s)
    (hroot : r.builder.root ∈ s.entities) (hd : d.DistinctAliases r.builder.root)
    (hf : r.ReadsAfresh d) (hindexed : ∀ e ∈ d.relations.entries, e.2.indexBy = none) {p : Plan}
    {o : Outline} (hp : planOf s r d = .ok p) (ho : p.outline = .ok o) (hjs : ∀ j ∈ o.1, j.Single)
    {all : List Item} {g : Graph} (hall : Lists s db r d.unbounded all g)
    {limit offset : Option Nat} (hlimit : Storable limit) (hoffset : Storable offset) :
    ∃ items h, Lists s db r (d.bounded limit offset) items h ∧
      items.length = boundedCount limit offset
        ((p.matched db o.1).map p.rootKey).eraseDups.length := by
  have hst := (resolveJoins_eq_ok (layout_build hd hp) (outline_eq_ok ho).1).1
  have hmem : p.root ∈ s.entities := by
    rw [(build_frame hp).1]
    exact hroot
  obtain ⟨items, h, hlists, hlength, -⟩ := lists_of_rowPerRoot hs hdb hroot hd hf hindexed hp ho hall
    (rowPerRoot_of_references hs hdb hmem hst hjs g) hlimit hoffset
  exact ⟨items, h, hlists, hlength⟩

end Repository
end EntityQuery
