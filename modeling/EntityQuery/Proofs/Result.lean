import Mathlib.Data.List.Forall2
import Mathlib.Data.List.Nodup
import Mathlib.Data.List.Perm.Basic
/-!
Results that can fail, taken apart stage by stage, and lists without their repeated members.
-/
namespace EntityQuery

variable {ε α β : Type}

theorem ok_of_bind {x : Except ε α} {f : α → Except ε β} {b : β} (h : (x >>= f) = .ok b) :
    ∃ a, x = .ok a ∧ f a = .ok b := by
  cases x with
  | error e => cases h
  | ok a => exact ⟨a, rfl, h⟩

theorem error_of_bind {x : Except ε α} {f : α → Except ε β} {e : ε} (h : (x >>= f) = .error e) :
    x = .error e ∨ ∃ a, x = .ok a ∧ f a = .error e := by
  cases x with
  | error e' =>
    cases h
    exact .inl rfl
  | ok a => exact .inr ⟨a, rfl, h⟩

/-- What comes after a stage matters only where the stage succeeds. -/
theorem bind_congr_ok {x : Except ε α} {f g : α → Except ε β} (h : ∀ a, x = .ok a → f a = g a) :
    (x >>= f) = x >>= g := by
  cases x with
  | error e => rfl
  | ok a => exact h a rfl

theorem ok_of_map {x : Except ε α} {f : α → β} {b : β} (h : x.map f = .ok b) :
    ∃ a, x = .ok a ∧ f a = b := by
  cases x with
  | error e => cases h
  | ok a => exact ⟨a, rfl, Except.ok.inj h⟩

theorem error_of_map {x : Except ε α} {f : α → β} {e : ε} (h : x.map f = .error e) : x = .error e := by
  cases x with
  | error e' =>
    cases h
    rfl
  | ok a => cases h

theorem map_eq_ok_iff {x : Except ε α} {f : α → β} {b : β} :
    x.map f = .ok b ↔ ∃ a, x = .ok a ∧ f a = b := by
  constructor
  · exact ok_of_map
  · rintro ⟨a, rfl, rfl⟩
    rfl

theorem error_of_mapM {f : α → Except ε β} {xs : List α} {e : ε} (h : xs.mapM f = .error e) :
    ∃ x ∈ xs, f x = .error e := by
  induction xs with
  | nil => cases h
  | cons x xs ih =>
    rw [List.mapM_cons] at h
    rcases error_of_bind h with hx | ⟨y, -, h⟩
    · exact ⟨x, List.mem_cons_self, hx⟩
    rcases error_of_bind h with hxs | ⟨ys, -, h⟩
    · obtain ⟨w, hw, hwe⟩ := ih hxs
      exact ⟨w, List.mem_cons_of_mem x hw, hwe⟩
    · cases h

theorem forM_eq_ok_iff {f : α → Except ε Unit} {xs : List α} :
    xs.forM f = .ok () ↔ ∀ x ∈ xs, f x = .ok () := by
  induction xs with
  | nil => exact iff_of_true rfl fun _ h => absurd h List.not_mem_nil
  | cons x xs ih =>
    rw [List.forall_mem_cons, ← ih]
    change (f x >>= fun _ => xs.forM f) = .ok () ↔ _
    cases f x <;> simp [bind, Except.bind]

theorem error_of_forM {f : α → Except ε Unit} {xs : List α} {e : ε} (h : xs.forM f = .error e) :
    ∃ x ∈ xs, f x = .error e := by
  induction xs with
  | nil => cases h
  | cons x xs ih =>
    have hstep : (f x >>= fun _ => xs.forM f) = .error e := h
    rcases error_of_bind hstep with hx | ⟨-, -, hxs⟩
    · exact ⟨x, List.mem_cons_self, hx⟩
    · obtain ⟨y, hy, hye⟩ := ih hxs
      exact ⟨y, List.mem_cons_of_mem x hy, hye⟩

theorem exists_of_forall₂ {R : α → β → Prop} {xs : List α} {ys : List β} (h : List.Forall₂ R xs ys)
    {y : β} (hy : y ∈ ys) : ∃ x ∈ xs, R x y := by
  induction h with
  | nil => cases hy
  | @cons x z xs ys hxz _ ih =>
    rcases List.mem_cons.mp hy with rfl | hy
    · exact ⟨x, List.mem_cons_self, hxz⟩
    · obtain ⟨w, hw, hwy⟩ := ih hy
      exact ⟨w, List.mem_cons_of_mem x hw, hwy⟩

/-- A list is mapped to the list of the results of its members. -/
theorem mapM_eq_ok_iff {f : α → Except ε β} {xs : List α} {ys : List β} :
    xs.mapM f = .ok ys ↔ List.Forall₂ (fun x y => f x = .ok y) xs ys := by
  induction xs generalizing ys with
  | nil => cases ys <;> simp [pure, Except.pure]
  | cons x xs ih =>
    rw [List.mapM_cons]
    constructor
    · intro h
      obtain ⟨y, hy, h⟩ := ok_of_bind h
      obtain ⟨ys, hys, h⟩ := ok_of_bind h
      cases h
      exact .cons hy (ih.mp hys)
    · rintro (_ | ⟨hy, hys⟩)
      rw [hy, ih.mpr hys]
      rfl

theorem mem_of_mapM {f : α → Except ε β} {xs : List α} {ys : List β}
    (h : xs.mapM f = .ok ys) {y : β} (hy : y ∈ ys) : ∃ x ∈ xs, f x = .ok y :=
  exists_of_forall₂ (mapM_eq_ok_iff.mp h) hy

theorem exists_of_mem_mapM {f : α → Except ε β} {xs : List α} {ys : List β}
    (h : xs.mapM f = .ok ys) {x : α} (hx : x ∈ xs) : ∃ y ∈ ys, f x = .ok y :=
  exists_of_forall₂ (mapM_eq_ok_iff.mp h).flip hx

theorem filterMap_of_mapM {f : α → Except ε β} {xs : List α} {ys : List β} (h : xs.mapM f = .ok ys) :
    ys = xs.filterMap fun x => (f x).toOption := by
  rw [mapM_eq_ok_iff] at h
  induction h with
  | nil => rfl
  | cons hx _ ih => rw [List.filterMap_cons_some (by rw [hx]; rfl), ← ih]

theorem mapM_congr {f g : α → Except ε β} {xs : List α} (h : ∀ x ∈ xs, f x = g x) :
    xs.mapM f = xs.mapM g := by
  induction xs with
  | nil => rfl
  | cons x xs ih =>
    rw [List.mapM_cons, List.mapM_cons, h x List.mem_cons_self,
      ih fun y hy => h y (List.mem_cons_of_mem x hy)]

theorem eq_ok_of_toOption {x : Except ε α} {a : α} (h : x.toOption = some a) :
    x = .ok a := by
  cases x with
  | error e => cases h
  | ok b => exact congrArg _ (Option.some.inj h)

theorem exists_ok_of_toOption {x : Except ε α} (h : x.toOption.isSome = true) :
    ∃ a, x = .ok a := by
  cases x with
  | error e => cases h
  | ok a => exact ⟨a, rfl⟩

theorem toOption_bind (x : Except ε α) (g : α → Except ε β) :
    (x >>= g).toOption = x.toOption.bind fun a => (g a).toOption := by
  cases x <;> rfl

theorem toOption_map (x : Except ε α) (g : α → β) : (x.map g).toOption = x.toOption.map g := by
  cases x <;> rfl

theorem toOption_mapM {γ : Type} {g : α → Except ε β} {g' : α → Except ε γ} {k : β → γ} {xs : List α}
    (h : ∀ x ∈ xs, (g' x).toOption = (g x).toOption.map k) :
    (xs.mapM g').toOption = (xs.mapM g).toOption.map (List.map k) := by
  induction xs with
  | nil => rfl
  | cons x xs ih =>
    have hrest := ih fun y hy => h y (List.mem_cons_of_mem x hy)
    rw [List.mapM_cons, List.mapM_cons, toOption_bind, toOption_bind, h x List.mem_cons_self]
    cases (g x).toOption with
    | none => rfl
    | some y =>
      simp only [Option.map_some, Option.bind_some, toOption_bind, hrest]
      cases (xs.mapM g).toOption <;> rfl

section Firsts

variable {r : α → α → Bool}

theorem eraseDupsBy_sublist : ∀ xs : List α, (xs.eraseDupsBy r).Sublist xs
  | [] => List.Sublist.refl []
  | x :: xs => by
    rw [List.eraseDupsBy_cons]
    exact ((eraseDupsBy_sublist _).trans List.filter_sublist).cons_cons x
termination_by xs => xs.length
decreasing_by exact Nat.lt_succ_of_le (List.length_filter_le _ _)

theorem eraseDupsBy_append_singleton : ∀ (xs : List α) (x : α), (xs ++ [x]).eraseDupsBy r =
    if (xs.eraseDupsBy r).any (r x) then xs.eraseDupsBy r else xs.eraseDupsBy r ++ [x]
  | [], x => by simp [List.eraseDupsBy_cons]
  | a :: xs, x => by
    have ih := eraseDupsBy_append_singleton (xs.filter fun b => decide (r b a = false)) x
    rw [List.cons_append, List.eraseDupsBy_cons, List.eraseDupsBy_cons, List.filter_append]
    cases hx : r x a with
    | true => simp [hx]
    | false =>
      simp only [hx, List.filter_cons, List.filter_nil, decide_true, if_true, ih, List.any_cons,
        Bool.false_or]
      split <;> rfl
termination_by xs => xs.length
decreasing_by exact Nat.lt_succ_of_le (List.length_filter_le _ _)

/-- What is kept does not repeat anything that was kept before. -/
theorem pairwise_eraseDupsBy : ∀ xs : List α, (xs.eraseDupsBy r).Pairwise fun a b => r b a = false
  | [] => .nil
  | x :: xs => by
    rw [List.eraseDupsBy_cons]
    refine .cons (fun b hb => ?_) (pairwise_eraseDupsBy _)
    exact of_decide_eq_true (List.mem_filter.mp ((eraseDupsBy_sublist _).subset hb)).2
termination_by xs => xs.length
decreasing_by exact Nat.lt_succ_of_le (List.length_filter_le _ _)

/-- All of a list is kept exactly if nothing in it repeats anything before. -/
theorem length_eraseDupsBy_eq_iff {xs : List α} :
    (xs.eraseDupsBy r).length = xs.length ↔ xs.Pairwise fun a b => r b a = false := by
  constructor
  · intro h
    have hpairwise := pairwise_eraseDupsBy (r := r) xs
    rwa [(eraseDupsBy_sublist xs).eq_of_length h] at hpairwise
  · intro h
    induction h with
    | nil => rfl
    | @cons x xs hx _ ih =>
      have hfilter : xs.filter (fun b => decide (r b x = false)) = xs :=
        List.filter_eq_self.mpr fun b hb => decide_eq_true (hx b hb)
      rw [List.eraseDupsBy_cons, hfilter, List.length_cons, List.length_cons, ih]

/-- Whatever is not kept repeats something that is. -/
theorem exists_mem_eraseDupsBy : ∀ {xs : List α}, (∀ x ∈ xs, r x x = true) → ∀ {x}, x ∈ xs →
    ∃ y ∈ xs.eraseDupsBy r, r x y = true
  | [], _, _, hx => absurd hx List.not_mem_nil
  | a :: xs, hrefl, x, hx => by
    rw [List.eraseDupsBy_cons]
    cases hsame : r x a with
    | true => exact ⟨a, List.mem_cons_self, hsame⟩
    | false =>
      have hne : x ≠ a := fun h => by
        rw [h, hrefl a List.mem_cons_self] at hsame
        cases hsame
      have hrest : x ∈ xs.filter fun b => decide (r b a = false) :=
        List.mem_filter.mpr ⟨(List.mem_cons.mp hx).resolve_left hne, decide_eq_true hsame⟩
      obtain ⟨y, hy, hxy⟩ := exists_mem_eraseDupsBy
        (fun b hb => hrefl b (List.mem_cons_of_mem a (List.mem_filter.mp hb).1)) hrest
      exact ⟨y, List.mem_cons_of_mem a hy, hxy⟩
termination_by xs => xs.length
decreasing_by exact Nat.lt_succ_of_le (List.length_filter_le _ _)

end Firsts

theorem eraseDups_sublist [BEq α] (xs : List α) : xs.eraseDups.Sublist xs := eraseDupsBy_sublist xs

theorem nodup_eraseDups [BEq α] [LawfulBEq α] (xs : List α) : xs.eraseDups.Nodup :=
  (pairwise_eraseDupsBy xs).imp fun h => (beq_eq_false_iff_ne.mp h).symm

theorem eraseDups_append_singleton [DecidableEq α] (xs : List α) (x : α) :
    (xs ++ [x]).eraseDups = if x ∈ xs then xs.eraseDups else xs.eraseDups ++ [x] := by
  rw [List.eraseDups_append]
  by_cases h : x ∈ xs <;> simp [List.removeAll, h, List.eraseDups_cons]

/-- Lists whose members correspond have as many distinct members. -/
theorem length_eraseDups_eq [BEq α] [LawfulBEq α] [BEq β] [LawfulBEq β] {xs : List α} {ys : List β}
    (f : α → β) (hf : Function.Injective f) (h : ∀ y, y ∈ ys ↔ ∃ x ∈ xs, f x = y) :
    ys.eraseDups.length = xs.eraseDups.length := by
  have hperm : (xs.eraseDups.map f).Perm ys.eraseDups := by
    rw [List.perm_ext_iff_of_nodup ((nodup_eraseDups xs).map hf) (nodup_eraseDups ys)]
    intro y
    simp [List.mem_eraseDups, h]
  rw [← hperm.length_eq, List.length_map]

/-- Without repetitions a list is no longer than one that has all its members. -/
theorem length_eraseDups_le [BEq α] [LawfulBEq α] {xs ys : List α} (h : ∀ x ∈ xs, x ∈ ys) :
    xs.eraseDups.length ≤ ys.eraseDups.length :=
  (List.subperm_of_subset (nodup_eraseDups xs) fun x hx =>
    List.mem_eraseDups.mpr (h x (List.mem_eraseDups.mp hx))).length_le

theorem eraseDups_eq_self [BEq α] [LawfulBEq α] {xs : List α} (h : xs.Nodup) : xs.eraseDups = xs :=
  (eraseDups_sublist xs).eq_of_length
    (length_eraseDupsBy_eq_iff.mpr (h.imp fun hne => beq_eq_false_iff_ne.mpr hne.symm))

/-- A map that tells the members of a list apart keeps its repetitions. -/
theorem eraseDups_map [BEq α] [LawfulBEq α] [BEq β] [LawfulBEq β] {f : α → β} :
    ∀ {xs : List α}, (∀ a ∈ xs, ∀ b ∈ xs, f a = f b → a = b) →
      (xs.map f).eraseDups = xs.eraseDups.map f
  | [], _ => rfl
  | x :: xs, h => by
    have hfilter : (xs.map f).filter (fun b => !b == f x) = (xs.filter fun a => !a == x).map f := by
      rw [List.filter_map]
      refine congrArg (List.map f) (List.filter_congr fun a ha => ?_)
      have hiff : f a = f x ↔ a = x :=
        ⟨h a (List.mem_cons_of_mem x ha) x List.mem_cons_self, congrArg f⟩
      simp [hiff]
    rw [List.map_cons, List.eraseDups_cons, List.eraseDups_cons, List.map_cons, hfilter]
    refine congrArg (f x :: ·) (eraseDups_map fun a ha b hb => ?_)
    exact h a (List.mem_cons_of_mem x (List.mem_filter.mp ha).1) b
      (List.mem_cons_of_mem x (List.mem_filter.mp hb).1)
termination_by xs => xs.length
decreasing_by exact Nat.lt_succ_of_le (List.length_filter_le _ _)

end EntityQuery
