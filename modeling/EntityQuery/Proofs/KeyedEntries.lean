import Mathlib.Data.List.Induction
import EntityQuery.Graph.Basic
import EntityQuery.Proofs.Comparison
import EntityQuery.Proofs.Result
/-!
Mappings built entry by entry. The keys of a mapping stand in the order in which they first appear among
the entries, each once. On the values that columns show, equality of keys is an equivalence, so each key
holds the value of the last entry under it.
-/
namespace EntityQuery

attribute [local irreducible] Double.unitsPerOne

namespace Cell

theorem place_integer_inj {n k : Int} :
    (integer n).place = (integer k).place ↔ n = k := by
  simp only [place, Prod.mk.injEq, true_and, and_true, mul_unitsPerOne_inj]

theorem place_text_inj {s t : String} : (text s).place = (text t).place ↔ s = t := by
  have hinj : Function.Injective Char.toNat := fun _ _ => Char.toNat_inj.mp
  simp [place, hinj.list_map.eq_iff, String.toList_inj]

theorem place_blob_inj {a b : List UInt8} : (blob a).place = (blob b).place ↔ a = b := by
  have hinj : Function.Injective UInt8.toNat := fun _ _ => UInt8.toNat_inj.mp
  simp [place, hinj.list_map.eq_iff]

end Cell

namespace Value

variable {α : Type} {key : Value} {v : α} {m pairs : List (Value × α)} {e : Value × α}

theorem keys_insertKeyed (key : Value) (v : α) (m : List (Value × α)) :
    (insertKeyed key v m).map Prod.fst =
      if (m.map Prod.fst).any (sameKey · key) then m.map Prod.fst else m.map Prod.fst ++ [key] := by
  induction m with
  | nil => rfl
  | cons e m ih =>
    unfold insertKeyed
    cases hsame : sameKey e.1 key with
    | true => simp [hsame]
    | false =>
      simp only [hsame, Bool.false_eq_true, if_false, List.map_cons, List.any_cons, Bool.false_or, ih]
      split <;> rfl

theorem keyedOfList_append_singleton (pairs : List (Value × α)) (e : Value × α) :
    keyedOfList (pairs ++ [e]) = insertKeyed e.1 e.2 (keyedOfList pairs) :=
  List.foldl_append

/-- The keys of a mapping are those of its entries in the order of their first appearance. -/
theorem keys_keyedOfList (pairs : List (Value × α)) : (keyedOfList pairs).map Prod.fst =
    (pairs.map Prod.fst).eraseDupsBy fun key known => sameKey known key := by
  induction pairs using List.reverseRecOn with
  | nil => rfl
  | append_singleton pairs e ih =>
    rw [keyedOfList_append_singleton, keys_insertKeyed, ih, List.map_append, List.map_singleton,
      eraseDupsBy_append_singleton]

/-- A mapping has as many entries as were given exactly if their keys differ. -/
theorem length_keyedOfList_eq_iff {pairs : List (Value × α)} :
    (keyedOfList pairs).length = pairs.length ↔
      (pairs.map Prod.fst).Pairwise fun a b => sameKey a b = false := by
  rw [← List.length_map Prod.fst, keys_keyedOfList, ← length_eraseDupsBy_eq_iff, List.length_map]

/-! ### Equality of keys -/

/-- A value that a column can show for a cell of a table. -/
def Showable : Value → Prop
  | float x => x.isNaN = false
  | null | boolean _ | integer _ | text _ | bytes _ | moment _ => True
  | _ => False

/-- Where a showable value stands among keys: moments apart, all others at the place of their cell. -/
def keyPlace : Value → (Nat × Int × Int × List Nat) ⊕ Moment
  | boolean b => .inl (Cell.integer (if b then 1 else 0)).place
  | integer n => .inl (Cell.integer n).place
  | float x => .inl (Cell.real x).place
  | text s => .inl (Cell.text s).place
  | bytes b => .inl (Cell.blob b).place
  | moment t => .inr t
  | _ => .inl Cell.null.place

theorem sameKey_float_iff {x y : Double} (hx : x.isNaN = false) (hy : y.isNaN = false) :
    (x.compare? y == some .eq) = true ↔ (Cell.real x).place = (Cell.real y).place := by
  rw [← Cell.compare?_eq_eq hx hy, beq_iff_eq]
  unfold Double.compare?
  simp only [hx, hy, Bool.or_self, Bool.false_eq_true, if_false]
  split <;> simp

theorem sameKey_floatInteger_iff {x : Double} (hx : x.isNaN = false) {n : Int} :
    (x.compareInt? n == some .eq) = true ↔ (Cell.real x).place = (Cell.integer n).place := by
  rw [← Cell.compareInt?_eq_eq hx, beq_iff_eq]
  unfold Double.compareInt?
  simp only [hx, Bool.false_eq_true, if_false]
  split <;> simp

/-- Showable values are equal keys exactly if they stand at one place. -/
theorem sameKey_iff {v w : Value} (hv : v.Showable) (hw : w.Showable) :
    sameKey v w = true ↔ v.keyPlace = w.keyPlace := by
  cases v <;> cases w <;> first | exact hv.elim | exact hw.elim | skip
  case text.text s t => simp [sameKey, keyPlace, Cell.place_text_inj]
  case bytes.bytes a b => simp [sameKey, keyPlace, Cell.place_blob_inj]
  case moment.moment a b => simp [sameKey, keyPlace]
  case float.float x y => simpa [sameKey, keyPlace] using sameKey_float_iff hv hw
  case float.integer x n => simpa [sameKey, keyPlace, integer?] using sameKey_floatInteger_iff hv
  case float.boolean x b => simpa [sameKey, keyPlace, integer?] using sameKey_floatInteger_iff hv
  case integer.float n x =>
    refine Iff.trans ?_ eq_comm
    simpa [sameKey, keyPlace, integer?] using sameKey_floatInteger_iff hw
  case boolean.float b x =>
    refine Iff.trans ?_ eq_comm
    simpa [sameKey, keyPlace, integer?] using sameKey_floatInteger_iff hw
  case integer.integer n k => simp [sameKey, keyPlace, integer?, Cell.place_integer_inj]
  case integer.boolean n b => simp [sameKey, keyPlace, integer?, Cell.place_integer_inj]
  case boolean.integer b n => simp [sameKey, keyPlace, integer?, Cell.place_integer_inj]
  case boolean.boolean a b => simp [sameKey, keyPlace, integer?, Cell.place_integer_inj]
  all_goals simp [sameKey, keyPlace, integer?, Cell.place]

theorem sameKey_refl (hkey : key.Showable) : sameKey key key = true := (sameKey_iff hkey hkey).mpr rfl

/-- What is put under a key is put there alone; all else stays. -/
theorem mem_insertKeyed_of_pairwise (hkey : key.Showable) (hm : ∀ e ∈ m, e.1.Showable)
    (hdistinct : (m.map Prod.fst).Pairwise fun a b => sameKey a b = false)
    (he : e ∈ insertKeyed key v m) :
    (sameKey e.1 key = true ∧ e.2 = v) ∨ (e ∈ m ∧ sameKey e.1 key = false) := by
  induction m with
  | nil =>
    obtain rfl := List.mem_singleton.mp he
    exact .inl ⟨sameKey_refl hkey, rfl⟩
  | cons first m ih =>
    obtain ⟨hfirst, hrest⟩ := List.pairwise_cons.mp hdistinct
    have hfirstKey := hm first List.mem_cons_self
    unfold insertKeyed at he
    cases hsame : sameKey first.1 key with
    | true =>
      simp only [hsame, if_true] at he
      rcases List.mem_cons.mp he with rfl | he
      · exact .inl ⟨hsame, rfl⟩
      · refine .inr ⟨List.mem_cons_of_mem _ he, Bool.eq_false_iff.mpr fun hother => ?_⟩
        -- two keys that equal the new one would equal each other
        have hotherKey := hm e (List.mem_cons_of_mem _ he)
        have hplaces := ((sameKey_iff hfirstKey hkey).mp hsame).trans
          ((sameKey_iff hotherKey hkey).mp hother).symm
        have hfalse := hfirst e.1 (List.mem_map_of_mem he)
        rw [(sameKey_iff hfirstKey hotherKey).mpr hplaces] at hfalse
        cases hfalse
    | false =>
      simp only [hsame, Bool.false_eq_true, if_false] at he
      rcases List.mem_cons.mp he with rfl | he
      · exact .inr ⟨List.mem_cons_self, hsame⟩
      · exact (ih (fun e he => hm e (List.mem_cons_of_mem _ he)) hrest he).imp_right
          fun h => ⟨List.mem_cons_of_mem _ h.1, h.2⟩

/-- Each key of a mapping holds the value of the last entry under it. -/
theorem last_of_keyedOfList (hpairs : ∀ q ∈ pairs, q.1.Showable) (he : e ∈ keyedOfList pairs) :
    ∃ before key after, pairs = before ++ (key, e.2) :: after ∧ sameKey e.1 key = true ∧
      ∀ q ∈ after, sameKey e.1 q.1 = false := by
  induction pairs using List.reverseRecOn with
  | nil => cases he
  | append_singleton pairs q ih =>
    have hearlier : ∀ q ∈ pairs, q.1.Showable := fun q hq => hpairs q (List.mem_append_left _ hq)
    have hkeys : ∀ e ∈ keyedOfList pairs, e.1.Showable := fun e he => by
      have hmem : e.1 ∈ (keyedOfList pairs).map Prod.fst := List.mem_map_of_mem he
      rw [keys_keyedOfList] at hmem
      obtain ⟨q, hq, hsame⟩ := List.mem_map.mp ((eraseDupsBy_sublist _).subset hmem)
      exact hsame ▸ hearlier q hq
    have hdistinct : ((keyedOfList pairs).map Prod.fst).Pairwise fun a b => sameKey a b = false := by
      rw [keys_keyedOfList]
      exact pairwise_eraseDupsBy _
    rw [keyedOfList_append_singleton] at he
    rcases mem_insertKeyed_of_pairwise (hpairs q (by simp)) hkeys hdistinct he with
      ⟨hsame, hvalue⟩ | ⟨he, hother⟩
    · exact ⟨pairs, q.1, [], by rw [hvalue], hsame, by simp⟩
    · obtain ⟨before, key, after, rfl, hsame, hafter⟩ := ih hearlier he
      refine ⟨before, key, after ++ [q], by simp, hsame, fun x hx => ?_⟩
      rcases List.mem_append.mp hx with hx | hx
      · exact hafter x hx
      · rwa [List.mem_singleton.mp hx]

end Value

/-- What a column shows for a cell of a table is showable. -/
theorem Column.showable_shown (c : Column) {x : Cell} (hx : x.Proper) : (c.shown x).Showable := by
  unfold Column.shown
  cases x with
  | null => trivial
  | integer n =>
    dsimp only
    split <;> trivial
  | real x => exact hx
  | text s =>
    dsimp only
    split
    · cases Moment.ofText? s <;> trivial
    · trivial
  | blob b => trivial

end EntityQuery
