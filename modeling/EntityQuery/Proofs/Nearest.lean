import EntityQuery.Proofs.Comparison
import EntityQuery.Proofs.Served
import Mathlib
/-!
Correct rounding. The floating-point number of a quotient is the nearest finite one, and of two that are
equally near the one with the even significand.
-/
namespace EntityQuery

namespace Number

variable {a b : Nat}

/-- The rounded quotient is within half a unit. -/
theorem two_mul_abs_divToEven_le (hb : 0 < b) :
    2 * |(divToEven a b * b : ℤ) - a| ≤ b := by
  have hupper := two_mul_divToEven_mul_le a (b := b)
  have hlower := two_mul_le_divToEven_mul a hb
  zify at hupper hlower
  rcases abs_cases ((divToEven a b * b : ℤ) - a) with ⟨h, -⟩ | ⟨h, -⟩ <;> omega

/-- At a tie the rounded quotient is even. -/
theorem divToEven_even_of_tie (hb : 0 < b)
    (htie : 2 * |(divToEven a b * b : ℤ) - a| = b) : divToEven a b % 2 = 0 := by
  have hdiv : b * (a / b) + a % b = a := Nat.div_add_mod a b
  have hrest : a % b < b := Nat.mod_lt a hb
  have hnext : (a / b + 1) * b = b * (a / b) + b := by ring
  have hthis : a / b * b = b * (a / b) := Nat.mul_comm _ _
  have hhalf : 2 * (a % b) = b := by
    rcases divToEven_eq_or a b with h | h
    · rw [h] at htie
      rcases abs_cases (((a / b : ℕ) * b : ℤ) - a) with ⟨he, -⟩ | ⟨he, -⟩ <;> zify at * <;> omega
    · rw [h] at htie
      rcases abs_cases (((a / b + 1 : ℕ) * b : ℤ) - a) with ⟨he, -⟩ | ⟨he, -⟩ <;> zify at * <;> omega
  unfold divToEven
  dsimp only
  split_ifs <;> omega

/-- No multiple of the divisor is nearer than the one with the rounded quotient, and another one that is
as near makes it even. -/
theorem abs_divToEven_le (hb : 0 < b) (j : ℕ) :
    |(divToEven a b * b : ℤ) - a| ≤ |(j * b : ℤ) - a| ∧
      (|(divToEven a b * b : ℤ) - a| = |(j * b : ℤ) - a| → j ≠ divToEven a b →
        divToEven a b % 2 = 0) := by
  by_cases hj : j = divToEven a b
  · subst hj
    exact ⟨le_rfl, fun _ h => absurd rfl h⟩
  have hnear := two_mul_abs_divToEven_le (a := a) hb
  have hfar : (b : ℤ) ≤ |((j : ℤ) - divToEven a b) * b| := by
    rw [abs_mul, Nat.abs_cast]
    refine le_mul_of_one_le_left (Int.natCast_nonneg b) (Int.one_le_abs ?_)
    omega
  have hsplit : |((j : ℤ) - divToEven a b) * b| ≤
      |(j * b : ℤ) - a| + |(divToEven a b * b : ℤ) - a| := by
    have hsum : ((j : ℤ) - divToEven a b) * b = (j * b - a) - (divToEven a b * b - a) := by ring
    rw [hsum]
    exact abs_sub _ _
  refine ⟨by omega, fun htie _ => divToEven_even_of_tie hb ?_⟩
  omega

end Number

namespace Double

attribute [local irreducible] unitsPerOne

/-- The value of a finite number. -/
def value (x : Double) : ℚ := x.units / unitsPerOne

/-- A finite number is nearest to a value: no finite number is nearer, and one that is as near gives way
to the even pattern. -/
def Nearest (x : Double) (q : ℚ) : Prop :=
  x.isFinite = true ∧ ∀ y : Double, y.isFinite = true →
    |x.value - q| ≤ |y.value - q| ∧
      (|x.value - q| = |y.value - q| → y.value ≠ x.value → x.bits % 2 = 0)

theorem cast_unitsPerOne_pos : (0 : ℚ) < unitsPerOne := by
  exact_mod_cast Cell.unitsPerOne_pos

theorem unitsPerOne_eq {i j : ℕ} (h : i + j = 1074) : unitsPerOne = 2 ^ i * 2 ^ j := by
  unfold unitsPerOne
  rw [← h]
  exact Nat.pow_add 2 i j

/-! ### Sizes -/

/-- The size of a finite number is a significand of at most 53 bits times a power of two. -/
theorem exists_size_eq (y : Double) : ∃ m k, m < 2 ^ 53 ∧ y.size = m * 2 ^ k := by
  have hfraction : y.fraction < 2 ^ 52 := Nat.mod_lt _ (by decide)
  refine ⟨y.parts.1, y.parts.2, ?_, rfl⟩
  unfold parts
  split
  · dsimp only
    omega
  · change 2 ^ 52 + y.fraction < 2 ^ 53
    omega

/-- A pattern with a power and a significand stands for their product, also where the significand has
grown to its next power of two. -/
theorem size_of_pattern {k m : ℕ} (hm : m ≤ 2 ^ 53) (hnormal : k = 0 ∨ 2 ^ 52 ≤ m)
    (hfinite : k * 2 ^ 52 + m < 2047 * 2 ^ 52) :
    (signed false (k * 2 ^ 52 + m)).isFinite = true ∧ (signed false (k * 2 ^ 52 + m)).size = m * 2 ^ k ∧
      (signed false (k * 2 ^ 52 + m)).negative = false := by
  have hpos : ¬ 2 ^ 63 ≤ k * 2 ^ 52 + m := by omega
  have hexponent : (signed false (k * 2 ^ 52 + m)).exponent = (k * 2 ^ 52 + m) / 2 ^ 52 := by
    change (k * 2 ^ 52 + m) / 2 ^ 52 % 2 ^ 11 = _
    exact Nat.mod_eq_of_lt (by omega)
  have hfraction : (signed false (k * 2 ^ 52 + m)).fraction = (k * 2 ^ 52 + m) % 2 ^ 52 := rfl
  refine ⟨?_, ?_, by simpa [negative, signed] using hpos⟩
  · unfold isFinite
    rw [hexponent, decide_eq_true_eq]
    omega
  · unfold size parts
    rw [hexponent, hfraction]
    rcases lt_trichotomy m (2 ^ 53) with hlt | rfl | hgt
    · by_cases hsmall : m < 2 ^ 52
      · obtain rfl : k = 0 := by omega
        rw [if_pos (by omega), Nat.zero_mul, Nat.zero_add, Nat.mod_eq_of_lt hsmall]
        rfl
      · have hpower : (k * 2 ^ 52 + m) / 2 ^ 52 = k + 1 := by omega
        have hrest : (k * 2 ^ 52 + m) % 2 ^ 52 = m - 2 ^ 52 := by omega
        have hsum : Nat.pow 2 52 + (m - 2 ^ 52) = m := Nat.add_sub_cancel' (not_lt.mp hsmall)
        rw [if_neg (by omega), hpower, hrest]
        dsimp only
        rw [hsum, Nat.add_sub_cancel]
        rfl
    · have hpower : (k * 2 ^ 52 + 2 ^ 53) / 2 ^ 52 = k + 2 := by omega
      have hrest : (k * 2 ^ 52 + 2 ^ 53) % 2 ^ 52 = 0 := by omega
      rw [if_neg (by omega), hpower, hrest]
      change 2 ^ 52 * 2 ^ (k + 1) = 2 ^ 53 * 2 ^ k
      ring
    · omega

theorem value_eq_size {x : Double} (h : x.negative = false) : x.value = x.size / unitsPerOne := by
  simp [value, units, h]

theorem value_eq_neg_size {x : Double} (h : x.negative = true) :
    x.value = -(x.size / unitsPerOne : ℚ) := by
  simp [value, units, h, neg_div]

/-! ### Quotients -/

/-- A significand of 53 bits at a lower power is below the least one at this power, which the quotient
reaches. -/
theorem lower_power_lt {num den m i : ℕ} (hden : 0 < den) (hm : m < 2 ^ 53)
    (hi : i < powerFor num den) :
    m * 2 ^ i * den < 2 ^ 52 * (den * 2 ^ powerFor num den) ∧
      2 ^ 52 * (den * 2 ^ powerFor num den) ≤ num * unitsPerOne := by
  have hpower := powerFor_eq num den
  generalize powerFor num den = k at hpower hi ⊢
  have hscaled : num * unitsPerOne / den ≠ 0 := fun h => by
    rw [h, Nat.log2_zero] at hpower
    omega
  constructor
  · have hbelow : m * 2 ^ i < 2 ^ 52 * 2 ^ k := by
      calc m * 2 ^ i < 2 ^ 53 * 2 ^ i := Nat.mul_lt_mul_of_pos_right hm (Nat.two_pow_pos i)
        _ = 2 ^ 52 * 2 ^ (i + 1) := by ring
        _ ≤ 2 ^ 52 * 2 ^ k := Nat.mul_le_mul_left _ (Nat.pow_le_pow_right Nat.two_pos hi)
    calc m * 2 ^ i * den < 2 ^ 52 * 2 ^ k * den := Nat.mul_lt_mul_of_pos_right hbelow hden
      _ = 2 ^ 52 * (den * 2 ^ k) := by ring
  · calc 2 ^ 52 * (den * 2 ^ k) = 2 ^ (k + 52) * den := by ring
      _ = 2 ^ Nat.log2 (num * unitsPerOne / den) * den := by
          rw [hpower, Nat.sub_add_cancel (by omega)]
      _ ≤ num * unitsPerOne / den * den := Nat.mul_le_mul_right _ (Nat.log2_self_le hscaled)
      _ ≤ num * unitsPerOne := Nat.div_mul_le_self _ _

/-- No size of a finite number is nearer to a quotient than the one that is picked, and another one that
is as near makes the picked significand even. -/
theorem abs_size_le {num den : ℕ} (hden : 0 < den) {m : ℕ} (hm : m < 2 ^ 53) (i : ℕ) {d k : ℕ}
    (hk : k = powerFor num den) (hd : d = Number.divToEven (num * unitsPerOne) (den * 2 ^ k)) :
    |(d * (den * 2 ^ k) : ℤ) - num * unitsPerOne| ≤ |(m * 2 ^ i * den : ℤ) - num * unitsPerOne| ∧
      (|(d * (den * 2 ^ k) : ℤ) - num * unitsPerOne| = |(m * 2 ^ i * den : ℤ) - num * unitsPerOne| →
        m * 2 ^ i ≠ d * 2 ^ k → d % 2 = 0) := by
  have hstep : 0 < den * 2 ^ k := Nat.mul_pos hden (Nat.two_pow_pos k)
  have hmultiple := Number.abs_divToEven_le (a := num * unitsPerOne) hstep
  rw [← hd] at hmultiple
  push_cast at hmultiple
  by_cases hi : i < k
  · obtain ⟨hbelow, hreached⟩ := lower_power_lt hden hm (hk ▸ hi)
    rw [← hk] at hbelow hreached
    zify at hbelow hreached
    have hnear := (hmultiple (2 ^ 52)).1
    have hfar : |((2 ^ 52 : ℕ) : ℤ) * (den * 2 ^ k) - num * unitsPerOne| <
        |(m * 2 ^ i * den : ℤ) - num * unitsPerOne| := by
      rw [abs_of_nonpos (by push_cast; omega), abs_of_neg (by omega)]
      push_cast
      omega
    exact ⟨(hnear.trans_lt hfar).le, fun htie => absurd htie (hnear.trans_lt hfar).ne⟩
  · have hsize : m * 2 ^ i = m * 2 ^ (i - k) * 2 ^ k := by
      rw [Nat.mul_assoc, ← Nat.pow_add, Nat.sub_add_cancel (by omega)]
    have hunits : (m * 2 ^ i * den : ℤ) = (m * 2 ^ (i - k) : ℕ) * (den * 2 ^ k) := by
      have hcast : (m * 2 ^ i : ℤ) = (m * 2 ^ (i - k) : ℕ) * 2 ^ k := by exact_mod_cast hsize
      rw [hcast]
      ring
    rw [hunits]
    refine ⟨(hmultiple _).1, fun htie hne => (hmultiple _).2 htie fun h => hne ?_⟩
    rw [hsize, h]

/-- How far a size is from a quotient, over a common denominator. -/
theorem abs_sub_quotient {num den : ℕ} (hden : 0 < den) (z : ℕ) :
    |(z / unitsPerOne : ℚ) - num / den| =
      (|(z * den : ℤ) - num * unitsPerOne| : ℤ) / (unitsPerOne * den : ℚ) := by
  have hunits := cast_unitsPerOne_pos
  have hdenq : (0 : ℚ) < den := by exact_mod_cast hden
  rw [div_sub_div _ _ hunits.ne' hdenq.ne', abs_div, abs_of_pos (mul_pos hunits hdenq)]
  push_cast
  rw [mul_comm (unitsPerOne : ℚ) num]

/-- The parts of the pattern that is picked for a quotient. -/
theorem pattern_parts {num den : ℕ} (hden : 0 < den) {d k : ℕ} (hk : k = powerFor num den)
    (hd : d = Number.divToEven (num * unitsPerOne) (den * 2 ^ k)) :
    d ≤ 2 ^ 53 ∧ (k = 0 ∨ 2 ^ 52 ≤ d) := by
  have hpicked := Number.divToEven_eq_or (num * unitsPerOne) (den * 2 ^ k)
  rw [← hd] at hpicked
  constructor
  · have hlt : num * unitsPerOne / (den * 2 ^ k) < 2 ^ 53 := hk ▸ div_powerFor_lt num den
    omega
  · by_cases hzero : k = 0
    · exact .inl hzero
    · have hreached := (lower_power_lt (m := 0) (i := 0) hden (by omega) (by omega :
        0 < powerFor num den)).2
      rw [← hk] at hreached
      have hle := (Nat.le_div_iff_mul_le (Nat.mul_pos hden (Nat.two_pow_pos k))).mpr hreached
      exact .inr (by omega)

/-- A positive number is nearest to a value if it is so among the sizes of finite numbers: a negative number
is no nearer than zero. -/
theorem nearest_of_sizes {x : Double} {q : ℚ} (hq : 0 ≤ q) (hfinite : x.isFinite = true)
    (hplus : x.negative = false) (hsizes : ∀ m i : ℕ, m < 2 ^ 53 →
      |x.value - q| ≤ |((m * 2 ^ i : ℕ) / unitsPerOne : ℚ) - q| ∧
        (|x.value - q| = |((m * 2 ^ i : ℕ) / unitsPerOne : ℚ) - q| → m * 2 ^ i ≠ x.size →
          x.bits % 2 = 0)) : x.Nearest q := by
  refine ⟨hfinite, fun y _ => ?_⟩
  cases hnegative : y.negative with
  | false =>
    obtain ⟨m, i, hm, hy⟩ := y.exists_size_eq
    obtain ⟨hle, htie⟩ := hsizes m i hm
    rw [value_eq_size hnegative, hy]
    refine ⟨hle, fun he hne => htie he fun hsame => hne ?_⟩
    rw [value_eq_size hplus, hsame]
  | true =>
    obtain ⟨hle, htie⟩ := hsizes 0 0 (by decide)
    have hyv : 0 ≤ (y.size / unitsPerOne : ℚ) := by positivity
    have hzero : |((0 * 2 ^ 0 : ℕ) / unitsPerOne : ℚ) - q| = q := by
      rw [Nat.zero_mul, Nat.cast_zero, zero_div, zero_sub, abs_neg, abs_of_nonneg hq]
    have hfar : |y.value - q| = y.size / unitsPerOne + q := by
      rw [value_eq_neg_size hnegative, ← neg_add', abs_neg, abs_of_nonneg (add_nonneg hyv hq)]
    rw [hzero] at hle htie
    rw [hfar]
    refine ⟨by linarith, fun he hne => htie (by linarith) fun hsame => hne ?_⟩
    have hyzero : (y.size / unitsPerOne : ℚ) = 0 := by linarith
    rw [value_eq_neg_size hnegative, hyzero, value_eq_size hplus, ← hsame]
    simp

/-- The number that is picked for a quotient is nearest to it. -/
theorem nearest_ofRatio? {num den : ℕ} (hden : 0 < den) {x : Double}
    (h : ofRatio? false num den = some x) : x.Nearest (num / den) := by
  obtain ⟨k, hk⟩ : ∃ k, k = powerFor num den := ⟨_, rfl⟩
  obtain ⟨d, hd⟩ : ∃ d, d = Number.divToEven (num * unitsPerOne) (den * 2 ^ k) := ⟨_, rfl⟩
  have hpattern : nearestPattern num den = k * 2 ^ 52 + d := by
    rw [hd, hk]
    rfl
  unfold ofRatio? at h
  rw [hpattern] at h
  dsimp only at h
  split at h
  case isFalse => cases h
  case isTrue hbound =>
    obtain rfl := Option.some.inj h
    obtain ⟨hsmall, hnormal⟩ := pattern_parts hden hk hd
    obtain ⟨hfinite, hsize, hplus⟩ := size_of_pattern hsmall hnormal hbound
    have hbits : (signed false (k * 2 ^ 52 + d)).bits = k * 2 ^ 52 + d := rfl
    generalize signed false (k * 2 ^ 52 + d) = x at hfinite hsize hplus hbits ⊢
    have hcommon : (0 : ℚ) < unitsPerOne * den :=
      mul_pos cast_unitsPerOne_pos (by exact_mod_cast hden)
    have hproduct : ((x.size : ℕ) * den : ℤ) = d * (den * 2 ^ k) := by
      rw [hsize]
      push_cast
      ring
    refine nearest_of_sizes (by positivity) hfinite hplus fun m i hm => ?_
    obtain ⟨hle, htie⟩ := abs_size_le hden hm i hk hd
    rw [value_eq_size hplus, abs_sub_quotient hden, abs_sub_quotient hden, hproduct,
      div_le_div_iff_of_pos_right hcommon, div_left_inj' hcommon.ne', Int.cast_le, Int.cast_inj]
    push_cast
    refine ⟨hle, fun he hne => ?_⟩
    have heven := htie he (hsize ▸ hne)
    omega

/-! ### Whole numbers -/

/-- The least integer not below a finite number is that of its value. -/
theorem ceil_eq (x : Double) : x.ceil = ⌈x.value⌉ := by
  unfold ceil
  cases h : x.negative with
  | true =>
    rw [value_eq_neg_size h, Int.ceil_neg, Rat.floor_natCast_div_natCast]
    rfl
  | false =>
    have hunits : 0 < unitsPerOne := by exact_mod_cast Cell.unitsPerOne_pos
    rw [value_eq_size h, if_neg (by simp), eq_comm, Int.ceil_eq_iff]
    have hq := cast_unitsPerOne_pos
    rw [div_le_iff₀ hq, lt_div_iff₀ hq]
    have hdiv := Nat.div_add_mod (x.size + (unitsPerOne - 1)) unitsPerOne
    have hrest := Nat.mod_lt (x.size + (unitsPerOne - 1)) hunits
    generalize (x.size + (unitsPerOne - 1)) / unitsPerOne = n at hdiv ⊢
    rw [Nat.mul_comm] at hdiv
    have hlow : n * unitsPerOne < x.size + unitsPerOne := by omega
    have hhigh : x.size ≤ n * unitsPerOne := by omega
    constructor
    · rw [sub_mul, one_mul, sub_lt_iff_lt_add]
      exact_mod_cast hlow
    · exact_mod_cast hhigh

variable {x y : Double} {q : ℚ}

/-- A finite number that is not below a value is not below the nearest one. -/
theorem Nearest.value_le (h : x.Nearest q) (hy : y.isFinite = true) (hq : q ≤ y.value) :
    x.value ≤ y.value := by
  by_contra hlt
  have hnear := (h.2 y hy).1
  rw [abs_of_nonneg (by linarith), abs_of_nonneg (by linarith)] at hnear
  linarith

/-- The nearest number is not at the far side of one that is nearer than a bound. -/
theorem Nearest.lt_value (h : x.Nearest q) (hy : y.isFinite = true) {n : ℚ} (hn : n ≤ q)
    (hq : |y.value - q| < q - n) : n < x.value := by
  by_contra hle
  have hnear := (h.2 y hy).1
  rw [abs_of_nonpos (by linarith)] at hnear
  linarith

/-- Each significand of 53 bits over a power of two that it reaches is a finite number. -/
theorem exists_value {m e : ℕ} (he : e ≤ 52) (hlow : 2 ^ 52 ≤ m) (hhigh : m ≤ 2 ^ 53) :
    ∃ y : Double, y.isFinite = true ∧ y.value = m / 2 ^ (52 - e) := by
  obtain ⟨hfinite, hsize, hplus⟩ := size_of_pattern (k := 1022 + e) hhigh (.inr hlow) (by omega)
  refine ⟨_, hfinite, ?_⟩
  rw [value_eq_size hplus, hsize, unitsPerOne_eq (i := 52 - e) (j := 1022 + e) (by omega)]
  push_cast
  exact mul_div_mul_right _ _ (by positivity)

end Double
end EntityQuery
