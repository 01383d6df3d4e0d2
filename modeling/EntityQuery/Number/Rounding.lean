/-!
Division of naturals rounded to the nearest integer. Main statements: the result is within half a
unit of the quotient, and a tie goes to the even neighbour.
-/
namespace EntityQuery.Number

/-- The quotient rounded to the nearest integer, a tie to the even one. -/
def divToEven (a b : Nat) : Nat :=
  let q := a / b
  let r := a % b
  if 2 * r < b then q else if b < 2 * r then q + 1 else if q % 2 = 0 then q else q + 1

/-- The quotient rounded to the nearest integer, a tie upwards. -/
def divHalfUp (a b : Nat) : Nat := (2 * a + b) / (2 * b)

theorem divToEven_eq_or (a b : Nat) : divToEven a b = a / b ∨ divToEven a b = a / b + 1 := by
  simp only [divToEven]
  split
  · exact .inl rfl
  · split
    · exact .inr rfl
    · split
      · exact .inl rfl
      · exact .inr rfl

theorem two_mul_divToEven_mul_le (a : Nat) {b : Nat} :
    2 * (divToEven a b * b) ≤ 2 * a + b := by
  have h : b * (a / b) + a % b = a := Nat.div_add_mod a b
  have hc : a / b * b = b * (a / b) := Nat.mul_comm _ _
  have hs : (a / b + 1) * b = b * (a / b) + b := by rw [Nat.add_mul, Nat.one_mul, hc]
  simp only [divToEven]
  split
  · omega
  · split
    · omega
    · split <;> omega

theorem two_mul_le_divToEven_mul (a : Nat) {b : Nat} (hb : 0 < b) :
    2 * a ≤ 2 * (divToEven a b * b) + b := by
  have h : b * (a / b) + a % b = a := Nat.div_add_mod a b
  have hr : a % b < b := Nat.mod_lt a hb
  have hc : a / b * b = b * (a / b) := Nat.mul_comm _ _
  have hs : (a / b + 1) * b = b * (a / b) + b := by rw [Nat.add_mul, Nat.one_mul, hc]
  simp only [divToEven]
  split
  · omega
  · split
    · omega
    · split <;> omega

theorem divToEven_mul_right (q : Nat) {b : Nat} (hb : 0 < b) : divToEven (q * b) b = q := by
  simp [divToEven, Nat.mul_div_cancel q hb, hb]

end EntityQuery.Number
