import EntityQuery.Number.Double
/-!
Decimal texts of 64-bit floating-point numbers: the fewest digits that read back, or a fixed number
of significant digits, in positional or scientific notation.
-/
namespace EntityQuery.Number

/-- Digits `d` and a point position `p`: the number `0.d * 10 ^ p`, where the first digit is not
zero. -/
structure Digits where
  digits : List Char
  point : Int
  deriving DecidableEq, Repr

/-- The digits of a positive natural without zeros at its end, and how many zeros there were. -/
def stripZeros (cs : List Char) : List Char × Nat :=
  let rev := cs.reverse
  ((rev.dropWhile (· == '0')).reverse, (rev.takeWhile (· == '0')).length)

/-- The decimal digits of `n * 10 ^ power`. -/
def Digits.ofScaled (n : Nat) (power : Int) : Digits :=
  let cs := (toString n).toList
  ⟨(stripZeros cs).1, cs.length + power⟩

/-- The point position of `num / den`: the `p` with `10 ^ (p - 1) ≤ num / den < 10 ^ p`. -/
def pointOf (num den : Nat) : Int :=
  if den ≤ num then ((toString (num / den)).length : Int)
  else
    match (List.range 400).find? (fun j => decide (den ≤ num * Nat.pow 10 (j + 1))) with
    | some j => -(j : Int)
    | none => -400

/-- The quotient and the divisor of `num / den / 10 ^ power`. -/
def scaleDown (num den : Nat) (power : Int) : Nat × Nat :=
  if 0 ≤ power then (num, den * Nat.pow 10 power.toNat) else (num * Nat.pow 10 (-power).toNat, den)

/-- Of the two points `c` and `c + 1` of a decimal grid beside a value, the nearer one that lies in
the interval of reals that round to it. All are in units of a quarter of the last significand bit
over `den`; an exact tie takes the even point. -/
def gridPoint (low value high den : Nat) (closed : Bool) (power : Int) : Option Nat :=
  let (v, d) := scaleDown value den power
  let (l, _) := scaleDown low den power
  let (h, _) := scaleDown high den power
  let c := v / d
  let inside (n : Nat) : Bool :=
    if closed then decide (l ≤ n * d ∧ n * d ≤ h) else decide (l < n * d ∧ n * d < h)
  let below := inside c
  let above := inside (c + 1)
  if below && above then
    let r := v % d
    if 2 * r < d then some c else if d < 2 * r then some (c + 1)
    else some (if c % 2 = 0 then c else c + 1)
  else if below then some c
  else if above then some (c + 1)
  else none

/-- The fewest digits that read back as this positive finite number, the nearest such. -/
def shortest (x : Double) : Digits :=
  let (m, k) := x.parts
  let value := 4 * m * Nat.pow 2 k
  let high := (4 * m + 2) * Nat.pow 2 k
  let low := (if m = Nat.pow 2 52 ∧ k ≠ 0 then 4 * m - 1 else 4 * m - 2) * Nat.pow 2 k
  let den := 4 * Double.unitsPerOne
  let p := pointOf value den
  let tries := (List.range 17).findSome? fun n =>
    let power := p - (n + 1 : Nat)
    (gridPoint low value high den (m % 2 == 0) power).map (Digits.ofScaled · power)
  tries.getD (Digits.ofScaled (value * Nat.pow 10 17 / den) (-17))

/-- The number rounded to at most `count` significant digits, a tie away from zero. -/
def significant (count : Nat) (x : Double) : Digits :=
  let p := pointOf x.size Double.unitsPerOne
  let power := p - (count : Int)
  let (v, d) := scaleDown x.size Double.unitsPerOne power
  Digits.ofScaled (divHalfUp v d) power

/-- An exponent with its sign and at least two digits. -/
def exponentText (e : Int) : String :=
  let body := toString e.natAbs
  (if e < 0 then "-" else "+") ++ (if body.length < 2 then "0" ++ body else body)

/-- Positional notation; a point and one digit always follow. -/
def positional (d : Digits) : String :=
  let n := d.digits.length
  if d.point ≤ 0 then
    "0." ++ String.ofList (List.replicate (-d.point).toNat '0' ++ d.digits)
  else if (n : Int) ≤ d.point then
    String.ofList (d.digits ++ List.replicate (d.point.toNat - n) '0') ++ ".0"
  else
    let whole := d.point.toNat
    String.ofList (d.digits.take whole) ++ "." ++ String.ofList (d.digits.drop whole)

/-- Scientific notation; `bare` leaves a lone digit without a point. -/
def scientific (bare : Bool) (d : Digits) : String :=
  let tail := d.digits.drop 1
  let fractionPart :=
    if tail.isEmpty then (if bare then "" else ".0") else "." ++ String.ofList tail
  String.ofList (d.digits.take 1) ++ fractionPart ++ "e" ++ exponentText (d.point - 1)

/-- The literal of a number: the fewest digits that read back, positional from `0.0001` to below
`10 ^ 16`, else scientific; NaN and the infinities by name. -/
def floatLiteral (x : Double) : String :=
  if x.isNaN then "nan"
  else
    let sign := if x.negative then "-" else ""
    if x.isInfinite then sign ++ "inf"
    else if x.size = 0 then sign ++ "0.0"
    else
      let d := shortest x
      sign ++ (if -4 < d.point ∧ d.point ≤ 16 then positional d else scientific true d)

/-- The text that a number column shows: fifteen significant digits, positional from `0.0001` to
below `10 ^ 15`, else scientific. -/
def columnText (x : Double) : String :=
  if x.isNaN then ""
  else
    let sign := if x.negative then "-" else ""
    if x.isInfinite then sign ++ "Inf"
    else if x.size = 0 then "0.0"
    else
      let d := significant 15 x
      sign ++ (if -4 < d.point ∧ d.point ≤ 15 then positional d else scientific false d)

/-- Digits at the front of a list of characters, and the rest. -/
def spanDigits (cs : List Char) : List Char × List Char :=
  (cs.takeWhile Char.isDigit, cs.dropWhile Char.isDigit)

def digitsValue (cs : List Char) : Nat := cs.foldl (fun n c => 10 * n + (c.toNat - 48)) 0

/-- A sign at the front: whether it is a minus, and the rest. -/
def readSign : List Char → Bool × List Char
  | '-' :: rest => (true, rest)
  | '+' :: rest => (false, rest)
  | cs => (false, cs)

/-- A decimal number as written: sign, all digits as one natural, power of ten, and whether it has
neither point nor exponent. -/
structure DecimalText where
  minus : Bool
  digits : Nat
  power : Int
  whole : Bool
  deriving DecidableEq, Repr

/-- Reads an optional sign, digits with an optional point among or beside them, and an optional
exponent with at least one digit; the whole text must be used. -/
def DecimalText.read? (cs : List Char) : Option DecimalText :=
  let (minus, body) := readSign cs
  let (before, rest) := spanDigits body
  let (after, rest', point) :=
    match rest with
    | '.' :: r => ((spanDigits r).1, (spanDigits r).2, true)
    | _ => ([], rest, false)
  if before.isEmpty && after.isEmpty then none
  else
    let digits := digitsValue (before ++ after)
    match rest' with
    | [] => some ⟨minus, digits, -(after.length : Int), !point⟩
    | e :: r =>
      if e = 'e' ∨ e = 'E' then
        let (eMinus, eBody) := readSign r
        let (eDigits, eRest) := spanDigits eBody
        if eDigits.isEmpty || !eRest.isEmpty then none
        else
          let n : Int := digitsValue eDigits
          some ⟨minus, digits, (if eMinus then -n else n) - after.length, false⟩
      else none

/-- The floating-point number nearest to a decimal one; exponents out of reach are decided without
computing the power. -/
def DecimalText.toDouble (d : DecimalText) : Double :=
  if d.digits = 0 then Double.zero d.minus
  else
    let point : Int := (toString d.digits).length + d.power
    if 400 < point then Double.infinity d.minus
    else if point < -400 then Double.zero d.minus
    else Double.ofDecimal d.minus d.digits d.power

/-- The number that a literal names: a decimal one, or `nan`, `inf`, `-inf`. -/
def readFloatLiteral? (s : String) : Option Double :=
  if s = "nan" ∨ s = "-nan" then some Double.nan
  else if s = "inf" then some (Double.infinity false)
  else if s = "-inf" then some (Double.infinity true)
  else (DecimalText.read? s.toList).map DecimalText.toDouble

end EntityQuery.Number
