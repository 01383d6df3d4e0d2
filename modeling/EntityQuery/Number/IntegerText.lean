import EntityQuery.Number.Decimal
import EntityQuery.Text.Blank
/-!
Integers written as decimal text: a sign, digits with single underscores between them, leading
zeros, and a point with zeros behind it.
-/
namespace EntityQuery.Number

/-- Digits with single underscores between them; `afterDigit` tells that a digit stands in front. -/
def plainDigits? (afterDigit : Bool) : List Char → Option (List Char)
  | [] => if afterDigit then some [] else none
  | '_' :: c :: rest =>
    if afterDigit && c.isDigit then (plainDigits? true rest).map (c :: ·) else none
  | c :: rest => if c.isDigit then (plainDigits? true rest).map (c :: ·) else none

/-- Drops a point that only zeros follow, at least one. -/
def dropZeroFraction (cs : List Char) : List Char :=
  let after := cs.dropWhile (· != '.')
  if decide (1 < after.length) && (after.drop 1).all (· == '0') then cs.takeWhile (· != '.') else cs

/-- The integer that a text without blanks around it writes. -/
def readInteger? (cs : List Char) : Option Int :=
  let (minus, body) := readSign cs
  (plainDigits? false (dropZeroFraction body)).map fun ds =>
    if minus then -(digitsValue ds : Int) else digitsValue ds

/-- The longest text that is read as an integer. -/
def integerTextLimit : Nat := 4300

end EntityQuery.Number
