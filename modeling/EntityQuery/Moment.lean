import EntityQuery.Number.Decimal
/-!
Points in time of a calendar and a clock, without a zone, and their texts.
-/
namespace EntityQuery

/-- A date and a time of day to the microsecond. -/
structure Moment where
  year : Nat
  month : Nat
  day : Nat
  hour : Nat := 0
  minute : Nat := 0
  second : Nat := 0
  microsecond : Nat := 0
  deriving DecidableEq, Repr

namespace Moment

/-- A natural with zeros in front up to the given width. -/
def padded (width n : Nat) : String :=
  let cs := (toString n).toList
  String.ofList (List.replicate (width - cs.length) '0' ++ cs)

def dateText (t : Moment) : String :=
  padded 4 t.year ++ "-" ++ padded 2 t.month ++ "-" ++ padded 2 t.day

def clockText (t : Moment) : String :=
  padded 2 t.hour ++ ":" ++ padded 2 t.minute ++ ":" ++ padded 2 t.second

/-- Date and clock around a separator; microseconds only if there are any. -/
def text (separator : String) (t : Moment) : String :=
  t.dateText ++ separator ++ t.clockText ++
    (if t.microsecond = 0 then "" else "." ++ padded 6 t.microsecond)

/-- The interchange text, with a `T` between date and clock. -/
def isoText (t : Moment) : String := t.text "T"

/-- The text that a column of moments holds, always with six places. -/
def storedText (t : Moment) : String :=
  t.dateText ++ " " ++ t.clockText ++ "." ++ padded 6 t.microsecond

/-- The literal: its numbers up to the minute, and further if the second or its part is not zero. -/
def literal (t : Moment) : String :=
  let numbers := [t.year, t.month, t.day, t.hour, t.minute] ++
    (if t.microsecond ≠ 0 then [t.second, t.microsecond]
     else if t.second ≠ 0 then [t.second] else [])
  "datetime.datetime(" ++ ", ".intercalate (numbers.map toString) ++ ")"

/-- Reads digits up to a separator character. -/
def readField (sep : Char) (cs : List Char) : Option (Nat × List Char) :=
  match Number.spanDigits cs with
  | ([], _) => none
  | (ds, c :: rest) => if c = sep then some (Number.digitsValue ds, rest) else none
  | (_, []) => none

/-- The microseconds that up to six digits after the point stand for. -/
def readFraction (cs : List Char) : Option Nat :=
  match cs with
  | [] => some 0
  | '.' :: ds =>
    if ds.isEmpty || !ds.all Char.isDigit then none
    else some (Number.digitsValue ((ds ++ List.replicate 6 '0').take 6))
  | _ => none

/-- Reads an interchange or a stored text. -/
def ofText? (s : String) : Option Moment := do
  let (year, cs) ← readField '-' s.toList
  let (month, cs) ← readField '-' cs
  let (dayDigits, cs) := Number.spanDigits cs
  if dayDigits.isEmpty then none
  else
    let day := Number.digitsValue dayDigits
    match cs with
    | [] => some ⟨year, month, day, 0, 0, 0, 0⟩
    | sep :: cs =>
      if sep = 'T' ∨ sep = ' ' then do
        let (hour, cs) ← readField ':' cs
        let (minute, cs) ← readField ':' cs
        let (secondDigits, cs) := Number.spanDigits cs
        if secondDigits.isEmpty then none
        else
          let microsecond ← readFraction cs
          some ⟨year, month, day, hour, minute, Number.digitsValue secondDigits, microsecond⟩
      else none

end Moment
end EntityQuery
