import EntityQuery.Text.Ranges
import EntityQuery.Text.PrintableTable
/-!
Quoted literals of texts and bytes. The quote is the single one unless the text holds a single and
no double quote; quotes of that kind, backslashes and characters that cannot be shown are escaped.
-/
namespace EntityQuery.Text

/-- The last `width` hexadecimal digits of a number, in lower case. -/
def hexDigits : Nat → Nat → List Char
  | 0, _ => []
  | width + 1, n => hexDigits width (n / 16) ++ [Nat.digitChar (n % 16)]

/-- The quote around a literal of these characters. -/
def quoteFor (cs : List Char) : Char := if cs.contains '\'' && !cs.contains '"' then '"' else '\''

/-- Escape by code point: two, four or eight hexadecimal digits. -/
def escapeCode (c : Char) : List Char :=
  if c.toNat < 256 then '\\' :: 'x' :: hexDigits 2 c.toNat
  else if c.toNat < 65536 then '\\' :: 'u' :: hexDigits 4 c.toNat
  else '\\' :: 'U' :: hexDigits 8 c.toNat

/-- A character inside a literal. -/
def quoteChar (quote c : Char) : List Char :=
  if c = quote ∨ c = '\\' then ['\\', c]
  else if c = '\n' then ['\\', 'n']
  else if c = '\r' then ['\\', 'r']
  else if c = '\t' then ['\\', 't']
  else if inRanges printable c then [c]
  else escapeCode c

/-- The literal of a text. -/
def quoted (s : String) : String :=
  let q := quoteFor s.toList
  String.ofList (q :: s.toList.flatMap (quoteChar q) ++ [q])

/-- A byte inside a literal of bytes: ASCII that can be shown as itself, all else escaped. -/
def quoteByte (quote : Char) (b : UInt8) : List Char :=
  if b.toNat < 128 then
    if 32 ≤ b.toNat ∧ b.toNat < 127 then quoteChar quote (Char.ofNat b.toNat)
    else if b.toNat = 9 then ['\\', 't']
    else if b.toNat = 10 then ['\\', 'n']
    else if b.toNat = 13 then ['\\', 'r']
    else '\\' :: 'x' :: hexDigits 2 b.toNat
  else '\\' :: 'x' :: hexDigits 2 b.toNat

/-- The literal of a sequence of bytes. -/
def quotedBytes (bytes : List UInt8) : String :=
  let q := quoteFor (bytes.map fun b => Char.ofNat b.toNat)
  String.ofList ('b' :: q :: bytes.flatMap (quoteByte q) ++ [q])

end EntityQuery.Text
