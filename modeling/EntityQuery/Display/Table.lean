import EntityQuery.Display.Lines
import EntityQuery.Number.Rounding
/-!
Tables without rules: cells with a blank on either side, in columns that shrink until the table
fits.
-/
namespace EntityQuery.Display

open Text

/-- A column: its heading, its width if that is fixed, and whether its cells break into lines. -/
structure TableColumn where
  heading : List Char
  width : Option Nat := none
  wraps : Bool := true
  deriving DecidableEq, Repr

/-- A table of plain texts. -/
structure Table where
  columns : List TableColumn
  showsHeading : Bool := true
  rows : List (List (List Char))
  deriving DecidableEq, Repr

/-- Cells beside the content of a cell. -/
def padding : Nat := 2

/-- Characters that end a line for measuring. -/
def endsLine (c : Char) : Bool :=
  [10, 11, 12, 13, 28, 29, 30, 133, 8232, 8233].contains c.toNat

/-- The cells of the longest line of a text. -/
def longestLine : List Char → Nat → Nat → Nat
  | [], current, best => max current best
  | c :: cs, current, best =>
    if endsLine c then longestLine cs 0 (max current best)
    else longestLine cs (current + cellWidth c) best

/-- The width of a padded cell in a place of at most `limit` cells. -/
def cellExtent (limit : Nat) (text : List Char) : Nat :=
  if limit ≤ padding then limit else min limit (min limit (longestLine text 0 0) + padding)

/-- The width of a column in a place of at most `limit` cells. -/
def columnExtent (limit : Nat) (c : TableColumn) (texts : List (List Char)) : Nat :=
  match c.width with
  | some w => min limit (w + padding)
  | none =>
    if texts.isEmpty then limit else (texts.map (cellExtent limit)).foldl max 0

def sumOf : List Nat → Nat
  | [] => 0
  | n :: ns => n + sumOf ns

/-- A slot of a sum that is to be reduced: its share, the most it can lose, and its value. -/
structure Slot where
  share : Nat
  most : Nat
  value : Nat
  deriving DecidableEq, Repr

/-- Takes a total off the values by their shares; `shares` is their sum from here on. -/
def reduceFrom (total shares : Nat) : List Slot → List Nat
  | [] => []
  | s :: rest =>
    if s.share = 0 || shares = 0 then s.value :: reduceFrom total shares rest
    else
      let loss := min s.most (Number.divToEven (s.share * total) shares)
      (s.value - loss) :: reduceFrom (total - loss) (shares - s.share) rest

/-- Takes a total off the values by their shares. A slot that cannot lose anything has no share. -/
def reduce (total : Nat) (slots : List Slot) : List Nat :=
  let slots := slots.map fun s => if s.most = 0 then { s with share := 0 } else s
  reduceFrom total (sumOf (slots.map Slot.share)) slots

/-- Takes cells off the widest shrinkable columns, down to the next narrower one. -/
def shrinkWidest (excess : Nat) (columns : List (Nat × Bool)) : List Nat :=
  let widest := (columns.map fun c => if c.2 then c.1 else 0).foldl max 0
  let second := (columns.map fun c => if c.2 && c.1 != widest then c.1 else 0).foldl max 0
  reduce excess (columns.map fun c =>
    ⟨if c.2 && c.1 == widest then 1 else 0, min excess (widest - second), c.1⟩)

/-- Widths that sum to the limit if the shrinkable columns can bear it; each step takes at least
one cell off, so the first sum bounds their number. -/
def shrink (limit : Nat) : Nat → List (Nat × Bool) → List Nat
  | 0, columns => columns.map Prod.fst
  | fuel + 1, columns =>
    let widths := columns.map Prod.fst
    if sumOf widths ≤ limit then widths
    else
      let shrunk := shrinkWidest (sumOf widths - limit) columns
      if shrunk = widths then widths
      else shrink limit fuel (shrunk.zip (columns.map Prod.snd))

namespace Table

/-- The texts of each column, the heading first if it is shown. -/
def columnTexts (t : Table) : List (TableColumn × List (List Char)) :=
  t.columns.zipIdx.map fun (c, i) =>
    (c, (if t.showsHeading then [c.heading] else []) ++ t.rows.map fun row => row.getD i [])

/-- The widths of the columns in a place of at most `limit` cells. -/
def widths (limit : Nat) (t : Table) : List Nat :=
  let texts := t.columnTexts
  let natural := texts.map fun (c, ts) =>
    let w := if limit = 0 then 0 else columnExtent limit c ts
    if w = 0 then 1 else w
  if sumOf natural ≤ limit then natural
  else
    let shrunk := shrink limit (sumOf natural)
      (natural.zip (t.columns.map fun c => c.width.isNone && c.wraps))
    let even := if sumOf shrunk ≤ limit then shrunk
      else reduce (sumOf shrunk - limit) (shrunk.map fun w => ⟨1, w, w⟩)
    (even.zip texts).map fun (w, c, ts) => if w = 0 then 0 else columnExtent w c ts

/-- The lines of a cell of a column with a width. -/
def cellLines (width : Nat) (c : TableColumn) (text : List Char) : List (List Char) :=
  if width ≤ padding then []
  else
    let inner := width - padding
    (wrap inner .ellipsis c.wraps text).map fun line => ' ' :: padTo inner line ++ [' ']

/-- The lines of a row. Cells stand at the top of their row, those of the heading at the bottom. -/
def rowLines (isHeading : Bool) (columns : List (Nat × TableColumn)) (texts : List (List Char)) :
    List (List Char) :=
  let cells := (columns.zip texts).map fun ((w, c), text) => (w, cellLines w c text)
  let height := (cells.map fun cell => cell.2.length).foldl max 0
  let shaped := cells.map fun (w, lines) =>
    let free := List.replicate (height - lines.length) (blanks w)
    (w, if isHeading then free ++ lines else lines ++ free)
  (List.range (max 1 height)).map fun i => shaped.flatMap fun (w, lines) => lines.getD i (blanks w)

/-- The lines of a table in a place of at most `limit` cells. -/
def lines (limit : Nat) (t : Table) : List (List Char) :=
  let columns := (t.widths limit).zip t.columns
  (if t.showsHeading then rowLines true columns (t.columns.map TableColumn.heading) else []) ++
    t.rows.flatMap (rowLines false columns)

end Table
end EntityQuery.Display
