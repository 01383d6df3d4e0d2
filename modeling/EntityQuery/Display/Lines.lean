import EntityQuery.Text.Blank
import EntityQuery.Text.Cut
import EntityQuery.Text.Width
/-!
Breaking texts into lines of a given width. Lines break between words; a word that fits no line is
folded into several, or cut with an ellipsis.
-/
namespace EntityQuery.Display

open Text

/-- What becomes of a word that fits no line. -/
inductive Overflow where
  | fold | ellipsis
  deriving DecidableEq, Repr

def isGap (c : Char) : Bool := isBlankOrSeparator c

/-- A text without the blanks at its end. -/
def trimEnd (cs : List Char) : List Char := (cs.reverse.dropWhile isGap).reverse

/-- The words from here on, where `current` holds the last characters, the latest first. -/
def wordsFrom (current : List Char) (inWord behindWord : Bool) : List Char → List (List Char)
  | [] => if inWord then [current.reverse] else []
  | c :: cs =>
    if isGap c then wordsFrom (c :: current) inWord inWord cs
    else if behindWord then current.reverse :: wordsFrom [c] true false cs
    else wordsFrom (c :: current) true false cs

/-- The words of a line, each with the blanks behind it; blanks in front go to the first one. -/
def words (cs : List Char) : List (List Char) := wordsFrom [] false false cs

/-- The pieces of a word from here on, where `current` holds the last characters of a line, the
latest first, and `used` its cells. -/
def chopFrom (width : Nat) (current : List Char) (used : Nat) : List Char → List (List Char)
  | [] => [current.reverse]
  | c :: cs =>
    if width < used + cellWidth c then current.reverse :: chopFrom width [c] (cellWidth c) cs
    else chopFrom width (c :: current) (used + cellWidth c) cs

/-- A word in pieces that fit a width. -/
def chop (width : Nat) (word : List Char) : List (List Char) := chopFrom width [] 0 word

/-- Where pieces start that follow one another. -/
def starts (start : Nat) : List (List Char) → List Nat
  | [] => []
  | piece :: rest => start :: starts (start + piece.length) rest

/-- Where the lines of words break, the words starting at `start` and in a column of cells. -/
def breaks (width : Nat) (o : Overflow) (start column : Nat) : List (List Char) → List Nat
  | [] => []
  | word :: rest =>
    let length := cellLength (trimEnd word)
    let next := start + word.length
    if column + length ≤ width then breaks width o next (column + cellLength word) rest
    else if length ≤ width then
      (if start = 0 then [] else [start]) ++ breaks width o next (cellLength word) rest
    else match o with
      | .fold =>
        let pieces := chop width word
        (starts start pieces).filter (· != 0) ++
          breaks width o next (cellLength (pieces.getLastD [])) rest
      | .ellipsis =>
        (if start = 0 then [] else [start]) ++ breaks width o next (cellLength word) rest

/-- The parts of a text between the places where it breaks. -/
def cutAt (position : Nat) : List Nat → List Char → List (List Char)
  | [], cs => [cs]
  | b :: bs, cs => cs.take (b - position) :: cutAt b bs (cs.drop (b - position))

/-- A line without the blanks at its end that are too many. -/
def dropExcess (width : Nat) (cs : List Char) : List Char :=
  let gaps := cs.length - (trimEnd cs).length
  cs.take (cs.length - min gaps (cs.length - width))

/-- A line that is no longer than a width. -/
def shorten (width : Nat) (o : Overflow) (cs : List Char) : List Char :=
  if cellLength cs ≤ width then cs
  else match o with
    | .fold => fitTo width cs
    | .ellipsis => fitTo (width - 1) cs ++ ['…']

def tabWidth : Nat := 8

/-- A text with blanks for its tabs, where `column` cells stand before it. -/
def expandTabs (column : Nat) : List Char → List Char
  | [] => []
  | c :: cs =>
    if c = '\t' then
      let gap := tabWidth - column % tabWidth
      blanks gap ++ expandTabs (column + gap) cs
    else c :: expandTabs (column + cellWidth c) cs

/-- The lines of one line of text. -/
def wrapLine (width : Nat) (o : Overflow) (wraps : Bool) (cs : List Char) : List (List Char) :=
  let line := expandTabs 0 cs
  let parts := if wraps then cutAt 0 (breaks width o 0 0 (words line)) line else [line]
  parts.map fun part => shorten width o (dropExcess width part)

/-- The lines of a text; every line feed ends a line. -/
def wrap (width : Nat) (o : Overflow) (wraps : Bool) (cs : List Char) : List (List Char) :=
  (splitAt '\n' cs).flatMap (wrapLine width o wraps)

end EntityQuery.Display
