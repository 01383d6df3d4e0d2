import EntityQuery.Text.Ranges
import EntityQuery.Text.WidthTable
/-!
Widths on a terminal, in cells.
-/
namespace EntityQuery.Text

def cellWidth (c : Char) : Nat :=
  if inRanges emptyRanges c then 0 else if inRanges wideRanges c then 2 else 1

/-- The cells that a text takes. -/
def cellLength : List Char → Nat
  | [] => 0
  | c :: cs => cellWidth c + cellLength cs

def blanks (n : Nat) : List Char := List.replicate n ' '

/-- The characters that fit, from the first one on. -/
def takeCells : Nat → List Char → List Char
  | _, [] => []
  | width, c :: cs =>
    if cellWidth c ≤ width then c :: takeCells (width - cellWidth c) cs else []

/-- A text with blanks behind it, up to a width. -/
def padTo (width : Nat) (cs : List Char) : List Char := cs ++ blanks (width - cellLength cs)

/-- A text cut or padded to a width. -/
def fitTo (width : Nat) (cs : List Char) : List Char := padTo width (takeCells width cs)

theorem cellLength_append (as bs : List Char) :
    cellLength (as ++ bs) = cellLength as + cellLength bs := by
  induction as with
  | nil => simp [cellLength]
  | cons a as ih =>
    simp only [List.cons_append, cellLength, ih]
    omega

theorem cellLength_blanks (n : Nat) : cellLength (blanks n) = n := by
  have h : cellWidth ' ' = 1 := by decide +kernel
  induction n with
  | zero => rfl
  | succ n ih =>
    unfold blanks at ih ⊢
    simp only [List.replicate_succ, cellLength, h, ih]
    omega

theorem cellLength_takeCells_le (width : Nat) (cs : List Char) :
    cellLength (takeCells width cs) ≤ width := by
  induction cs generalizing width with
  | nil => simp [takeCells, cellLength]
  | cons c cs ih =>
    simp only [takeCells]
    split
    · have := ih (width - cellWidth c)
      simp only [cellLength]
      omega
    · simp [cellLength]

/-- What is cut or padded to a width has this width. -/
theorem cellLength_fitTo (width : Nat) (cs : List Char) : cellLength (fitTo width cs) = width := by
  have := cellLength_takeCells_le width cs
  simp only [fitTo, padTo, cellLength_append, cellLength_blanks]
  omega

end EntityQuery.Text
