import EntityQuery.Text.Ranges
/-!
Blank characters and trimming. There are three sets: the blanks of Unicode, those with the four
separator controls, and the six ASCII ones that a number text may stand between.
-/
namespace EntityQuery.Text

/-- The white space of Unicode. -/
def blankRanges : List (Nat × Nat) :=
  [(9, 13), (32, 32), (133, 133), (160, 160), (5760, 5760), (8192, 8202), (8232, 8233),
   (8239, 8239), (8287, 8287), (12288, 12288)]

def isBlank (c : Char) : Bool := inRanges blankRanges c

/-- White space, or one of the four separator controls. -/
def isBlankOrSeparator (c : Char) : Bool := isBlank c || decide (28 ≤ c.toNat ∧ c.toNat ≤ 31)

/-- Tab, line feed, vertical tab, form feed, carriage return or space. -/
def isAsciiBlank (c : Char) : Bool := decide (c.toNat = 32 ∨ (9 ≤ c.toNat ∧ c.toNat ≤ 13))

/-- The characters without those at either end that satisfy `p`. -/
def trimBy (p : Char → Bool) (cs : List Char) : List Char :=
  ((cs.dropWhile p).reverse.dropWhile p).reverse

/-- Text without the white space and separators at its ends. -/
def trim (s : String) : String := String.ofList (trimBy isBlankOrSeparator s.toList)

theorem isBlank_of_isWhitespace (c : Char) (h : c.isWhitespace = true) : isBlank c = true := by
  simp only [Char.isWhitespace, Bool.or_eq_true] at h
  rcases h with ((h | h) | h) | h <;> obtain rfl := of_decide_eq_true h <;> rfl

end EntityQuery.Text
