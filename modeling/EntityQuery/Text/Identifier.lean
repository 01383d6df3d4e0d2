import EntityQuery.Text.Ranges
import EntityQuery.Text.IdentifierTable
/-!
Identifiers: a start character, then characters that may continue one.
-/
namespace EntityQuery.Text

def isIdentifierChars : List Char → Bool
  | [] => false
  | c :: rest => inRanges identifierStart c && rest.all (inRanges identifierContinue)

/-- Whether a text is an identifier. -/
def isIdentifier (s : String) : Bool := isIdentifierChars s.toList

end EntityQuery.Text
