import EntityQuery.Text.Ranges
import EntityQuery.Text.CaseTable
/-!
Upper and lower case of texts by the full Unicode mappings: a character may become several, and a
capital sigma at the end of a word becomes the final sigma.
-/
namespace EntityQuery.Text

/-- The image of a character under the first run that covers it. -/
def mapRun (runs : List CaseRun) (c : Char) : Char :=
  let covers (r : CaseRun) : Bool :=
    decide (r.1 ≤ c.toNat ∧ c.toNat ≤ r.2.1 ∧ (c.toNat - r.1) % r.2.2.1 = 0)
  match runs.find? covers with
  | some r => Char.ofNat ((c.toNat : Int) + r.2.2.2).toNat
  | none => c

/-- The image of a character: the special mapping if it has one, else its run. -/
def mapCase (special : List (Nat × List Nat)) (runs : List CaseRun) (c : Char) : List Char :=
  match special.lookup c.toNat with
  | some cs => cs.map Char.ofNat
  | none => [mapRun runs c]

def upperChars (cs : List Char) : List Char := cs.flatMap (mapCase upperSpecial upperRuns)

/-- Upper case of a text. -/
def upper (s : String) : String := String.ofList (upperChars s.toList)

/-- Whether the nearest character that is not transparent is a cased one. -/
def besideCased (cs : List Char) : Bool :=
  match cs.dropWhile (inRanges transparentRanges) with
  | c :: _ => inRanges casedRanges c
  | [] => false

/-- Lower case of the characters `cs` that follow `before` (given from last to first). -/
def lowerFrom (before : List Char) : List Char → List Char
  | [] => []
  | c :: rest =>
      (if c = 'Σ' then [if besideCased before && !besideCased rest then 'ς' else 'σ']
       else mapCase lowerSpecial lowerRuns c) ++ lowerFrom (c :: before) rest

/-- Lower case of a text. -/
def lower (s : String) : String := String.ofList (lowerFrom [] s.toList)

/-- Lower case of the ASCII letters alone. -/
def lowerAscii (s : String) : String := String.ofList (s.toList.map Char.toLower)

end EntityQuery.Text
