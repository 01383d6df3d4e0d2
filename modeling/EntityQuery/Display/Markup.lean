import EntityQuery.Log
import EntityQuery.Text.Blank
import EntityQuery.Text.Case
/-!
Marked text: tags in brackets that style what stands between them. A tag opens with a small letter
or one of `#`, `/` and `@`; behind an odd number of backslashes it is plain text.
-/
namespace EntityQuery

/-- A tag: its name, what stands behind the equals sign if there is one, and where it stands. -/
structure MarkupTag where
  name : List Char
  parameters : Option (List Char) := none
  position : Nat
  deriving DecidableEq, Repr

/-- A character or a tag of a marked text. -/
inductive MarkupPiece where
  | char (c : Char)
  | tag (t : MarkupTag)
  deriving DecidableEq, Repr

/-- Why a marked text cannot be read: a closing tag has no opening one. -/
inductive MarkupError where
  | unmatched (t : MarkupTag)
  | nothingOpen (t : MarkupTag)
  deriving DecidableEq, Repr

namespace MarkupTag

/-- A tag as it is written. -/
def text (t : MarkupTag) : String :=
  String.ofList ('[' :: t.name ++ ((t.parameters.map fun ps => '=' :: ps).getD []) ++ [']'])

/-- The tag that a text between brackets writes. -/
def ofBody (body : List Char) (position : Nat) : MarkupTag :=
  match body.dropWhile (· != '=') with
  | [] => ⟨body, none, position⟩
  | _ :: parameters => ⟨body.takeWhile (· != '='), some parameters, position⟩

end MarkupTag

def MarkupError.message : MarkupError → String
  | unmatched t => "closing tag '" ++ t.text ++ "' at position " ++ toString t.position ++
      " doesn't match any open tag"
  | nothingOpen t => "closing tag '[/]' at position " ++ toString t.position ++
      " has nothing to close"

namespace Markup

def opensTag (c : Char) : Bool :=
  decide ('a' ≤ c ∧ c ≤ 'z') || c == '#' || c == '/' || c == '@'

/-- The text of a tag behind its opening bracket, and what comes after the closing one. -/
def readTag? (cs : List Char) :
    Option (List Char × { rest : List Char // rest.length < cs.length }) :=
  match cs with
  | [] => none
  | c :: cs =>
    if opensTag c then
      match h : cs.dropWhile fun d => d != '[' && d != ']' with
      | ']' :: rest =>
        have : rest.length < (c :: cs).length := by
          have hs := (List.dropWhile_suffix (l := cs) fun d => d != '[' && d != ']').length_le
          simp only [h, List.length_cons] at hs ⊢
          omega
        some (c :: cs.takeWhile (fun d => d != '[' && d != ']'), ⟨rest, this⟩)
      | _ => none
    else none

def slashes (n : Nat) : List MarkupPiece := List.replicate n (.char '\\')

/-- The pieces of a text from a position on, behind a number of backslashes. -/
def piecesFrom (position behind : Nat) (cs : List Char) : List MarkupPiece :=
  match cs with
  | [] => slashes behind
  | c :: rest =>
    if c = '\\' then piecesFrom (position + 1) (behind + 1) rest
    else if c = '[' then
      match readTag? rest with
      | some (body, after) =>
        let piece := if behind % 2 = 0 then [.tag (MarkupTag.ofBody body position)]
          else ('[' :: body ++ [']']).map MarkupPiece.char
        slashes (behind / 2) ++ piece ++ piecesFrom (position + body.length + 2) 0 after.1
      | none => slashes (behind - 1) ++ .char '[' :: piecesFrom (position + 1) 0 rest
    else slashes behind ++ .char c :: piecesFrom (position + 1) 0 rest
termination_by cs.length
decreasing_by
  · simp
  · have := after.2
    simp only [List.length_cons]
    omega
  · simp
  · simp

/-- The pieces of a marked text. -/
def pieces (s : String) : List MarkupPiece := piecesFrom 0 0 s.toList

/-- The name that an opening tag goes by. -/
def normalName (name : List Char) : String :=
  Text.lower (String.ofList (Text.trimBy Text.isBlankOrSeparator name))

/-- The open tags, the last one first, after a closing tag. -/
def close (opened : List String) (t : MarkupTag) : Except MarkupError (List String) :=
  let name := normalName (t.name.drop 1)
  if name.isEmpty then
    match opened with
    | [] => .error (.nothingOpen t)
    | _ :: rest => .ok rest
  else if opened.contains name then .ok (opened.erase name)
  else .error (.unmatched t)

/-- The characters of the pieces, where every closing tag has an opening one. -/
def charsOf (opened : List String) : List MarkupPiece → Except MarkupError (List Char)
  | [] => .ok []
  | .char c :: rest => (charsOf opened rest).map (c :: ·)
  | .tag t :: rest =>
    if t.name.head? = some '/' then (close opened t).bind fun left => charsOf left rest
    else charsOf (normalName t.name :: opened) rest

/-- Controls that are never shown: bell, backspace, vertical tab, form feed, carriage return. -/
def isHidden (c : Char) : Bool := [7, 8, 11, 12, 13].contains c.toNat

/-- The plain text of a marked text. -/
def plain (s : String) : Except MarkupError (List Char) :=
  (charsOf [] (pieces s)).map fun cs => cs.filter fun c => !isHidden c

end Markup
end EntityQuery
