import EntityQuery.Display.Lines
/-!
Panels: text in a frame with a title in its upper edge.
-/
namespace EntityQuery.Display

open Text

def edge (n : Nat) : List Char := List.replicate n '─'

/-- The title between blanks in the middle of an edge. -/
def centredTitle (width : Nat) (title : List Char) : List Char :=
  let text := shorten width .fold (' ' :: title ++ [' '])
  let free := width - cellLength text
  edge (free / 2) ++ text ++ edge (free - free / 2)

/-- The upper edge; a narrow one has no title. -/
def upperEdge (width : Nat) (title : List Char) : List Char :=
  if width ≤ 4 then '╭' :: edge (width - 2) ++ ['╮']
  else '╭' :: '─' :: centredTitle (width - 4) title ++ ['─', '╮']

/-- The lines of a panel. -/
def panel (width : Nat) (title content : List Char) : List (List Char) :=
  let inner := width - 4
  let body := if inner = 0 then [] else
    (wrap inner .fold true content).map fun line => "│ ".toList ++ padTo inner line ++ " │".toList
  upperEdge width title :: body ++ ['╰' :: edge (width - 2) ++ ['╯']]

end EntityQuery.Display
