import EntityQuery.Alias
import EntityQuery.Display.Markup
import EntityQuery.Display.Panel
import EntityQuery.Display.Table
import EntityQuery.Plan.Basic
/-!
What a terminal shows of an entity and of a plan.
-/
namespace EntityQuery

namespace Display

/-- The cells of a line if nothing else is asked for. -/
def defaultWidth : Nat := 120

/-- Lines as they are shown: cut to the width, and without the blanks at their end. -/
def shown (width : Nat) (lines : List (List Char)) : List String :=
  lines.map fun line => String.ofList (trimEnd (shorten width .fold line))

/-- Names with commas between them, or a sign for none. -/
def orSign (sign : String) (names : List String) : String :=
  if names.isEmpty then sign else ", ".intercalate names

def bold (s : String) : String := tagged "bold" s

/-- A table of marked texts. -/
def markedTable (columns : List TableColumn) (showsHeading : Bool) (rows : List (List String)) :
    Except MarkupError Table :=
  (rows.mapM (List.mapM Markup.plain)).map fun plain => ⟨columns, showsHeading, plain⟩

end Display

open Display

namespace Entity

/-- A row for each field, the keys marked, and for each relationship with its target. -/
def displayRows (s : Schema) (e : Entity) : List (List String) :=
  let byName (a b : String) : Bool := Cell.compareText a b != .gt
  let fields := (e.columns.map Column.field).mergeSort byName
  let relations := e.relationships.mergeSort fun a b => byName a.name b.name
  let isKey (name : String) : Bool := e.keyColumns.any fun c => c.field == name
  (fields.map fun name => [name, "field", if isKey name then tagged "yellow" "PK" else ""]) ++
    relations.map fun r =>
      [r.name, "relation",
       tagged "blue" ("-> " ++ ((s.entity? r.target).map Entity.name).getD r.target)]

/-- The columns of the display of an entity; they have no headings. -/
def displayColumns : List TableColumn :=
  [{ heading := [], width := some 24, wraps := false }, { heading := [], width := some 16 },
   { heading := [] }]

/-- The lines that show an entity. -/
def display (s : Schema) (width : Nat) (e : Entity) : Except MarkupError (List String) := do
  let heading ← Markup.plain
    (bold e.fullName ++ " " ++ tagged "dim" ("(alias " ++ e.aliasName ++ ")"))
  let table ← markedTable displayColumns false (displayRows s e)
  .ok (shown width (wrap width .fold true heading ++ table.lines width ++ [[]]))

end Entity

namespace Plan

/-- The parts of a plan, a line each, in marked text. -/
def displayText (p : Plan) : String :=
  let bound (n : Option Nat) : String := (n.map toString).getD "-"
  let order := p.orderBy.map fun c => c.path ++ " " ++ c.direction.text
  let unresolved := p.unresolvedSort.map Prod.fst
  "\n".intercalate <|
    [bold "FROM" ++ " " ++ p.root.fullName ++ " " ++ p.rootAlias,
     bold "SELECT" ++ " " ++ orSign "*" p.fields,
     bold "WHERE" ++ " " ++ toString p.predicates.length ++ " predicate(s)",
     bold "ORDER BY" ++ " " ++ orSign "-" order,
     bold "LIMIT" ++ " " ++ bound p.limit ++ "  " ++ bold "OFFSET" ++ " " ++ bound p.offset] ++
    (if unresolved.isEmpty then []
     else [tagged "yellow" "unresolved sort" ++ ": " ++ ", ".intercalate unresolved])

def joinColumns : List TableColumn :=
  ["Join", "Alias", "Type", "Fields"].map fun heading => { heading := heading.toList }

/-- The row of a join. -/
def joinRow (j : JoinClause) : List String :=
  [j.path, j.aliasName, j.joinType.text, orSign "*" j.fields]

/-- The lines that show a plan. -/
def display (width : Nat) (p : Plan) : Except MarkupError (List String) := do
  let content ← Markup.plain p.displayText
  let title ← Markup.plain (tagged "bold green" p.rootAlias)
  let frame := panel width title content
  if p.joins.isEmpty then .ok (shown width frame)
  else
    let table ← markedTable joinColumns true (p.joins.map joinRow)
    .ok (shown width (frame ++ table.lines width))

end Plan
end EntityQuery
