import EntityQuery.OrderedMap
import EntityQuery.Text.Blank
import EntityQuery.Text.Case
import EntityQuery.Plan.Filters
import EntityQuery.Schema
/-!
Query strings: pairs of keys and values that write a descriptor. `filter[name]` may be repeated to
give a list, `sort[field]` and `join[relation]` take the last value, and a few plain keys give the
rest.
-/
namespace EntityQuery

/-- The three families of keys with a name in brackets. -/
inductive BracketKind where
  | filter | sort | join
  deriving DecidableEq, Repr

def BracketKind.word : BracketKind → String
  | filter => "filter"
  | sort => "sort"
  | join => "join"

def BracketKind.all : List BracketKind := [filter, sort, join]

/-- The name before the last closing bracket, which only one line feed may follow; it is not empty
and has no line feed in it. -/
def bracketName? (cs : List Char) : Option String :=
  let body := match cs.reverse with
    | '\n' :: ']' :: rest => some rest.reverse
    | ']' :: rest => some rest.reverse
    | _ => none
  match body with
  | none => none
  | some name =>
    if name.isEmpty || name.contains '\n' then none else some (String.ofList name)

/-- The kind and the name of a key in brackets. -/
def bracketKey? (key : String) : Option (BracketKind × String) :=
  BracketKind.all.findSome? fun kind =>
    match Text.dropPrefix? (kind.word ++ "[") key with
    | none => none
    | some rest => (bracketName? rest.toList).map fun name => (kind, name)

/-- What a query string asks for. -/
structure QueryString where
  /-- All values of each filter, in order; there is at least one. -/
  filters : OrderedMap (List String) := .empty
  sort : OrderedMap String := .empty
  joins : OrderedMap String := .empty
  fields : Option (List String) := none
  limit : Option String := none
  offset : Option String := none
  indexBy : Option String := none
  count : Option Bool := none

namespace QueryString

/-- Texts that say yes. -/
def affirmations : List String := ["1", "true", "yes", "on"]

/-- The names between commas, without blanks around them; empty ones do not count. -/
def splitNames (s : String) : List String :=
  let names := (Text.splitAt ',' s.toList).map (Text.trimBy Text.isBlankOrSeparator)
  (names.filter fun cs => !cs.isEmpty).map String.ofList

def orElse (s fallback : String) : String := if s.isEmpty then fallback else s

/-- Takes in one pair; a key that means nothing is passed over. -/
def addPair (q : QueryString) (key value : String) : QueryString :=
  match bracketKey? key with
  | some (.filter, name) =>
    { q with filters := q.filters.insert name ((q.filters.find? name).getD [] ++ [value]) }
  | some (.sort, name) => { q with sort := q.sort.insert name (orElse value "asc") }
  | some (.join, name) => { q with joins := q.joins.insert name (orElse value "left") }
  | none =>
    if key = "fields" then { q with fields := some (splitNames value) }
    else if key = "limit" then { q with limit := some value }
    else if key = "offset" then { q with offset := some value }
    else if key = "index_by" then { q with indexBy := some value }
    else if key = "count" then { q with count := some (affirmations.contains (Text.lower value)) }
    else q

/-- The pairs of a query string, in order. -/
def ofPairs (pairs : List (String × String)) : QueryString :=
  pairs.foldl (fun q p => q.addPair p.1 p.2) {}

/-- The value of a filter: the text if there is one, else the list of all. -/
def filterValue : List String → Value
  | [s] => .text s
  | ss => .list (ss.map .text)

def optionalEntry (name : String) (v : Option Value) : List (Value × Value) :=
  match v with
  | some v => [(.text name, v)]
  | none => []

/-- The mapping that describes the query. -/
def toValue (q : QueryString) : Value :=
  .mapping <|
    optionalEntry "fields" (q.fields.map fun names => .list (names.map .text)) ++
    optionalEntry "limit" (q.limit.map .text) ++
    optionalEntry "offset" (q.offset.map .text) ++
    optionalEntry "index_by" (q.indexBy.map .text) ++
    optionalEntry "count_available_rows" (q.count.map .boolean) ++
    [(.text "parameters", .mapping (q.filters.entries.map fun e => (.text e.1, filterValue e.2))),
     (.text "sort", .mapping (q.sort.entries.map fun e => (.text e.1, .text e.2))),
     (.text "relations", .mapping (q.joins.entries.map fun e =>
       (.text e.1, .mapping [(.text "join_type", .text e.2)])))]

end QueryString
end EntityQuery
