import EntityQuery.Text.Case
/-!
Names in the text of a statement: plain where they can be, else between double quotes.
-/
namespace EntityQuery

/-- Words that cannot stand as a plain name. -/
def reservedWords : List String :=
  ["all", "analyse", "analyze", "and", "any", "array", "as", "asc", "asymmetric", "authorization",
   "between", "binary", "both", "case", "cast", "check", "collate", "column", "constraint",
   "create", "cross", "current_date", "current_role", "current_time", "current_timestamp",
   "current_user", "default", "deferrable", "desc", "distinct", "do", "else", "end", "except",
   "false", "for", "foreign", "freeze", "from", "full", "grant", "group", "having", "ilike", "in",
   "initially", "inner", "intersect", "into", "is", "isnull", "join", "leading", "left", "like",
   "limit", "localtime", "localtimestamp", "natural", "new", "not", "notnull", "null", "off",
   "offset", "old", "on", "only", "or", "order", "outer", "overlaps", "placing", "primary",
   "references", "right", "select", "session_user", "set", "similar", "some", "symmetric", "table",
   "then", "to", "trailing", "true", "union", "unique", "user", "using", "verbose", "when",
   "where"]

/-- The characters of plain names: ASCII letters with the dotless and the long letter that fold
into them, digits, underscore and dollar. -/
def isNameChar (c : Char) : Bool :=
  c.isAlphanum || c == '_' || c == '$' || c == 'ı' || c == 'ſ' || c == 'İ' || c == 'K'

/-- Whether all characters are plain; one line feed at the end is let pass. -/
def hasPlainChars (cs : List Char) : Bool :=
  let body := if cs.getLast? == some '\n' then cs.dropLast else cs
  !body.isEmpty && body.all isNameChar

def needsQuotes (name : String) : Bool :=
  reservedWords.contains (Text.lower name) || !hasPlainChars name.toList ||
    (name.toList.head?.map fun c => c.isDigit || c == '$').getD true || Text.lower name != name

/-- A name as it stands in a statement. -/
def writtenName (name : String) : String :=
  if needsQuotes name then
    "\"" ++ String.ofList (name.toList.flatMap fun c => if c = '"' then ['"', '"'] else [c]) ++ "\""
  else name

end EntityQuery
