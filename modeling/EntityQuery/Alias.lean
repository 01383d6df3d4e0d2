import EntityQuery.Schema
import EntityQuery.Text.Case
/-!
The alias that stands for the root entity of a query: the name inside its namespace, or else the
part after the last dot, in lower case.
-/
namespace EntityQuery

/-- Alias of a root entity by its full name and its namespace. -/
def rootAlias (fullName space : String) : String :=
  let short :=
    if space.isEmpty then Text.afterLastDot fullName
    else (Text.dropPrefix? (space ++ ".") fullName).getD (Text.afterLastDot fullName)
  Text.lower short

/-- The alias under which an entity is the root of a query. -/
def Entity.aliasName (e : Entity) : String := rootAlias e.rootName e.scope

end EntityQuery
