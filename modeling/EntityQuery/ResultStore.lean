import EntityQuery.Digest
import EntityQuery.Log
import EntityQuery.OrderedMap
import EntityQuery.Statement.Text
/-!
Stores of results under keys. A key is the name that the caller gave, or else a digest of all that
shapes the result.
-/
namespace EntityQuery

/-- Results of type `α` under their keys, each with the seconds it may be kept. -/
structure ResultStore (α : Type) where
  space : String := "lens"
  entries : OrderedMap (α × Option Nat) := .empty

namespace ResultStore

variable {α : Type}

/-- The key of a named result; the kind tells single results from lists. -/
def namedKey (space name kind : String) : String :=
  space ++ ":" ++ name ++ (if kind.isEmpty then "" else ":" ++ kind)

/-- All that shapes a computed result, as one literal. -/
def payload (t : StatementText) (kind : String) (extra : List Value) : String :=
  let sorted := t.parameters.mergeSort fun a b => Cell.compareText a.1 b.1 != .gt
  (Value.tuple
    [.text t.sql, .list (sorted.map fun p => .tuple [.text p.1, p.2]), .text kind,
     .tuple extra]).literal

/-- The key of a computed result. -/
def computedKey (space : String) (t : StatementText) (kind : String) (extra : List Value) :
    String :=
  space ++ ":" ++ Digest.ofText (payload t kind extra)

/-- Looks up a key, with the log line that tells whether it was there. -/
def get (r : ResultStore α) (key : String) : Option α × LogLine :=
  match r.entries.find? key with
  | some e => (some e.1, ⟨.debug, "cache hit " ++ Style.cache.mark key⟩)
  | none => (none, ⟨.debug, "cache miss " ++ Style.cache.mark key⟩)

/-- Stores a result; zero seconds mean no limit. -/
def set (r : ResultStore α) (key : String) (value : α) (ttl : Option Nat) : ResultStore α :=
  { r with entries := r.entries.insert key (value, ttl.filter (· != 0)) }

end ResultStore
end EntityQuery
