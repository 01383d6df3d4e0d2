import EntityQuery.Config.Pool
import EntityQuery.Logger
import EntityQuery.Schema
/-!
How the database is reached: its address, whether statements are echoed, and the pool, which an
embedded database does without.
-/
namespace EntityQuery

/-- The connection to a database. -/
structure Connection where
  url : String := "sqlite://"
  echo : Bool := false
  pool : Pool := {}
  deriving DecidableEq, Repr

namespace Connection

open Reader

def poolName : FieldName := Pool.single "pool_config"

/-- The connection that a record writes; other names in it mean nothing. -/
def ofRecord (record : List (Value × Value)) : Checked Connection :=
  let url := field record (Pool.single "url") (.ok "sqlite://") text
  let echo := field record (Pool.single "echo") (.ok false) boolean
  let pool := field record poolName (.ok {}) Pool.ofValue
  (Checked.both url (Checked.both echo pool)).map fun (u, e, p) => ⟨u, e, p⟩

/-- The connection that a value writes. -/
def ofValue : Value → Checked Connection
  | .mapping record => ofRecord record
  | _ => Checked.fail (.notRecord "DbConfig")

def isEmbedded (c : Connection) : Bool := "sqlite".toList.isPrefixOf c.url.toList

/-- Whether the database lives in memory alone, so that all have to share one connection. -/
def isShared (c : Connection) : Bool := c.url == "sqlite://" || c.url == "sqlite:///:memory:"

/-- The host in the address: behind the scheme and the user, before the port and the path; the local
one if there is none. -/
def host (c : Connection) : String :=
  let place := match Text.splitFirst? "://".toList c.url.toList with
    | some (_, rest) => rest
    | none => c.url.toList
  let authority := place.takeWhile (· != '/')
  let server := (authority.reverse.takeWhile (· != '@')).reverse
  let name := String.ofList (server.takeWhile (· != ':'))
  if name.isEmpty then "localhost" else name

/-- What the database is opened with, under its names. -/
def options (c : Connection) : List (Value × Value) :=
  (.text "echo", .boolean c.echo) :: (if c.isEmbedded then [] else c.pool.toEntries)

/-- The kind of database: the scheme of the address without the name of its driver. -/
def dialect (c : Connection) : String :=
  let scheme := ((Text.splitFirst? "://".toList c.url.toList).map Prod.fst).getD []
  String.ofList (scheme.takeWhile (· != '+'))

/-- The lines that tell that the database was reached. -/
def announce (c : Connection) (l : Logger) : List LogLine :=
  l.success ("Connected to " ++ Style.entity.mark c.dialect ++ " at " ++ c.host)

end Connection
end EntityQuery
