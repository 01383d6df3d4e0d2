import EntityQuery.Config.Connection
import EntityQuery.OrderedMap
import EntityQuery.ResultStore
import EntityQuery.Text.Case
/-!
Settings read from named texts, whose names all start alike: the connection, the store of results,
and the level of the log.
-/
namespace EntityQuery

/-- Settings of a program. -/
structure Settings where
  databaseUrl : String := "sqlite://"
  echo : Bool := false
  storeUrl : Option String := none
  storeSpace : String := "lens"
  logLevel : String := "WARNING"
  deriving DecidableEq, Repr

/-- Why there is no store of results at an address. -/
inductive StoreUrlError where
  | unknownScheme
  | unreadablePort (text : String)
  | portRange
  deriving DecidableEq, Repr

def StoreUrlError.message : StoreUrlError → String
  | unknownScheme =>
    "Redis URL must specify one of the following schemes (redis://, rediss://, unix://)"
  | unreadablePort text => "Port could not be cast to integer value as " ++ Text.quoted text
  | portRange => "Port out of range 0-65535"

namespace Settings

open Reader

/-- How the names of settings start, in lower case. -/
def opening : String := "lens_"

/-- The settings among named texts, without the start that they have in common. -/
def relevant (env : List (String × String)) : List (Value × Value) :=
  env.filterMap fun e =>
    (Text.dropPrefix? opening (Text.lower e.1)).map fun name => (.text name, .text e.2)

/-- The settings in an environment; names are read without regard to case. -/
def ofEnvironment (env : List (String × String)) : Checked Settings :=
  let record := Value.keyedOfList (relevant env)
  let d : Settings := {}
  let url := field record (Pool.single "database_url") (.ok d.databaseUrl) text
  let echo := field record (Pool.single "echo") (.ok d.echo) boolean
  let store := field record (Pool.single "redis_uri") (.ok d.storeUrl) (optional text)
  let space := field record (Pool.single "cache_prefix") (.ok d.storeSpace) text
  let level := field record (Pool.single "log_level") (.ok d.logLevel) text
  (Checked.both url <| Checked.both echo <| Checked.both store <| Checked.both space level).map
    fun (u, e, st, sp, l) => ⟨u, e, st, sp, l⟩

def connection (c : Settings) : Connection := { url := c.databaseUrl, echo := c.echo }

/-- The level that the log is set to. -/
def level (c : Settings) : Except LevelError LogLevel :=
  LogLevel.ofValue (.text (Text.upper c.logLevel))

/-- The schemes of addresses where a store can stand. -/
def storeSchemes : List String := ["redis://", "rediss://", "unix://"]

/-- The port in the part of an address behind its scheme, where it has to be a number. -/
def checkPort (place : List Char) : Except StoreUrlError Unit :=
  let authority := place.takeWhile fun c => !(c == '/' || c == '?' || c == '#')
  let server := (authority.reverse.takeWhile (· != '@')).reverse
  let port := (server.dropWhile (· != ':')).drop 1
  if port.isEmpty then .ok ()
  else if port.all Char.isDigit then
    if Number.digitsValue port ≤ 65535 then .ok () else .error .portRange
  else .error (.unreadablePort (String.ofList port))

/-- Whether a store can stand at an address. -/
def checkStoreUrl (url : String) : Except StoreUrlError Unit :=
  let found := storeSchemes.findSome? fun scheme =>
    (Text.dropPrefix? scheme url).map fun rest => (scheme, rest)
  match found with
  | none => .error .unknownScheme
  | some ("unix://", _) => .ok ()
  | some (_, rest) => checkPort rest.toList

/-- The store of results; none without an address. -/
def store? (α : Type) (c : Settings) : Except StoreUrlError (Option (ResultStore α)) :=
  match c.storeUrl.filter fun url => !url.isEmpty with
  | none => .ok none
  | some url => (checkStoreUrl url).map fun _ => some { space := c.storeSpace }

end Settings
end EntityQuery
