import EntityQuery.QueryString
import EntityQuery.Service.Resource
/-!
Routers: requests for published resources, and what they answer. A request that asks for something
impossible is told why; any other failure is not explained.
-/
namespace EntityQuery

/-- A request: its method, its path, and the pairs of its query string. -/
structure Request where
  method : String := "GET"
  path : String
  query : List (String × String) := []

/-- What a response carries: a value, or a plain text. -/
inductive Body where
  | value (v : Value)
  | text (s : String)

structure Response where
  status : Nat
  body : Body

namespace Response

/-- A status with a reason. -/
def refusal (status : Nat) (reason : String) : Response :=
  ⟨status, .value (.mapping [(.text "detail", .text reason)])⟩

def notFound : Response := refusal 404 "Not Found"

def wrongMethod : Response := refusal 405 "Method Not Allowed"

def internalError : Response := ⟨500, .text "Internal Server Error"⟩

def success (v : Value) : Response := ⟨200, .value v⟩

/-- A value that fits what the resource shows, or none. -/
def ofShown : Option Value → Response
  | some v => success v
  | none => internalError

end Response

/-- Whether the caller is to blame for an error. -/
def ErrorKind.isRefusal : ErrorKind → Bool
  | invalidArgument => true
  | unknownOperator => true
  | missingKey => true
  | missingAttribute => true
  | _ => false

/-- The response to a failed query. -/
def QueryError.response (e : QueryError) : Response :=
  if e.kind.isRefusal then .refusal 400 ("Invalid query: " ++ e.message) else .internalError

/-- The response to a query string that writes no descriptor: how many faults it has. -/
def faultsResponse (faults : List Fault) : Response :=
  .refusal 400 ("Invalid query: " ++ toString faults.length ++ " validation error" ++
    (if faults.length = 1 then "" else "s") ++ " for QueryInfo")

/-- The text of a key of an indexed answer. -/
def Value.keyText : Value → String
  | .null => "None"
  | .boolean b => if b then "true" else "false"
  | .moment t => t.isoText
  | v => v.plain

namespace Resource

variable (s : Schema) (db : Database)

/-- The descriptor of the pairs of a query string. -/
def descriptor (query : List (String × String)) : Except ReadError Descriptor :=
  Descriptor.ofValue (QueryString.ofPairs query).toValue

def records? (r : Resource) (items : List Item) : Option (List Value) :=
  items.mapM (r.record? s db)

/-- The items of a page, without the keys of an index. -/
def pageItems : Fetched → List Item
  | .single item => item.toList
  | .list items => items
  | .indexed es => es.map Prod.snd

def optionalInteger (n : Option Int) : Value := (n.map Value.integer).getD .null

/-- A page with its shown records. -/
def page? (r : Resource) (p : Page Fetched) : Option Value := do
  let items ← records? s db r (pageItems p.items)
  let pages ← p.pages.toOption
  some <| .mapping
    [(.text "items", .list items), (.text "total", .integer p.total),
     (.text "limit", optionalInteger p.limit), (.text "offset", optionalInteger p.offset),
     (.text "page", .integer p.number), (.text "pages", .integer pages),
     (.text "has_next", .boolean p.hasNext)]

/-- The shown form of an answer. -/
def answer? (r : Resource) : Answer → Option Value
  | .page p => page? s db r p
  | .plain (.single item) => (records? s db r item.toList).map .list
  | .plain (.list items) => (records? s db r items).map .list
  | .plain (.indexed es) => do
    let entries ← es.mapM fun e => (r.record? s db e.2).map fun v => (e.1.keyText, v)
    some (.mapping ((OrderedMap.ofList entries).entries.map fun e => (.text e.1, e.2)))

/-- Runs an operation on a repository for the entity, and answers with its result. -/
def perform {α : Type} (operators : OperatorTable Operator) (r : Resource)
    (action : Work α) (respond : α → Response) : Response :=
  match Builder.ofName s operators {} r.entity with
  | .error e => e.response
  | .ok b => match ((⟨b, none⟩ : Repository).run action).1 with
    | .error e => e.response
    | .ok a => respond a

/-- The response of an operation to a descriptor. -/
def respondTo (operators : OperatorTable Operator) (r : Resource) (op : Operation)
    (d : Descriptor) : Response :=
  match op with
  | .list => perform s operators r (Repository.fetchAll s db (.descriptor d)) fun a =>
    .ofShown (answer? s db r a)
  | .one => perform s operators r (Repository.fetchOne s db (.descriptor d)) fun item =>
    match item with
    | some i => .ofShown (r.record? s db i)
    | none => .refusal 404 ("No single " ++ r.title ++ " record matches")
  | .count => perform s operators r (Repository.count s db (.descriptor d)) fun n =>
    .success (.mapping [(.text "count", .integer n)])

/-- The response of an operation to the pairs of a query string. -/
def respond (operators : OperatorTable Operator) (r : Resource) (op : Operation)
    (query : List (String × String)) : Response :=
  match descriptor query with
  | .error (.faults fs) => faultsResponse fs
  | .error (.unusableKey _) => .internalError
  | .ok d => respondTo s db operators r op d

end Resource

/-- Resources that requests are led to; the first one with a path counts. -/
abbrev Router := List Resource

namespace Router

/-- The resource and the operation that stand under a path. -/
def at? (router : Router) (path : String) : Option (Resource × Operation) :=
  router.findSome? fun r =>
    (Operation.all.find? fun op => r.pathOf op == path).map fun op => (r, op)

/-- The path with the closing slash taken off, or with one put on. -/
def toggleSlash (path : String) : String :=
  let rev := path.toList.reverse
  if rev.head? = some '/' then String.ofList (rev.dropWhile (· == '/')).reverse else path ++ "/"

/-- As `at?`, where a closing slash makes no difference. -/
def find? (router : Router) (path : String) : Option (Resource × Operation) :=
  match router.at? path with
  | some found => some found
  | none => if path = "/" then none else router.at? (toggleSlash path)

/-- The response to a request. -/
def respond (s : Schema) (operators : OperatorTable Operator) (router : Router) (db : Database)
    (q : Request) : Response :=
  match router.find? q.path with
  | none => .notFound
  | some (r, op) =>
    if Text.upper q.method = "GET" then r.respond s db operators op q.query else .wrongMethod

end Router
end EntityQuery
