import EntityQuery.Moment
import EntityQuery.Condition
import EntityQuery.Text.Quoted
/-!
The dynamic values of descriptors, parameters and results: scalars, sequences, mappings in order,
and two kinds of value that stand for join conditions.
-/
namespace EntityQuery

/-- A dynamic value. `condition` is a condition still to be built against a plan, `constant` the
constant predicate that is always or never true. -/
inductive Value where
  | null
  | boolean (b : Bool)
  | integer (n : Int)
  | float (x : Double)
  | text (s : String)
  | bytes (b : List UInt8)
  | moment (t : Moment)
  | list (items : List Value)
  | tuple (items : List Value)
  | set (items : List Value)
  | mapping (entries : List (Value × Value))
  | condition (c : Condition Value)
  | constant (b : Bool)

namespace Value

instance : Inhabited Value := ⟨null⟩

/-- The items of a list, tuple or set. -/
def items? : Value → Option (List Value)
  | list xs => some xs
  | tuple xs => some xs
  | set xs => some xs
  | _ => none

/-- Whether a value is a list, tuple or set; texts and bytes count as single values. -/
def isSequence (v : Value) : Bool := v.items?.isSome

/-- A sequence as its items, any other value as the one item. -/
def asItems (v : Value) : List Value := v.items?.getD [v]

mutual

/-- What stands in the way of a value as the key of a mapping: the kind of the first part of it that
cannot be a key. -/
def keyObstacle? : Value → Option String
  | list _ => some "list"
  | set _ => some "set"
  | mapping _ => some "dict"
  | tuple xs => keyObstacles? xs
  | _ => none

def keyObstacles? : List Value → Option String
  | [] => none
  | x :: xs => match keyObstacle? x with
    | some kind => some kind
    | none => keyObstacles? xs

end

/-- Truth values count as the numbers zero and one. -/
def integer? : Value → Option Int
  | boolean b => some (if b then 1 else 0)
  | integer n => some n
  | _ => none

mutual

/-- Equality of keys: numbers by value across their kinds, all else by kind and content. -/
def sameKey : Value → Value → Bool
  | null, null => true
  | text a, text b => a == b
  | bytes a, bytes b => a == b
  | moment a, moment b => decide (a = b)
  | tuple a, tuple b => sameKeys a b
  | float x, float y => x.compare? y == some .eq
  | float x, v => match v.integer? with
    | some n => x.compareInt? n == some .eq
    | none => false
  | v, float x => match v.integer? with
    | some n => x.compareInt? n == some .eq
    | none => false
  | constant a, constant b => a == b
  | v, w => match v.integer?, w.integer? with
    | some n, some m => n == m
    | _, _ => false

def sameKeys : List Value → List Value → Bool
  | [], [] => true
  | v :: vs, w :: ws => sameKey v w && sameKeys vs ws
  | _, _ => false

end

/-- Puts a value under a key: in the place of the equal key, which stays, or at the end. -/
def insertKeyed {α : Type} (key : Value) (value : α) : List (Value × α) → List (Value × α)
  | [] => [(key, value)]
  | (k, v) :: rest =>
      if sameKey k key then (k, value) :: rest else (k, v) :: insertKeyed key value rest

/-- The mapping of pairs given one after the other. -/
def keyedOfList {α : Type} (pairs : List (Value × α)) : List (Value × α) :=
  pairs.foldl (fun m p => insertKeyed p.1 p.2 m) []

/-- The value under a text key. -/
def lookupText (name : String) (entries : List (Value × Value)) : Option Value :=
  entries.findSome? fun e =>
    match e.1 with
    | text s => if s = name then some e.2 else none
    | _ => none

mutual

/-- The literal of a value. -/
def literal : Value → String
  | null => "None"
  | boolean b => if b then "True" else "False"
  | integer n => toString n
  | float x => Number.floatLiteral x
  | text s => Text.quoted s
  | bytes b => Text.quotedBytes b
  | moment t => t.literal
  | list xs => "[" ++ ", ".intercalate (literals xs) ++ "]"
  | tuple xs =>
    match xs with
    | [x] => "(" ++ literal x ++ ",)"
    | ys => "(" ++ ", ".intercalate (literals ys) ++ ")"
  | set xs => if xs.isEmpty then "set()" else "\x7b" ++ ", ".intercalate (literals xs) ++ "\x7d"
  | mapping es => "\x7b" ++ ", ".intercalate (entryLiterals es) ++ "\x7d"
  | condition _ => "<condition>"
  | constant b => if b then "true" else "false"

def literals : List Value → List String
  | [] => []
  | x :: xs => literal x :: literals xs

def entryLiterals : List (Value × Value) → List String
  | [] => []
  | (k, v) :: es => (literal k ++ ": " ++ literal v) :: entryLiterals es

end

/-- The plain text of a value: texts as they are, moments with a blank, all else as literals. -/
def plain : Value → String
  | text s => s
  | moment t => t.text " "
  | v => v.literal

end Value
end EntityQuery
