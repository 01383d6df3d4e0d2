import EntityQuery.Fault
import EntityQuery.Value
import EntityQuery.Number.IntegerText
/-!
Lenient readers of dynamic values: integers and truth values from texts and numbers, texts from
bytes, lists from any sequence, records from mappings with two spellings of each field name.
-/
namespace EntityQuery.Reader

/-- The text of bytes in UTF-8. -/
def decodeBytes? (bytes : List UInt8) : Option String :=
  String.fromUTF8? (ByteArray.mk bytes.toArray)

/-- The integers that a number without fraction may stand for: those of 64 bits, ends excluded. -/
def wordBound : Int := Nat.pow 2 63

def integerOfText (s : String) : Checked Int :=
  let cs := Text.trimBy Text.isBlank s.toList
  if Number.integerTextLimit < (String.ofList cs).utf8ByteSize then Checked.fail .integerTooLong
  else match Number.readInteger? cs with
    | some n => .ok n
    | none => Checked.fail .integerUnreadable

def integerOfFloat (x : Double) : Checked Int :=
  if !x.isFinite then Checked.fail .notFinite
  else match x.toInt? with
    | some n =>
      if -wordBound < n ∧ n < wordBound then .ok n else Checked.fail .integerTooLong
    | none => Checked.fail .fractional

def integer : Value → Checked Int
  | .integer n => .ok n
  | .boolean b => .ok (if b then 1 else 0)
  | .float x => integerOfFloat x
  | .text s => integerOfText s
  | .bytes b => match decodeBytes? b with
    | some s => integerOfText s
    | none => Checked.fail .integerUnreadable
  | _ => Checked.fail .notInteger

/-- An integer that is at least the given bound. -/
def integerFrom (bound : Int) (v : Value) : Checked Int :=
  (integer v).bind fun n => if n < bound then Checked.fail (.below bound) else .ok n

def natural (v : Value) : Checked Nat := (integerFrom 0 v).map Int.toNat

def trueTexts : List String := ["1", "t", "y", "yes", "true", "on"]

def falseTexts : List String := ["0", "f", "n", "no", "false", "off"]

def booleanOfText (s : String) : Checked Bool :=
  let t := String.ofList (s.toList.map Char.toLower)
  if trueTexts.contains t then .ok true
  else if falseTexts.contains t then .ok false
  else Checked.fail .booleanUnreadable

def booleanOfInteger (n : Int) : Checked Bool :=
  if n = 0 then .ok false else if n = 1 then .ok true else Checked.fail .booleanUnreadable

def boolean : Value → Checked Bool
  | .boolean b => .ok b
  | .text s => booleanOfText s
  | .bytes b => match decodeBytes? b with
    | some s => booleanOfText s
    | none => Checked.fail .booleanUnreadable
  | .integer n =>
    if -wordBound ≤ n ∧ n < wordBound then booleanOfInteger n else Checked.fail .notBoolean
  | .float x => match integerOfFloat x with
    | .ok n => booleanOfInteger n
    | .error _ => Checked.fail .notBoolean
  | _ => Checked.fail .notBoolean

def text : Value → Checked String
  | .text s => .ok s
  | .bytes b => match decodeBytes? b with
    | some s => .ok s
    | none => Checked.fail .textUnreadable
  | _ => Checked.fail .notText

/-- An absent value as none. -/
def optional {α : Type} (read : Value → Checked α) : Value → Checked (Option α)
  | .null => .ok none
  | v => (read v).map some

/-- The items of a sequence from a position on. -/
def itemsFrom {α : Type} (read : Value → Checked α) : Nat → List Value → Checked (List α)
  | _, [] => .ok []
  | i, v :: vs =>
    (Checked.both ((read v).under (.index i)) (itemsFrom read (i + 1) vs)).map fun p => p.1 :: p.2

def list {α : Type} (read : Value → Checked α) (v : Value) : Checked (List α) :=
  match v.items? with
  | some xs => itemsFrom read 0 xs
  | none => Checked.fail .notList

/-- One of a few choices, by its text. -/
def choice {α : Type} (all : List α) (name : α → String) : Value → Checked α
  | .text s => match all.find? (fun a => name a == s) with
    | some a => .ok a
    | none => Checked.fail (.notChoice (all.map name))
  | _ => Checked.fail (.notChoice (all.map name))

/-- The step to a value under a key: texts as names, integers as numbers, all else by its text. -/
def keyPart : Value → PathPart
  | .text s => .name s
  | .integer n => .index n
  | v => .name v.plain

/-- A mapping from texts, entry by entry; a key that is no text is a fault of its own. -/
def entries {α : Type} (read : Value → Checked α) :
    List (Value × Value) → Checked (List (String × α))
  | [] => .ok []
  | (k, v) :: rest =>
    let key := ((text k).under (.name "[key]")).under (keyPart k)
    let value := (read v).under (keyPart k)
    (Checked.both (Checked.both key value) (entries read rest)).map fun p => p.1 :: p.2

/-- The two spellings of a field. -/
structure FieldName where
  snake : String
  camel : String
  deriving DecidableEq, Repr

/-- The spelling under which a field is given, and its value; the camel case one counts first. -/
def FieldName.find? (f : FieldName) (record : List (Value × Value)) : Option (String × Value) :=
  match Value.lookupText f.camel record with
  | some v => some (f.camel, v)
  | none => (Value.lookupText f.snake record).map fun v => (f.snake, v)

/-- A field of a record, or its default when it is not given. -/
def field {α : Type} (record : List (Value × Value)) (f : FieldName) (default : Checked α)
    (read : Value → Checked α) : Checked α :=
  match f.find? record with
  | some (spelling, v) => (read v).under (.name spelling)
  | none => default

/-- The spellings that the fields of a record take up. -/
def usedSpellings (names : List FieldName) (record : List (Value × Value)) : List String :=
  names.filterMap fun f => (f.find? record).map Prod.fst

/-- Faults of the entries that belong to no field, in order. -/
def extras (names : List FieldName) (record : List (Value × Value)) : Checked Unit :=
  let used := usedSpellings names record
  let faults := record.filterMap fun (k, _) =>
    match k with
    | .text s => if used.contains s then none else some ⟨.unexpected, [.name s]⟩
    | k => some ⟨.badKey, [keyPart k]⟩
  if faults.isEmpty then .ok () else .error faults

end EntityQuery.Reader
