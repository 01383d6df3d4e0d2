import EntityQuery.Number.Decimal
/-!
The values that table cells hold, and their total order: null, then numbers by value, then texts
by code point, then byte strings.
-/
namespace EntityQuery

/-- A stored value. -/
inductive Cell where
  | null
  | integer (n : Int)
  | real (x : Double)
  | text (s : String)
  | blob (b : List UInt8)
  deriving DecidableEq, Repr

namespace Cell

instance : Inhabited Cell := ⟨null⟩

def isNull (c : Cell) : Bool := decide (c = null)

/-- The place of a cell among nulls, numbers, texts and byte strings. -/
def classRank : Cell → Nat
  | null => 0
  | integer _ => 1
  | real _ => 1
  | text _ => 2
  | blob _ => 3

/-- Order of lists by the first place where they differ. -/
def compareLists (xs ys : List Nat) : Ordering :=
  match xs, ys with
  | [], [] => .eq
  | [], _ :: _ => .lt
  | _ :: _, [] => .gt
  | x :: xs, y :: ys => (compare x y).then (compareLists xs ys)

def compareText (s t : String) : Ordering :=
  compareLists (s.toList.map Char.toNat) (t.toList.map Char.toNat)

/-- Order of two cells of any kinds. -/
def order : Cell → Cell → Ordering
  | integer n, integer m => compare n m
  | integer n, real x => ((x.compareInt? n).getD .eq).swap
  | real x, integer n => (x.compareInt? n).getD .eq
  | real x, real y => (x.compare? y).getD .eq
  | text s, text t => compareText s t
  | blob a, blob b => compareLists (a.map UInt8.toNat) (b.map UInt8.toNat)
  | c, d => compare c.classRank d.classRank

end Cell
end EntityQuery
