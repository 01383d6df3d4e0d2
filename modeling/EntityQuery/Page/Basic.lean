import EntityQuery.Number.Double
import EntityQuery.QueryError
/-!
Pages: a part of a result with the total number of matches. The count of pages goes through the
floating-point number nearest to the quotient of total and limit.
-/
namespace EntityQuery

/-- Items with the total they are a part of, and the bounds that cut them out. -/
structure Page (α : Type) where
  items : α
  total : Int
  limit : Option Int := none
  offset : Option Int := none
  deriving DecidableEq, Repr

namespace Page

variable {α : Type}

/-- The floating-point number nearest to a quotient; the divisor is not zero. -/
def nearestQuotient (a b : Int) : Except QueryError Double :=
  (Double.ofRatio? (decide (a < 0) != decide (b < 0)) a.natAbs b.natAbs).elim
    (.error .pageRange) .ok

/-- How many pages there are: one without a limit, none with a limit of zero. -/
def pages (p : Page α) : Except QueryError Int :=
  match p.limit with
  | none => .ok 1
  | some 0 => .ok 0
  | some limit => (nearestQuotient p.total limit).map fun x => max 1 x.ceil

def start (p : Page α) : Int := p.offset.getD 0

/-- The number of the page, counted from one. -/
def number (p : Page α) : Int :=
  match p.limit with
  | none => 1
  | some 0 => 1
  | some limit => p.start.fdiv limit + 1

/-- Whether there are matches behind this page. -/
def hasNext (p : Page α) : Bool :=
  match p.limit with
  | none => false
  | some limit => decide (p.start + limit < p.total)

end Page
end EntityQuery
