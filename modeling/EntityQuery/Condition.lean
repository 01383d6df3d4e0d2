/-!
Join conditions that are written against the names of a plan and become predicates when the plan is
built. A condition is a tree of comparisons; a comparison has a qualified field at its left and a
literal or another qualified field at its right.
-/
namespace EntityQuery

/-- The comparisons that a join condition can use. -/
inductive ConditionOperator where
  | equal | notEqual | less | greater | like
  deriving DecidableEq, Repr

/-- A join condition over literals of type `α`. -/
inductive Condition (α : Type) where
  | all (parts : List (Condition α))
  | any (parts : List (Condition α))
  | negation (part : Condition α)
  | compareValue (op : ConditionOperator) (field : String) (value : α)
  | compareField (op : ConditionOperator) (field other : String)


instance {α : Type} : Inhabited (Condition α) := ⟨.all []⟩

end EntityQuery
