-- Why a tree fails its check: a name that is not in sight, a use that does not fit what
-- the name was declared as, or a node without the children that its rule reads.
import Mamuth.Position
import Mamuth.Ty

namespace Mamuth

/-- The rules that ask for a number of children. Trees of programs always have them. -/
inductive Shape where
  | assignment
  | comparison
  | invocation
  deriving DecidableEq, Repr

/-- What the rule asks for. -/
def Shape.inWords : Shape → String
  | assignment => "assignments always have a target and a value"
  | comparison => "comparisons always have two operands and a comparator"
  | invocation => "invocations always name a callee"

/-- What is wrong with a tree, with the place of the node that shows it. -/
inductive Fault where
  | undeclared (name : String) (position : Position)
  | notNumeric (operand : String) (found : Ty) (position : Position)
  | notCallable (name : String) (position : Position)
  | functionArgument (name : String) (position : Position)
  | incomparable (comparator : String) (left right : Ty) (position : Position)
  | malformed (shape : Shape)
  deriving DecidableEq, Repr

namespace Fault

/-- The class of the fault, as reports name it. -/
def heading : Fault → String
  | undeclared .. => "NameError"
  | malformed .. => "ShapeError"
  | _ => "TypeError"

/-- The fault in one line, with its place. -/
def message : Fault → String
  | undeclared name p => s!"Identifier '{name}' has not been declared ({p.inWords})"
  | notNumeric operand found p =>
    s!"'{operand}' is of type {found.name} and cannot be used in a math expression ({p.inWords})"
  | notCallable name p => s!"Variable '{name}' cannot be invoked as a function ({p.inWords})"
  | functionArgument name p =>
    s!"Function '{name}' cannot be passed as an argument ({p.inWords})"
  | incomparable comparator left right p =>
    s!"Comparison with '{comparator}' cannot be made between types {left.name} and " ++
      s!"{right.name} ({p.inWords})"
  | malformed shape => shape.inWords

end Fault

end Mamuth
