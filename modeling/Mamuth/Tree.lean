-- Trees of nodes: the common form of all constructs, which checking fills with types.
-- A tree may have any shape here; programs give the well-shaped ones. Every node has a
-- number, by which a declaration is found again.
import Mamuth.Position
import Mamuth.Ty

namespace Mamuth

namespace Node

/-- The constructs and the sorts of leaves that a node can stand for. -/
inductive Kind where
  | program
  | assignment
  | function
  | main
  | invocation
  | functionParameters
  | invocationArguments
  | instruction
  | instructionBlock
  | loop
  | conditional
  | ifBranch
  | elseBranch
  | conditionalExpression
  | comparison
  | return
  | text
  | integer
  | float
  | boolean
  | mathExpression
  | operator
  | logicalOperator
  | comparator
  | identifier
  deriving DecidableEq, Repr, Inhabited

namespace Kind

def name : Kind → String
  | program => "Program"
  | assignment => "Assignment"
  | function => "Function"
  | main => "Main"
  | invocation => "Invocation"
  | functionParameters => "FunctionParameters"
  | invocationArguments => "InvocationArguments"
  | instruction => "Instruction"
  | instructionBlock => "InstructionBlock"
  | loop => "Loop"
  | conditional => "Conditional"
  | ifBranch => "IfBranch"
  | elseBranch => "ElseBranch"
  | conditionalExpression => "ConditionalExpression"
  | comparison => "Comparison"
  | .return => "Return"
  | text => "Text"
  | integer => "Integer"
  | float => "Float"
  | boolean => "Boolean"
  | mathExpression => "MathExpression"
  | operator => "Operator"
  | logicalOperator => "LogicalOperator"
  | comparator => "Comparator"
  | identifier => "Identifier"

def all : List Kind :=
  [program, assignment, function, main, invocation, functionParameters, invocationArguments,
    instruction, instructionBlock, loop, conditional, ifBranch, elseBranch, conditionalExpression,
    comparison, .return, text, integer, float, boolean, mathExpression, operator, logicalOperator,
    comparator, identifier]

end Kind

end Node

/-- What is known of one construct or leaf. -/
structure Node where
  id : Nat
  kind : Node.Kind
  /-- The text of a leaf, or the name of a function or of what is invoked. -/
  content : Option String
  position : Position
  /-- Given by checking. -/
  type : Option Ty
  deriving DecidableEq, Repr, Inhabited

/-- The name that a node stands for; a node without content stands for the empty one. -/
def Node.name (n : Node) : String := n.content.getD ""

/-- A node with the trees of its parts. -/
inductive Tree where
  | node (root : Node) (children : List Tree)
  deriving Repr, Inhabited

namespace Tree

def root : Tree → Node
  | node root _ => root

def children : Tree → List Tree
  | node _ children => children

/-- The type at the root; an unchecked tree gives no value. -/
def type (t : Tree) : Ty := t.root.type.getD .none

/-- The tree with a type at its root. -/
def typed (t : Tree) (type : Ty) : Tree := node { t.root with type := some type } t.children

mutual

/-- The tree and all trees in it, each before those inside it and from left to right. -/
def subtrees : Tree → List Tree
  | node root children => node root children :: subtreesAll children

def subtreesAll : List Tree → List Tree
  | [] => []
  | t :: ts => subtrees t ++ subtreesAll ts

end

/-- The nodes, each before those below it. -/
def nodes (t : Tree) : List Node := t.subtrees.map root

/-- The kinds of the nodes in the same order. -/
def kinds (t : Tree) : List Node.Kind := t.nodes.map (·.kind)

/-- The first tree in it, itself included, whose root passes the test. -/
def find? (test : Node → Bool) (t : Tree) : Option Tree := t.subtrees.find? (test ·.root)

/-! ## Numbering -/

mutual

/-- The tree with its nodes numbered from `n` on, those below a node before it and from left
to right, and the number after the last. -/
def numberFrom (n : Nat) : Tree → Tree × Nat
  | node root children =>
    let (children, next) := numberAllFrom n children
    (node { root with id := next } children, next + 1)

def numberAllFrom (n : Nat) : List Tree → List Tree × Nat
  | [] => ([], n)
  | t :: ts =>
    let (t, next) := numberFrom n t
    let (ts, next) := numberAllFrom next ts
    (t :: ts, next)

end

mutual

/-- As many numbers are used as there are nodes. -/
theorem numberFrom_snd (n : Nat) (t : Tree) : (t.numberFrom n).2 = n + t.subtrees.length := by
  cases t with
  | node root children =>
    simp [numberFrom, subtrees, numberAllFrom_snd n children]; omega

theorem numberAllFrom_snd (n : Nat) (ts : List Tree) :
    (numberAllFrom n ts).2 = n + (subtreesAll ts).length := by
  cases ts with
  | nil => rfl
  | cons t ts =>
    simp [numberAllFrom, subtreesAll, numberFrom_snd n t, numberAllFrom_snd _ ts]; omega

end

/-- The tree with its nodes numbered from zero. -/
def numbered (t : Tree) : Tree := (t.numberFrom 0).1

end Tree

end Mamuth
