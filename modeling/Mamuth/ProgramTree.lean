-- The tree of a program: a node for each production that was used, with the parts of the
-- production below it in their order. Fixed words leave no node, and neither does an
-- optional part that is absent.
import Mamuth.Program
import Mamuth.Tree

namespace Mamuth

namespace Tree

/-- An inner node that has not been numbered yet. -/
def inner (kind : Node.Kind) (position : Position) (children : List Tree) : Tree :=
  node ⟨0, kind, none, position, none⟩ children

/-- An inner node with a name. -/
def named (kind : Node.Kind) (name : Leaf) (position : Position) (children : List Tree) : Tree :=
  node ⟨0, kind, some name.text, position, none⟩ children

/-- A group of parts, at the place of the first; an empty group leaves no node. -/
def group (kind : Node.Kind) : List Tree → List Tree
  | [] => []
  | t :: ts => [inner kind t.root.position (t :: ts)]

end Tree

def Leaf.tree (kind : Node.Kind) (leaf : Leaf) : Tree :=
  .node ⟨0, kind, some leaf.text, leaf.position, none⟩ []

def Literal.kind : Literal → Node.Kind
  | text => .text
  | integer => .integer
  | float => .float
  | boolean => .boolean

def Value.tree : Value → Tree
  | identifier leaf => leaf.tree .identifier
  | literal form leaf => leaf.tree form.kind

def Math.tree (m : Math) : Tree :=
  .inner .mathExpression m.position <|
    m.first.tree :: m.rest.flatMap fun (operator, value) => [operator.tree .operator, value.tree]

def Invocation.tree (i : Invocation) : Tree :=
  .named .invocation i.callee i.position <|
    i.callee.tree .identifier :: Tree.group .invocationArguments (i.arguments.map Value.tree)

def Expression.tree : Expression → Tree
  | math m => m.tree
  | invocation i => i.tree
  | value v => v.tree

def Assignment.tree (a : Assignment) : Tree :=
  .inner .assignment a.target.position [a.target.tree .identifier, a.value.tree]

def Comparison.tree (c : Comparison) : Tree :=
  .inner .comparison c.position [c.left.tree, c.comparator.tree .comparator, c.right.tree]

def Condition.tree (c : Condition) : Tree :=
  .inner .conditionalExpression c.position <|
    c.first.tree :: match c.second with
      | some (operator, comparison) => [operator.tree .logicalOperator, comparison.tree]
      | none => []

mutual

/-- The tree of what an instruction consists of. -/
def Instruction.content : Instruction → Tree
  | .assignment a => a.tree
  | .loop position body condition =>
    .inner .loop position [.inner .instructionBlock body.position body.trees, condition.tree]
  | .branch position condition body =>
    .inner .conditional position [.inner .ifBranch position
      [condition.tree, .inner .instructionBlock body.position body.trees]]
  | .branches position condition body otherPosition otherBody =>
    .inner .conditional position
      [.inner .ifBranch position
        [condition.tree, .inner .instructionBlock body.position body.trees],
       .inner .elseBranch otherPosition
        [.inner .instructionBlock otherBody.position otherBody.trees]]
  | .return position value => .inner .return position (value.map Expression.tree).toList

/-- The trees of the instructions of a block. -/
def Block.trees : Block → List Tree
  | .last i => [.inner .instruction i.position [i.content]]
  | .more i rest => .inner .instruction i.position [i.content] :: rest.trees

end

def Instruction.tree (i : Instruction) : Tree := .inner .instruction i.position [i.content]

def Block.tree (b : Block) : Tree := .inner .instructionBlock b.position b.trees

def Function.tree (f : Function) : Tree :=
  .named .function f.name f.position <|
    f.name.tree .identifier ::
      Tree.group .functionParameters (f.parameters.map (·.tree .identifier)) ++ [f.body.tree]

def EntryPoint.tree (e : EntryPoint) : Tree := .inner .main e.position [e.body.tree]

/-- The tree of a whole program, numbered from zero. -/
def Program.tree (p : Program) : Tree :=
  (Tree.inner .program p.position <|
    p.assignments.map Assignment.tree ++ p.functions.map Function.tree ++ [p.main.tree]).numbered

end Mamuth
