-- Programs as their grammar builds them. One type for each production, so that only
-- what the grammar allows can be written down. A leaf keeps the text and the place of
-- its token; a construct that opens with a fixed word keeps the place of that word.
import Mamuth.Position

namespace Mamuth

/-- A token whose text the grammar leaves open. -/
structure Leaf where
  text : String
  position : Position
  deriving DecidableEq, Repr

/-- The sorts of literals. -/
inductive Literal where
  | text
  | integer
  | float
  | boolean
  deriving DecidableEq, Repr

/-- `Value ::= Identifier | Text | Integer | Float | Boolean` -/
inductive Value where
  | identifier (leaf : Leaf)
  | literal (form : Literal) (leaf : Leaf)
  deriving DecidableEq, Repr

def Value.leaf : Value → Leaf
  | identifier leaf | literal _ leaf => leaf

/-- `Math ::= '#' Value (Operator Value)* '#'`, at the place of the first `#`. -/
structure Math where
  position : Position
  first : Value
  rest : List (Leaf × Value)
  deriving DecidableEq, Repr

/-- `Invocation ::= 'jutsu' Identifier '(' (Value (',' Value)*)? ')'` -/
structure Invocation where
  position : Position
  callee : Leaf
  arguments : List Value
  deriving DecidableEq, Repr

/-- `Expression ::= Math | Invocation | Value` -/
inductive Expression where
  | math (math : Math)
  | invocation (invocation : Invocation)
  | value (value : Value)
  deriving DecidableEq, Repr

/-- `Assignment ::= Identifier 'anotado' Expression '.'` -/
structure Assignment where
  target : Leaf
  value : Expression
  deriving DecidableEq, Repr

/-- `Comparison ::= Value Comparator Value` -/
structure Comparison where
  left : Value
  comparator : Leaf
  right : Value
  deriving DecidableEq, Repr

/-- `Condition ::= Comparison (LogicalOperator Comparison)?` -/
structure Condition where
  first : Comparison
  second : Option (Leaf × Comparison)
  deriving DecidableEq, Repr

mutual

/-- `Instruction ::= Assignment | Loop | If | If Else | Return`, where
`Loop ::= 'whenCuando' 'xD' Block 'but' '(' Condition ')' 'v:'`,
`If ::= 'siuuu' '(' Condition ')' 'xD' Block 'v:'`,
`Else ::= 'nimodo' 'xD' Block 'v:'` and
`Return ::= 'messirve' Expression? '.'` -/
inductive Instruction where
  | assignment (assignment : Assignment)
  | loop (position : Position) (body : Block) (condition : Condition)
  | branch (position : Position) (condition : Condition) (body : Block)
  | branches (position : Position) (condition : Condition) (body : Block)
      (otherPosition : Position) (otherBody : Block)
  | return (position : Position) (value : Option Expression)
  deriving DecidableEq, Repr

/-- `Block ::= Instruction+` -/
inductive Block where
  | last (instruction : Instruction)
  | more (instruction : Instruction) (rest : Block)
  deriving DecidableEq, Repr

end

/-- `Function ::= 'POV' Identifier '(' (Identifier (',' Identifier)*)? ')' 'xD' Block 'v:'` -/
structure Function where
  position : Position
  name : Leaf
  parameters : List Leaf
  body : Block
  deriving DecidableEq, Repr

/-- `EntryPoint ::= 'maracuya' '(' ')' 'xD' Block 'v:'` -/
structure EntryPoint where
  position : Position
  body : Block
  deriving DecidableEq, Repr

/-- `Program ::= Assignment* Function* EntryPoint` -/
structure Program where
  assignments : List Assignment
  functions : List Function
  main : EntryPoint
  deriving DecidableEq, Repr

/-! ## Where the constructs start -/

namespace Expression

def position : Expression → Position
  | math m => m.position
  | invocation i => i.position
  | value v => v.leaf.position

end Expression

def Comparison.position (c : Comparison) : Position := c.left.leaf.position

def Condition.position (c : Condition) : Position := c.first.position

def Instruction.position : Instruction → Position
  | .assignment a => a.target.position
  | .loop p _ _ | .branch p _ _ | .branches p _ _ _ _ | .return p _ => p

def Block.first : Block → Instruction
  | .last i | .more i _ => i

def Block.position (b : Block) : Position := b.first.position

/-- The instructions of a block in their order. -/
def Block.toList : Block → List Instruction
  | .last i => [i]
  | .more i rest => i :: rest.toList

/-- A program starts where its first construct does. -/
def Program.position (p : Program) : Position :=
  (p.assignments.map (·.target.position) ++ p.functions.map (·.position)).headD p.main.position

/-- The number of constructs at the top of a program. -/
def Program.size (p : Program) : Nat := p.assignments.length + p.functions.length + 1

end Mamuth
