-- The grammar as readers, one for each production. One look at the next token decides
-- between alternatives: some of these looks are at its text, the others at its kind.
import Mamuth.Program
import Mamuth.Reader

namespace Mamuth.Grammar

open Reader

/-- A token of a kind, with its text. -/
def leaf (kind : Token.Kind) : Reader Leaf := do
  let token ← take (.kind kind)
  return ⟨token.lexeme, token.position⟩

/-! ## Values and expressions -/

def value : Reader Value := do
  if ← sees (.kind .identifier) then return .identifier (← leaf .identifier)
  else if ← sees (.kind .integer) then return .literal .integer (← leaf .integer)
  else if ← sees (.kind .float) then return .literal .float (← leaf .float)
  else if ← sees (.kind .boolean) then return .literal .boolean (← leaf .boolean)
  else if ← sees (.kind .text) then return .literal .text (← leaf .text)
  else stuck (.construct .value)

/-- Whether a value is next. -/
def seesValue : Reader Bool := do
  return (← sees (.kind .identifier)) || (← sees (.kind .integer)) || (← sees (.kind .float)) ||
    (← sees (.kind .boolean)) || (← sees (.kind .text))

def math : Reader Math := do
  let position ← word "#"
  let first ← value
  let rest ← many (sees (.kind .operator)) do return (← leaf .operator, ← value)
  let _ ← word "#"
  return { position, first, rest }

/-- One item or more, with commas between them. -/
def commaSeparated (item : Reader α) : Reader (List α) := do
  let first ← item
  let rest ← many (sees (.word ",")) do
    let _ ← word ","
    item
  return first :: rest

/-- The items before a closing bracket, if there are any. At the end of the input it is the
bracket that is missing. -/
def itemsBeforeBracket (item : Reader α) : Reader (List α) := do
  if (← left) = 0 then return []
  else if ← sees (.word ")") then return []
  else commaSeparated item

/-- A list in round brackets, which may be empty. -/
def bracketed (item : Reader α) : Reader (List α) := do
  let _ ← word "("
  let items ← itemsBeforeBracket item
  let _ ← word ")"
  return items

def invocation : Reader Invocation := do
  let position ← word "jutsu"
  let callee ← leaf .identifier
  let arguments ← bracketed value
  return { position, callee, arguments }

/-- An expression, if the next token can start one. -/
def expression? : Reader (Option Expression) := do
  if ← sees (.word "#") then return some (.math (← math))
  else if ← sees (.kind .invocation) then return some (.invocation (← invocation))
  else if ← seesValue then return some (.value (← value))
  else return none

def assignment : Reader Assignment := do
  let target ← leaf .identifier
  let _ ← word "anotado"
  let some value ← expression? | stuck (.construct .expression)
  let _ ← word "."
  return { target, value }

/-! ## Conditions -/

def comparison : Reader Comparison := do
  let left ← value
  let comparator ← leaf .comparator
  let right ← value
  return { left, comparator, right }

def condition : Reader Condition := do
  let first ← comparison
  if ← sees (.kind .logicalOperator) then
    let operator ← leaf .logicalOperator
    return { first, second := some (operator, ← comparison) }
  else return { first, second := none }

/-! ## Instructions and blocks -/

/-- A block after the mark that opens it, with the mark that closes it. -/
def enclosed (block : Reader Block) : Reader Block := do
  let _ ← word "xD"
  let body ← block
  let _ ← word "v:"
  return body

def loop (block : Reader Block) : Reader Instruction := do
  let position ← word "whenCuando"
  let _ ← word "xD"
  let body ← block
  let _ ← word "but"
  let _ ← word "("
  let condition ← condition
  let _ ← word ")"
  let _ ← word "v:"
  return .loop position body condition

def conditional (block : Reader Block) : Reader Instruction := do
  let position ← word "siuuu"
  let _ ← word "("
  let condition ← condition
  let _ ← word ")"
  let body ← enclosed block
  if ← sees (.word "nimodo") then
    let otherPosition ← word "nimodo"
    return .branches position condition body otherPosition (← enclosed block)
  else return .branch position condition body

def giveBack : Reader Instruction := do
  let position ← word "messirve"
  let value ← expression?
  let _ ← word "."
  return .return position value

/-- An instruction whose inner blocks are read by `block`. -/
def instruction (block : Reader Block) : Reader Instruction := do
  if ← sees (.kind .identifier) then return .assignment (← assignment)
  else if ← sees (.word "whenCuando") then loop block
  else if ← sees (.word "siuuu") then conditional block
  else if ← sees (.word "messirve") then giveBack
  else stuck (.construct .instruction)

/-- Whether an instruction is next. -/
def seesInstruction : Reader Bool := do
  return (← sees (.kind .identifier)) || (← sees (.word "whenCuando")) ||
    (← sees (.word "siuuu")) || (← sees (.word "messirve"))

/-- A block of at most `n` instructions, those of its inner blocks counted. -/
def blockWithin : (n : Nat) → Reader Block
  | 0 => stuck (.construct .instruction)
  | n + 1 => do
    let first ← instruction (blockWithin n)
    if ← seesInstruction then return .more first (← blockWithin n) else return .last first

/-- A block. Each instruction takes a token, so the tokens left bound their number. -/
def block : Reader Block := do blockWithin (← left)

/-! ## Programs -/

def function : Reader Function := do
  let position ← word "POV"
  let name ← leaf .identifier
  let parameters ← bracketed (leaf .identifier)
  let body ← enclosed block
  return { position, name, parameters, body }

def entryPoint : Reader EntryPoint := do
  let position ← word "maracuya"
  let _ ← word "("
  let _ ← word ")"
  let body ← enclosed block
  return { position, body }

def program : Reader Program := do
  let assignments ← many (sees (.kind .identifier)) assignment
  let functions ← many (sees (.word "POV")) function
  let main ← entryPoint
  return { assignments, functions, main }

end Mamuth.Grammar
