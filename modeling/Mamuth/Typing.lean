-- The check of a tree. A walk from left to right declares the names that it meets, looks
-- up the names that are used, and gives every node its type. The type of a declaration
-- is found through the number of the node that declares it, so it is unknown until that
-- node has its type. A check that fails keeps the types that it has given so far.
import Mamuth.Fault
import Mamuth.Symbol
import Std.Data.TreeMap

namespace Mamuth.Typing

/-! ## State -/

/-- What a walk has done. -/
inductive Event where
  /-- A block was opened for a node, at the depth that it has inside. -/
  | opened (depth : Nat) (kind : Node.Kind)
  /-- A block was closed, and this is the depth outside. -/
  | closed (depth : Nat)
  /-- A use of a name was looked up. -/
  | lookedUp (use : Node) (found : Option Symbol)
  deriving DecidableEq, Repr

/-- What a walk knows. -/
structure State where
  table : SymbolTable
  /-- The types given so far, by the numbers of the nodes. -/
  types : Std.TreeMap Nat Ty
  /-- What was done so far, the latest first. -/
  history : List Event

namespace State

/-- Only the standard functions are declared. -/
def start : State := ⟨SymbolTable.empty.withStandard, ∅, []⟩

/-- The type of a declaration, if it is known. -/
def typeOf? (s : State) (symbol : Symbol) : Option Ty :=
  match symbol.declaration with
  | .builtin t => some t
  | .node id => s.types[id]?

/-- What a name stands for. A variable counts only once its type is known, so that none
is in sight in the assignment that declares it. -/
def find? (s : State) (name : String) : Option Symbol :=
  s.table.find? name fun symbol => symbol.category ≠ .variable || (s.typeOf? symbol).isSome

end State

/-! ## Steps -/

/-- A check that failed: why, what it leaves of the part that it was given, and its state. -/
structure Stopped (σ : Type) where
  fault : Fault
  left : σ
  state : State

/-- A part of a check, which gives an `α` or stops and leaves a `σ`. -/
abbrev Step (σ α : Type) := StateT State (Except (Stopped σ)) α

/-- Stops, and leaves `left` of the part. -/
def stop (fault : Fault) (left : σ) : Step σ α := fun s => .error ⟨fault, left, s⟩

/-- The same step as a part of a larger one: what it leaves goes into the larger part. -/
def Step.leaving (f : σ → τ) (step : Step σ α) : Step τ α := fun s =>
  match step s with
  | .ok result => .ok result
  | .error e => .error ⟨e.fault, f e.left, e.state⟩

/-- A larger part succeeds exactly as the smaller one does. -/
@[simp] theorem Step.leaving_ok {f : σ → τ} {step : Step σ α} {s : State} {r : α × State} :
    step.leaving f s = .ok r ↔ step s = .ok r := by
  unfold Step.leaving
  cases step s <;> simp

/-- A larger part fails where the smaller one does, for the same reason. -/
theorem Step.leaving_error {f : σ → τ} {step : Step σ α} {s : State} {e : Stopped τ} :
    step.leaving f s = .error e ↔
      ∃ e', step s = .error e' ∧ e = ⟨e'.fault, f e'.left, e'.state⟩ := by
  unfold Step.leaving
  cases step s <;> simp [eq_comm]

/-- Adds to the history. -/
def record (event : Event) : Step σ Unit :=
  modify fun s => { s with history := event :: s.history }

/-- Declares a name at the current depth, with the node that will give its type. -/
def declare (name : String) (category : Symbol.Category) (declaring : Node) : Step σ Unit :=
  modify fun s => { s with table := s.table.insert name category (.node declaring.id) }

/-- Gives the root of a tree its type. -/
def giveType (tree : Tree) (type : Ty) : Step σ Tree := do
  modify fun s => { s with types := s.types.insert tree.root.id type }
  return tree.typed type

/-- Looks up what the name at a node stands for. -/
def lookUp (use : Node) : Step Unit Symbol := do
  let found := (← get).find? use.name
  record (.lookedUp use found)
  match found with
  | some symbol => return symbol
  | none => stop (.undeclared use.name use.position) ()

/-- An identifier has to stand for something; any other node names nothing. -/
def lookUpIfNamed (use : Node) : Step Unit (Option Symbol) :=
  if use.kind = .identifier then some <$> lookUp use else return none

/-- Opens a block for a node of the given kind. -/
def openBlock (kind : Node.Kind) : Step σ Unit := do
  modify fun s => { s with table := s.table.openBlock }
  record (.opened (← get).table.depth kind)

/-- Closes the innermost block. -/
def closeBlock : Step σ Unit := do
  modify fun s => { s with table := s.table.closeBlock }
  record (.closed (← get).table.depth)

/-! ## Children in their places -/

/-- What is asked of a child besides its own check. -/
inductive Place where
  /-- The child is left as it is. -/
  | skipped
  | plain
  /-- It is declared first. -/
  | parameter
  /-- If it is an identifier, it must stand for something that is no function. -/
  | argument
  /-- If it is an identifier, it must stand for something. -/
  | compared
  /-- Once it is checked, it must be an operator or a number. -/
  | operand
  deriving DecidableEq, Repr

/-- The place of the child at an index, by the kind of the node above it. -/
def Place.of (kind : Node.Kind) (index : Nat) : Place :=
  match kind with
  | .text | .integer | .float | .boolean | .identifier | .operator | .logicalOperator
  | .comparator => skipped
  | .functionParameters => parameter
  | .invocationArguments => argument
  | .mathExpression => operand
  | .assignment => if index = 0 then skipped else plain
  | .comparison => if index = 1 then skipped else compared
  | .return => if index = 0 then plain else skipped
  | _ => plain

/-- An argument must not name a function. -/
def refuseFunction (argument : Node) : Step Unit Unit := do
  match ← lookUpIfNamed argument with
  | some symbol =>
    if symbol.category = .function then
      stop (.functionArgument symbol.name argument.position) ()
    else return
  | none => return

/-- An operand has to be a name of which the type is numeric by now, or an integer. -/
def requireNumeric (operand : Tree) : Step Unit Unit := do
  let node := operand.root
  match node.kind with
  | .identifier =>
    let symbol ← lookUp node
    let found := (← get).typeOf? symbol
    if found.any Ty.isNumeric then return
    else stop (.notNumeric node.name (found.getD .any) node.position) ()
  | .integer | .operator => return
  | _ => stop (.notNumeric node.name operand.type node.position) ()

/-- The check of a child in its place, around its own check. -/
def Place.around (place : Place) (child : Tree) (check : Step Tree Tree) : Step Tree Tree :=
  match place with
  | skipped => return child
  | plain => check
  | parameter => do
    declare child.root.name .parameter child.root
    check
  | argument => do
    (refuseFunction child.root).leaving fun _ => child
    check
  | compared => do
    let _ ← (lookUpIfNamed child.root).leaving fun _ => child
    check
  | operand => do
    let child ← check
    (requireNumeric child).leaving fun _ => child
    return child

/-! ## Before and after the children -/

/-- What a node does before its children are checked: it declares its name, opens its block,
and looks up the name that its own type will depend on. -/
def enter (root : Node) (children : List Tree) : Step Unit (Option Symbol) :=
  match root.kind, children with
  | .assignment, [target, value] => do
    let _ ← lookUpIfNamed value.root
    declare target.root.name .variable target.root
    return none
  | .assignment, _ => stop (.malformed .assignment) ()
  | .comparison, [_, _, _] => return none
  | .comparison, _ => stop (.malformed .comparison) ()
  | .invocation, callee :: _ => do
    let symbol ← lookUp callee.root
    if symbol.category = .function then return some symbol
    else stop (.notCallable symbol.name callee.root.position) ()
  | .invocation, [] => stop (.malformed .invocation) ()
  | .return, value :: _ => lookUpIfNamed value.root
  | .function, _ => do
    declare root.name .function root
    openBlock root.kind
    return none
  | .main, _ | .loop, _ | .ifBranch, _ | .elseBranch, _ => do
    openBlock root.kind
    return none
  | _, _ => return none

/-- A block has the type of its last child that gives a value. -/
def typeOfBlock (children : List Tree) : Ty :=
  ((children.map Tree.type).filter (· ≠ .none)).getLast?.getD .none

/-- The type of a node from its checked children, where no declaration settles it. -/
def typeFrom (root : Node) (children : List Tree) : Ty :=
  match root.kind with
  | .text => .text
  | .integer | .operator | .mathExpression => .number
  | .float => .float
  | .boolean | .conditionalExpression | .comparison => .boolean
  | .identifier | .conditional => .any
  | .logicalOperator => .logicalComparator
  | .comparator => .ofComparator root.name
  | .instruction | .return => (children.head?.map Tree.type).getD .none
  | .instructionBlock => typeOfBlock children
  | .function | .main | .loop | .ifBranch | .elseBranch =>
    ((children.find? (·.root.kind = .instructionBlock)).map Tree.type).getD .none
  | _ => .none

/-- What a node does once its children are checked: it closes its block, settles what its
children have in common, and gets its type. -/
def leave (root : Node) (named : Option Symbol) (children : List Tree) : Step Tree Tree :=
  match root.kind, children with
  | .assignment, [target, value] => do
    let target ← giveType target value.type
    giveType (.node root [target, value]) value.type
  | .comparison, [left, comparator, right] =>
    match left.type.common? right.type with
    | some common => do
      let comparator ← giveType comparator common
      giveType (.node root [left, comparator, right]) .boolean
    | none =>
      stop (.incomparable comparator.root.name left.type right.type root.position)
        (.node root children)
  | .function, _ | .main, _ | .loop, _ | .ifBranch, _ | .elseBranch, _ => do
    closeBlock
    giveType (.node root children) (typeFrom root children)
  | _, _ => do
    match named with
    | some symbol => giveType (.node root children) (((← get).typeOf? symbol).getD .any)
    | none => giveType (.node root children) (typeFrom root children)

/-! ## The walk -/

mutual

/-- Checks a tree and gives types to its nodes. -/
def check : Tree → Step Tree Tree
  | .node root children => do
    let named ← (enter root children).leaving fun _ => .node root children
    let children ← (checkAll (Place.of root.kind) children).leaving (.node root)
    leave root named children

/-- Checks trees from left to right, each in the place that it has by its index. -/
def checkAll (place : Nat → Place) : List Tree → Step (List Tree) (List Tree)
  | [] => return []
  | child :: rest => do
    let child ← ((place 0).around child (check child)).leaving (· :: rest)
    let rest ← (checkAll (fun i => place (i + 1)) rest).leaving (child :: ·)
    return child :: rest

end

end Mamuth.Typing

namespace Mamuth

/-- Checks a whole tree, with nothing but the standard functions in sight. -/
def Tree.verify (t : Tree) : Except (Typing.Stopped Tree) (Tree × Typing.State) :=
  Typing.check t .start

end Mamuth
