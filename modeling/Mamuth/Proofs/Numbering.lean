-- Numbers in the order in which nodes are made. A parser that makes each node behind its last part
-- and gives it the next number makes the tree of the program, and makes no node that is not in it.
-- So in the order in which a node comes after its parts, the numbers are counted off from zero.
import Mamuth.Proofs.Layout
import Mamuth.Proofs.Reading
import Mathlib.Data.List.Perm.Basic

namespace Mamuth

/-! ## Nodes after their parts -/

namespace Tree

mutual

/-- The nodes, each after those below it and from left to right. -/
def postorder : Tree → List Node
  | node root children => postorderAll children ++ [root]

def postorderAll : List Tree → List Node
  | [] => []
  | t :: ts => postorder t ++ postorderAll ts

end

mutual

/-- The other order has the same nodes. -/
theorem perm_postorder (t : Tree) : t.postorder.Perm t.nodes := by
  cases t with
  | node root children =>
    have below := perm_postorderAll children
    rw [postorder, nodes, subtrees, List.map_cons]
    exact (List.perm_append_singleton root _).trans (below.cons root)

theorem perm_postorderAll (ts : List Tree) :
    (postorderAll ts).Perm ((subtreesAll ts).map root) := by
  cases ts with
  | nil => exact .refl _
  | cons t ts =>
    rw [postorderAll, subtreesAll, List.map_append]
    exact (perm_postorder t).append (perm_postorderAll ts)

end

mutual

/-- The numbers are given in this order, one after the other. -/
theorem postorder_numberFrom (n : Nat) (t : Tree) :
    (t.numberFrom n).1.postorder.map (·.id) = List.range' n t.nodes.length := by
  cases t with
  | node root children =>
    have below := postorder_numberAllFrom n children
    have next := numberAllFrom_snd n children
    simp only [numberFrom, postorder, List.map_append, below, next, List.map_cons, List.map_nil]
    rw [nodes, subtrees, List.map_cons, List.length_cons, List.length_map, List.range'_concat]
    simp

theorem postorder_numberAllFrom (n : Nat) (ts : List Tree) :
    (postorderAll (numberAllFrom n ts).1).map (·.id) =
      List.range' n (subtreesAll ts).length := by
  cases ts with
  | nil => rfl
  | cons t ts =>
    have first := postorder_numberFrom n t
    have others := postorder_numberAllFrom (t.numberFrom n).2 ts
    rw [numberFrom_snd] at others
    simp only [numberAllFrom, postorderAll, List.map_append, first, numberFrom_snd, others]
    rw [subtreesAll, List.length_append, nodes, List.length_map, List.range'_append_1]

end

mutual

/-- A node has a greater number than those below it. -/
theorem lt_of_numberFrom (n : Nat) (t : Tree) : ∀ u ∈ (t.numberFrom n).1.subtrees,
    ∀ c ∈ u.children, ∀ i ∈ c.ids, i < u.root.id := by
  cases t with
  | node root children =>
    rw [numberFrom, subtrees, List.forall_mem_cons]
    refine ⟨fun c hc i hi => ?_, lt_of_numberAllFrom n children⟩
    exact (mem_ids_numberAllFrom n children i (List.mem_flatMap.mpr ⟨c, hc, hi⟩)).2

theorem lt_of_numberAllFrom (n : Nat) (ts : List Tree) :
    ∀ u ∈ subtreesAll (numberAllFrom n ts).1, ∀ c ∈ u.children, ∀ i ∈ c.ids, i < u.root.id := by
  cases ts with
  | nil => simp [numberAllFrom, subtreesAll]
  | cons t ts =>
    rw [numberAllFrom, subtreesAll, List.forall_mem_append]
    exact ⟨lt_of_numberFrom n t, lt_of_numberAllFrom _ ts⟩

end

theorem length_nodes_numberFrom (n : Nat) (t : Tree) :
    (t.numberFrom n).1.nodes.length = t.nodes.length := by
  rw [← (perm_postorder _).length_eq, ← List.length_map (·.id), postorder_numberFrom,
    List.length_range']

/-- The number that comes next is how many were given. -/
theorem numberFrom_zero (t : Tree) : t.numberFrom 0 = (t.numbered, t.numbered.nodes.length) := by
  rw [numbered, length_nodes_numberFrom, nodes, List.length_map]
  exact Prod.ext rfl ((numberFrom_snd 0 t).trans (Nat.zero_add _))

theorem numberAllFrom_append (n : Nat) (ts us : List Tree) :
    numberAllFrom n (ts ++ us) =
      let (ts', m) := numberAllFrom n ts
      let (us', k) := numberAllFrom m us
      (ts' ++ us', k) := by
  induction ts generalizing n with
  | nil => rfl
  | cons t ts ih => simp only [List.cons_append, numberAllFrom, ih]

end Tree

/-! ## Making nodes while reading -/

/-- Reads tokens and makes nodes. The state is the number of the next node. -/
abbrev Builder := StateT Nat Reader

namespace Builder

open Reader

/-- Makes a node behind its last part. It gets the next number. -/
def create (kind : Node.Kind) (content : Option String) (position : Position)
    (children : List Tree) : Builder Tree := do
  let id ← get
  set (id + 1)
  return .node ⟨id, kind, content, position, none⟩ children

/-- Makes a node without a word of its own. It stands where its first part does. -/
def join (kind : Node.Kind) (children : List Tree) : Builder Tree :=
  create kind none ((children.head?.map (·.root.position)).getD .start) children

def leaf (token : Token.Kind) (kind : Node.Kind) : Builder Tree := do
  let leaf ← Grammar.leaf token
  create kind (some leaf.text) leaf.position []

/-- A single part. -/
def one (part : Builder Tree) : Builder (List Tree) := return [← part]

/-- At most `n` items. -/
def manyWithin (sees : Reader Bool) (item : Builder (List Tree)) :
    (n : Nat) → Builder (List Tree)
  | 0 => return []
  | n + 1 => do
    if ← sees then return (← item) ++ (← manyWithin sees item n) else return []

def many (sees : Reader Bool) (item : Builder (List Tree)) : Builder (List Tree) := do
  manyWithin sees item (← left)

/-! ### Values and expressions -/

def value : Builder Tree := do
  if ← sees (.kind .identifier) then leaf .identifier .identifier
  else if ← sees (.kind .integer) then leaf .integer .integer
  else if ← sees (.kind .float) then leaf .float .float
  else if ← sees (.kind .boolean) then leaf .boolean .boolean
  else if ← sees (.kind .text) then leaf .text .text
  else (stuck (.construct .value) : Reader Tree)

def math : Builder Tree := do
  let position ← word "#"
  let first ← value
  let rest ← many (sees (.kind .operator)) do return [← leaf .operator .operator, ← value]
  let _ ← word "#"
  create .mathExpression none position (first :: rest)

/-- One item or more, with commas between them, below a node of their own. -/
def commaSeparated (kind : Node.Kind) (item : Builder Tree) : Builder Tree := do
  let first ← item
  let rest ← many (sees (.word ",")) <| one do
    let _ ← word ","
    item
  join kind (first :: rest)

def itemsBeforeBracket (kind : Node.Kind) (item : Builder Tree) : Builder (List Tree) := do
  if (← left) = 0 then return []
  else if ← sees (.word ")") then return []
  else one (commaSeparated kind item)

def bracketed (kind : Node.Kind) (item : Builder Tree) : Builder (List Tree) := do
  let _ ← word "("
  let items ← itemsBeforeBracket kind item
  let _ ← word ")"
  return items

def invocation : Builder Tree := do
  let position ← word "jutsu"
  let callee ← leaf .identifier .identifier
  let arguments ← bracketed .invocationArguments value
  create .invocation callee.root.content position (callee :: arguments)

def expression? : Builder (List Tree) := do
  if ← sees (.word "#") then one math
  else if ← sees (.kind .invocation) then one invocation
  else if ← Grammar.seesValue then one value
  else return []

def assignment : Builder Tree := do
  let target ← leaf .identifier .identifier
  let _ ← word "anotado"
  let value :: _ ← expression? | (stuck (.construct .expression) : Reader Tree)
  let _ ← word "."
  join .assignment [target, value]

/-! ### Conditions -/

def comparison : Builder Tree := do
  let left ← value
  let comparator ← leaf .comparator .comparator
  let right ← value
  join .comparison [left, comparator, right]

def condition : Builder Tree := do
  let first ← comparison
  if ← sees (.kind .logicalOperator) then
    let operator ← leaf .logicalOperator .logicalOperator
    let second ← comparison
    join .conditionalExpression [first, operator, second]
  else join .conditionalExpression [first]

/-! ### Instructions and blocks -/

def enclosed (block : Builder Tree) : Builder Tree := do
  let _ ← word "xD"
  let body ← block
  let _ ← word "v:"
  return body

def loop (block : Builder Tree) : Builder Tree := do
  let position ← word "whenCuando"
  let _ ← word "xD"
  let body ← block
  let _ ← word "but"
  let _ ← word "("
  let condition ← condition
  let _ ← word ")"
  let _ ← word "v:"
  create .loop none position [body, condition]

def conditional (block : Builder Tree) : Builder Tree := do
  let position ← word "siuuu"
  let _ ← word "("
  let condition ← condition
  let _ ← word ")"
  let body ← enclosed block
  let branch ← create .ifBranch none position [condition, body]
  if ← sees (.word "nimodo") then
    let position ← word "nimodo"
    let body ← enclosed block
    let other ← create .elseBranch none position [body]
    join .conditional [branch, other]
  else join .conditional [branch]

def giveBack : Builder Tree := do
  let position ← word "messirve"
  let value ← expression?
  let _ ← word "."
  create .return none position value

/-- What an instruction consists of. -/
def content (block : Builder Tree) : Builder Tree := do
  if ← sees (.kind .identifier) then assignment
  else if ← sees (.word "whenCuando") then loop block
  else if ← sees (.word "siuuu") then conditional block
  else if ← sees (.word "messirve") then giveBack
  else (stuck (.construct .instruction) : Reader Tree)

def instruction (block : Builder Tree) : Builder Tree := do
  join .instruction [← content block]

/-- The instructions below a node of their own. -/
def inBlock (instructions : Builder (List Tree)) : Builder Tree := do
  join .instructionBlock (← instructions)

/-- The instructions of a block, at most `n` with those of its inner blocks. -/
def instructionsWithin : (n : Nat) → Builder (List Tree)
  | 0 => (stuck (.construct .instruction) : Reader (List Tree))
  | n + 1 => do
    let first ← instruction (inBlock (instructionsWithin n))
    if ← Grammar.seesInstruction then return first :: (← instructionsWithin n)
    else return [first]

def block : Builder Tree := do inBlock (instructionsWithin (← left))

/-! ### Programs -/

def function : Builder Tree := do
  let position ← word "POV"
  let name ← leaf .identifier .identifier
  let parameters ← bracketed .functionParameters (leaf .identifier .identifier)
  let body ← enclosed block
  create .function name.root.content position (name :: parameters ++ [body])

def entryPoint : Builder Tree := do
  let position ← word "maracuya"
  let _ ← word "("
  let _ ← word ")"
  let body ← enclosed block
  create .main none position [body]

def program : Builder Tree := do
  let assignments ← many (sees (.kind .identifier)) (one assignment)
  let functions ← many (sees (.word "POV")) (one function)
  let main ← entryPoint
  join .program (assignments ++ functions ++ [main])

/-- The tree that is made from the tokens when none of them may be left, and the number of nodes
that were made. -/
def build (tokens : List Token) : Except SyntaxError (Tree × Nat) :=
  match program 0 Terminal.recognizes tokens with
  | .ok (made, []) => .ok made
  | .ok (_, found :: _) => .error (.trailing found)
  | .error stuck => .error (.ofStuck tokens stuck)

/-! ## What is made -/

/-- The builder takes the tokens that the reader takes, and makes of what that reads `made`, with
numbers from the given one on. -/
def Makes (b : Builder β) (r : Reader α) (made : α → Nat → β × Nat) : Prop :=
  ∀ n, b n = (fun x => made x n) <$> r

/-- The builder makes the tree. -/
abbrev MakesTree (b : Builder Tree) (r : Reader α) (tree : α → Tree) : Prop :=
  Makes b r fun x n => (tree x).numberFrom n

/-- The builder makes trees next to each other. -/
abbrev MakesTrees (b : Builder (List Tree)) (r : Reader α) (trees : α → List Tree) : Prop :=
  Makes b r fun x n => Tree.numberAllFrom n (trees x)

section

variable {n : Nat}

theorem bind_apply (b : Builder α) (f : α → Builder β) (n : Nat) :
    (b >>= f) n = b n >>= fun p => f p.1 p.2 := rfl

theorem pure_apply (x : α) (n : Nat) : (pure x : Builder α) n = pure (x, n) := rfl

theorem lift_apply (r : Reader α) (n : Nat) :
    (liftM r : Builder α) n = (fun x => (x, n)) <$> r := rfl

theorem create_apply (kind : Node.Kind) (content : Option String) (position : Position)
    (children : List Tree) (n : Nat) : create kind content position children n =
      pure (.node ⟨n, kind, content, position, none⟩ children, n + 1) := rfl

theorem choose_apply {c : Prop} [Decidable c] (b b' : Builder α) (n : Nat) :
    (if c then b else b') n = if c then b n else b' n := by split <;> rfl

/-- Nothing is made where the reader is stuck. -/
theorem map_stuck (f : α → β) (expected : Expected) :
    f <$> (stuck expected : Reader α) = stuck expected := rfl

-- The laws below open a builder and its reader side by side. A last step that is itself a bind
-- has to stay one on both sides: `-bind_pure_comp`.
attribute [local simp] bind_apply pure_apply lift_apply create_apply choose_apply map_stuck join
  Tree.inner Tree.named Tree.numberFrom Tree.numberAllFrom Tree.numberAllFrom_append

theorem position_numberFrom (n : Nat) (t : Tree) :
    (t.numberFrom n).1.root.position = t.root.position := by
  cases t
  rfl

theorem head_numberAllFrom (n : Nat) (ts : List Tree) :
    (Tree.numberAllFrom n ts).1.head?.map (·.root.position) =
      ts.head?.map (·.root.position) := by
  cases ts with
  | nil => rfl
  | cons t ts => simp [Tree.numberAllFrom, position_numberFrom]

theorem content_numberFrom (n : Nat) (t : Tree) :
    (t.numberFrom n).1.root.content = t.root.content := by
  cases t
  rfl

/-! ### Values and expressions -/

theorem makes_leaf (token : Token.Kind) (kind : Node.Kind) :
    MakesTree (leaf token kind) (Grammar.leaf token) (·.tree kind) := by
  intro n
  simp [leaf, Leaf.tree]

theorem makes_value : MakesTree value Grammar.value Value.tree := by
  intro n
  simp [value, Grammar.value, makes_leaf _ _ n, apply_ite, Value.tree, Literal.kind]

section

variable {part : Builder Tree} {part' : Reader α} {tree : α → Tree}

theorem makes_one (h : MakesTree part part' tree) :
    MakesTrees (one part) part' fun x => [tree x] := by
  intro n
  simp [one, h _]

theorem makes_manyWithin (sees : Reader Bool) {item : Builder (List Tree)} {item' : Reader α}
    {trees : α → List Tree} (h : MakesTrees item item' trees) (m : Nat) :
    MakesTrees (manyWithin sees item m) (Reader.manyWithin sees item' m) (·.flatMap trees) := by
  induction m with
  | zero =>
    intro n
    simp [manyWithin, Reader.manyWithin]
  | succ m ih =>
    intro n
    simp [-bind_pure_comp, manyWithin, Reader.manyWithin, h _, ih _, apply_ite]

theorem makes_many (sees : Reader Bool) {item : Builder (List Tree)} {item' : Reader α}
    {trees : α → List Tree} (h : MakesTrees item item' trees) :
    MakesTrees (many sees item) (Reader.many sees item') (·.flatMap trees) := by
  intro n
  simp [many, Reader.many, makes_manyWithin sees h _ _]

theorem makes_math : MakesTree math Grammar.math Math.tree := by
  have item : MakesTrees (do return [← leaf .operator .operator, ← value])
      (do return (← Grammar.leaf .operator, ← Grammar.value))
      fun row => [row.1.tree .operator, row.2.tree] := by
    intro n
    simp [-bind_pure_comp, makes_leaf _ _ _, makes_value _]
  intro n
  simp [-bind_pure_comp, math, Grammar.math, makes_many _ item _, makes_value _, Math.tree]

theorem makes_commaSeparated (kind : Node.Kind) (h : MakesTree part part' tree) :
    MakesTrees (one (commaSeparated kind part)) (Grammar.commaSeparated part')
      fun xs => Tree.group kind (xs.map tree) := by
  have more : MakesTree (do let _ ← word ","; part) (do let _ ← word ","; part') tree := by
    intro n
    simp [h _]
  intro n
  rw [one, commaSeparated]
  simp [-bind_pure_comp, Grammar.commaSeparated, h _, makes_many _ (makes_one more) _, Tree.group,
    position_numberFrom, ← List.map_eq_flatMap]

theorem makes_bracketed (kind : Node.Kind) (h : MakesTree part part' tree) :
    MakesTrees (bracketed kind part) (Grammar.bracketed part')
      fun xs => Tree.group kind (xs.map tree) := by
  have items : MakesTrees (itemsBeforeBracket kind part) (Grammar.itemsBeforeBracket part')
      fun xs => Tree.group kind (xs.map tree) := by
    intro n
    simp [itemsBeforeBracket, Grammar.itemsBeforeBracket, makes_commaSeparated kind h _, apply_ite,
      Tree.group]
  intro n
  simp [-bind_pure_comp, bracketed, Grammar.bracketed, items _]

end

theorem makes_invocation : MakesTree invocation Grammar.invocation Invocation.tree := by
  intro n
  simp [-bind_pure_comp, invocation, Grammar.invocation, makes_leaf _ _ _,
    makes_bracketed _ makes_value _, Invocation.tree, content_numberFrom]
  rfl

theorem makes_expression :
    MakesTrees expression? Grammar.expression? fun e => (e.map Expression.tree).toList := by
  intro n
  simp [expression?, Grammar.expression?, makes_one makes_math _, makes_one makes_invocation _,
    makes_one makes_value _, apply_ite]
  rfl

theorem makes_assignment : MakesTree assignment Grammar.assignment Assignment.tree := by
  intro n
  simp [-bind_pure_comp, assignment, Grammar.assignment, makes_leaf _ _ _, makes_expression _,
    Assignment.tree]
  refine bind_congr fun target => bind_congr fun _ => bind_congr fun value => ?_
  cases value with
  | none => rfl
  | some value =>
    simp [-bind_pure_comp, position_numberFrom]
    rfl

/-! ### Conditions -/

theorem position_value (v : Value) : v.tree.root.position = v.leaf.position := by
  cases v <;> rfl

theorem makes_comparison : MakesTree comparison Grammar.comparison Comparison.tree := by
  intro n
  simp [-bind_pure_comp, comparison, Grammar.comparison, makes_leaf _ _ _, makes_value _,
    Comparison.tree, position_numberFrom, position_value, Comparison.position]

theorem makes_condition : MakesTree condition Grammar.condition Condition.tree := by
  intro n
  simp [-bind_pure_comp, condition, Grammar.condition, makes_leaf _ _ _, makes_comparison _,
    Condition.tree, apply_ite, position_numberFrom, Condition.position]
  rfl

/-! ### Instructions and blocks -/

section

variable {part : Builder Tree} {part' : Reader Block} (h : MakesTree part part' Block.tree)
include h

theorem makes_enclosed : MakesTree (enclosed part) (Grammar.enclosed part') Block.tree := by
  intro n
  simp [-bind_pure_comp, enclosed, Grammar.enclosed, h _]

theorem makes_loop : MakesTree (loop part) (Grammar.loop part') Instruction.content := by
  intro n
  simp [-bind_pure_comp, loop, Grammar.loop, h _, makes_condition _, Instruction.content,
    Block.tree]

theorem makes_conditional :
    MakesTree (conditional part) (Grammar.conditional part') Instruction.content := by
  intro n
  simp [-bind_pure_comp, conditional, Grammar.conditional, makes_enclosed h _, makes_condition _,
    apply_ite, Instruction.content, Block.tree]
  rfl

omit h in
theorem makes_giveBack : MakesTree giveBack Grammar.giveBack Instruction.content := by
  intro n
  simp [-bind_pure_comp, giveBack, Grammar.giveBack, makes_expression _, Instruction.content]

theorem makes_content :
    MakesTree (content part) (Grammar.instruction part') Instruction.content := by
  intro n
  simp [content, Grammar.instruction, makes_assignment _, makes_loop h _, makes_conditional h _,
    makes_giveBack _, apply_ite]
  rfl

omit h in
theorem position_content (i : Instruction) : i.content.root.position = i.position := by
  cases i <;> rfl

theorem makes_instruction :
    MakesTree (instruction part) (Grammar.instruction part') Instruction.tree := by
  intro n
  simp [instruction, makes_content h _, Instruction.tree, position_numberFrom, position_content]

end

theorem position_trees (b : Block) :
    ((b.trees.head?.map (·.root.position)).getD .start) = b.position := by
  cases b <;> rfl

theorem makes_inBlock {instructions : Builder (List Tree)} {instructions' : Reader Block}
    (h : MakesTrees instructions instructions' Block.trees) :
    MakesTree (inBlock instructions) instructions' Block.tree := by
  intro n
  simp [inBlock, h _, Block.tree, head_numberAllFrom, position_trees]

theorem makes_instructionsWithin (m : Nat) :
    MakesTrees (instructionsWithin m) (Grammar.blockWithin m) Block.trees := by
  induction m with
  | zero => exact fun _ => rfl
  | succ m ih =>
    intro n
    simp [-bind_pure_comp, instructionsWithin, Grammar.blockWithin,
      makes_instruction (makes_inBlock ih) _, ih _, apply_ite, Block.trees]
    rfl

theorem makes_block : MakesTree block Grammar.block Block.tree := by
  intro n
  simp [-bind_pure_comp, block, Grammar.block, makes_inBlock (makes_instructionsWithin _) _]

/-! ### Programs -/

theorem makes_function : MakesTree function Grammar.function Function.tree := by
  intro n
  simp [-bind_pure_comp, function, Grammar.function, makes_leaf _ _ _,
    makes_bracketed _ (makes_leaf _ _) _, makes_enclosed makes_block _, Function.tree,
    content_numberFrom]
  rfl

theorem makes_entryPoint : MakesTree entryPoint Grammar.entryPoint EntryPoint.tree := by
  intro n
  simp [-bind_pure_comp, entryPoint, Grammar.entryPoint, makes_enclosed makes_block _,
    EntryPoint.tree]

theorem position_assignment (a : Assignment) : a.tree.root.position = a.target.position := rfl

theorem position_function (f : Function) : f.tree.root.position = f.position := rfl

theorem position_entryPoint (e : EntryPoint) : e.tree.root.position = e.position := rfl

theorem makes_program : MakesTree program Grammar.program fun p =>
    .inner .program p.position <|
      p.assignments.map Assignment.tree ++ p.functions.map Function.tree ++ [p.main.tree] := by
  intro n
  simp [-bind_pure_comp, program, Grammar.program, makes_many _ (makes_one makes_assignment) _,
    makes_many _ (makes_one makes_function) _, makes_entryPoint _, ← List.map_eq_flatMap]
  refine bind_congr fun assignments => bind_congr fun functions => bind_congr fun main => ?_
  cases assignments <;> cases functions <;>
    simp [Program.position, position_numberFrom, position_assignment, position_function,
      position_entryPoint]

end

theorem map_run (f : α → β) (r : Reader α) (recognizes : Recognizer) (tokens : List Token) :
    (f <$> r) recognizes tokens = (fun (x, rest) => (f x, rest)) <$> r recognizes tokens := by
  show (r recognizes tokens >>= fun (x, rest) => pure (f x, rest)) = _
  cases r recognizes tokens <;> rfl

/-- The nodes that are made are those of the tree of the program. -/
theorem build_eq (tokens : List Token) : build tokens =
    (fun p : Program => (p.tree, p.tree.nodes.length)) <$> Program.ofTokens tokens := by
  rw [build, makes_program 0, Program.ofTokens, Program.read, map_run]
  match Grammar.program Terminal.recognizes tokens with
  | .error _ | .ok (p, _ :: _) => rfl
  | .ok (_, []) => exact congrArg (fun made => Except.ok made) (Tree.numberFrom_zero _)

end Builder

/-- The numbers of the nodes are counted off from zero in the order in which a node comes after its
parts: no number is given twice and none is left out, and those below a node have smaller ones. As
many nodes are in the tree as were made while the tokens were read. -/
theorem Program.ofTokens_postorder {tokens : List Token} {p : Program}
    (h : Program.ofTokens tokens = .ok p) :
    Builder.build tokens = .ok (p.tree, p.tree.nodes.length) ∧
      p.tree.postorder.map (·.id) = List.range p.tree.nodes.length ∧
      p.tree.ids.Nodup ∧
      ∀ u ∈ p.tree.subtrees, ∀ c ∈ u.children, ∀ i ∈ c.ids, i < u.root.id := by
  refine ⟨by rw [Builder.build_eq, h]; rfl, ?_, p.nodup_ids_tree, Tree.lt_of_numberFrom 0 _⟩
  rw [Program.tree, Tree.numbered, Tree.postorder_numberFrom, Tree.length_nodes_numberFrom,
    List.range_eq_range']

/-- The nodes of `x anotado 1. maracuya() xD messirve. v:`, the last one that of the program. -/
theorem Program.ofTokens_postorder_assignment :
    let tokens : List Token := [⟨.identifier, "x", ⟨1, 1⟩⟩, ⟨.assignment, "anotado", ⟨1, 3⟩⟩,
      ⟨.integer, "1", ⟨1, 11⟩⟩, ⟨.punctuation, ".", ⟨1, 12⟩⟩, ⟨.keyword, "maracuya", ⟨1, 14⟩⟩,
      ⟨.punctuation, "(", ⟨1, 22⟩⟩, ⟨.punctuation, ")", ⟨1, 23⟩⟩, ⟨.punctuation, "xD", ⟨1, 25⟩⟩,
      ⟨.keyword, "messirve", ⟨1, 28⟩⟩, ⟨.punctuation, ".", ⟨1, 36⟩⟩, ⟨.punctuation, "v:", ⟨1, 38⟩⟩]
    ∃ p, ofTokens tokens = .ok p ∧ p.tree.postorder.map (·.kind) =
        [.identifier, .integer, .assignment, .return, .instruction, .instructionBlock, .main,
          .program] ∧
      Builder.build tokens = .ok (p.tree, p.tree.nodes.length) ∧
      p.tree.postorder.map (·.id) = List.range p.tree.nodes.length ∧
      p.tree.ids.Nodup ∧
      ∀ u ∈ p.tree.subtrees, ∀ c ∈ u.children, ∀ i ∈ c.ids, i < u.root.id := by
  intro tokens
  let p : Program := ⟨[⟨⟨"x", ⟨1, 1⟩⟩, .value (.literal .integer ⟨"1", ⟨1, 11⟩⟩)⟩], [],
    ⟨⟨1, 14⟩, .last (.return ⟨1, 28⟩ none)⟩⟩
  have read : ofTokens tokens = .ok p := rfl
  exact ⟨p, read, rfl, ofTokens_postorder read⟩

end Mamuth
