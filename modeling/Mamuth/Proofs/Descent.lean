-- The grammar read by recursive descent, with a reader of its own for each construct. The only
-- bound is a limit for the turns of loops and for blocks inside each other; a reader that goes
-- beyond it is cut off and has no outcome. With any limit beyond the number of tokens left none is
-- cut off: they end as the readers of lists do, and at any one token there are at most five calls.
import Mamuth.Proofs.Cursor

namespace Mamuth

open Reader

/-- The block of the given instructions. -/
def Block.ofList (first : Instruction) : List Instruction → Block
  | [] => .last first
  | next :: rest => .more first (ofList next rest)

theorem Block.toList_ofList (first : Instruction) (rest : List Instruction) :
    (ofList first rest).toList = first :: rest := by
  induction rest generalizing first with
  | nil => rfl
  | cons next rest ih => rw [ofList, toList, ih]

theorem Block.ofList_toList (first : Instruction) :
    (b : Block) → ofList first b.toList = .more first b
  | .last _ => rfl
  | .more next rest => congrArg (more first) (ofList_toList next rest)

/-! ## The readers of lists without their bounds -/

section

variable {ρ ρ' : Recognizer} {a : Bool} {n m : Nat}

/-- Readers that end alike, whatever their bounds, are the same within both bounds. -/
theorem Alike.eq {r r' : Reader α} (h : Alike ρ ρ a n m r r') {ts : List Token}
    (hn : ts.length ≤ n) (hm : ts.length ≤ m) : r ρ ts = r' ρ ts := by
  obtain ⟨o, taken, rest, rfl, -, hr, same⟩ := h ts hn fun _ _ _ => rfl
  rw [hr, same rest rfl hm]

theorem Alike.length_le {r r' : Reader α} (h : Alike ρ ρ a n m r r') {ts rest : List Token} {x : α}
    (hn : ts.length ≤ n) (hr : r ρ ts = .ok (x, rest)) : rest.length ≤ ts.length := by
  obtain ⟨o, taken, rest', rfl, -, hr', -⟩ := h ts hn fun _ _ _ => rfl
  obtain ⟨-, rfl⟩ : o = .ok x ∧ rest' = rest := endsAt_inj (hr'.symm.trans hr)
  simp

/-- The second parts need be the same only behind the first one. -/
theorem Reader.bind_congr {r : Reader α} {f g : α → Reader β} {ts : List Token}
    (h : ∀ x rest, r ρ ts = .ok (x, rest) → f x ρ rest = g x ρ rest) :
    (r >>= f) ρ ts = (r >>= g) ρ ts := by
  rw [Reader.bind_apply, Reader.bind_apply]
  rcases hr : r ρ ts with stuck | ⟨x, rest⟩
  · rfl
  · exact h x rest hr

/-- Many items are one item and then many, for as long as one is in sight. -/
theorem Reader.many_eq {item : Reader α} (x : Terminal)
    (h : ∀ ρ n m, Alike ρ ρ true n m item item) :
    many (sees x) item = (do
      if ← sees x then return (← item) :: (← many (sees x) item) else return []) := by
  funext ρ ts
  have enough {k : Nat} {us : List Token} (hk : us.length ≤ k) :
      many (sees x) item ρ us = manyWithin (sees x) item k ρ us :=
    (alike_manyWithin x (h ρ) us.length k).eq (Nat.le_refl _) hk
  rw [enough (Nat.le_succ ts.length), manyWithin]
  refine bind_congr fun seen us hs => ?_
  obtain rfl : ts = us := congrArg Prod.snd (Except.ok.inj hs)
  cases seen with
  | false => rfl
  | true =>
    refine bind_congr fun y rest hy => ?_
    have fewer := (h ρ ts.length 0).length_le (Nat.le_refl _) hy
    rw [Reader.bind_apply, Reader.bind_apply, enough fewer]

namespace Grammar

/-- A block within a bound that suffices. -/
theorem block_eq_within {k : Nat} {ts : List Token} (hk : ts.length ≤ k) :
    block ρ ts = blockWithin k ρ ts :=
  (alike_blockWithin ts.length k).eq (Nat.le_refl _) hk

theorem alike_blockWithin_block : Alike ρ ρ true n m (blockWithin n) block := by
  intro ts hts agree
  obtain ⟨o, taken, rest, he, costs, hr, same⟩ := alike_blockWithin n m ts hts agree
  exact ⟨o, taken, rest, he, costs, hr, fun rest' head hm =>
    (block_eq_within hm).trans (same rest' head hm)⟩

/-- A block is an instruction, and then a block for as long as an instruction is in sight. -/
theorem block_eq : block = (do
    let first ← instruction block
    if ← seesInstruction then return .more first (← block) else return .last first) := by
  funext ρ ts
  have whole :=
    alike_instruction (alike_blockWithin_block (ρ := ρ) (n := ts.length) (m := ts.length))
  have same : instruction (blockWithin ts.length) ρ ts = instruction block ρ ts :=
    whole.eq (Nat.le_succ _) (Nat.le_succ _)
  rw [block_eq_within (Nat.le_succ ts.length), blockWithin, Reader.bind_apply,
    Reader.bind_apply _ _ ρ ts, same]
  rcases hi : instruction block ρ ts with stuck | ⟨first, rest⟩
  · rfl
  have fewer := whole.length_le (Nat.le_succ _) (same.trans hi)
  refine bind_congr fun seen us hs => ?_
  have fewer := Nat.le_trans ((alike_seesInstruction (m := 0)).length_le (Nat.le_refl _) hs)
    fewer
  cases seen with
  | false => rfl
  | true =>
    rw [if_pos rfl, if_pos rfl, Reader.bind_apply, Reader.bind_apply, block_eq_within fewer]

/-- The instructions behind another one in a block. -/
def instructions : Reader (List Instruction) := do
  if ← seesInstruction then return (← block).toList else return []

/-- A block is an instruction and those behind it. -/
theorem block_eq_ofList : block = (do
    let first ← instruction block
    let rest ← instructions
    return .ofList first rest) := by
  have behind (first : Instruction) :
      (do if ← seesInstruction then return .more first (← block) else return .last first) =
        (do
          let rest ← instructions
          return Block.ofList first rest) := by
    rw [instructions, bind_assoc]
    congr 1
    funext seen
    cases seen <;> simp [Block.ofList_toList, Block.ofList]
  simp only [← behind, ← block_eq]

/-- More instructions come for as long as one is in sight. -/
theorem instructions_eq : instructions = (do
    if ← seesInstruction then return (← instruction block) :: (← instructions) else return []) := by
  have inside : (do return (← block).toList) =
      (do return (← instruction block) :: (← instructions)) := by
    conv => lhs; rw [block_eq_ofList]
    simp [Block.toList_ofList]
  rw [← inside, instructions]

/-! ## Readers for parts of constructs -/

/-- A literal. -/
def literal : Reader Value := do
  if ← sees (.kind .integer) then return .literal .integer (← leaf .integer)
  else if ← sees (.kind .float) then return .literal .float (← leaf .float)
  else if ← sees (.kind .boolean) then return .literal .boolean (← leaf .boolean)
  else if ← sees (.kind .text) then return .literal .text (← leaf .text)
  else stuck (.construct .value)

/-- The operators of an expression, each with the value behind it. -/
def operators : Reader (List (Leaf × Value)) :=
  many (sees (.kind .operator)) do return (← leaf .operator, ← value)

/-- Items with a comma before each. -/
def moreItems (item : Reader α) : Reader (List α) :=
  many (sees (.word ",")) do
    let _ ← word ","
    item

/-- A condition with the block that it guards. -/
def branch : Reader (Position × Condition × Block) := do
  let position ← word "siuuu"
  let _ ← word "("
  let condition ← condition
  let _ ← word ")"
  return (position, condition, ← enclosed block)

/-- The block for the other case. -/
def otherBranch : Reader (Position × Block) := do
  let position ← word "nimodo"
  return (position, ← enclosed block)

theorem value_eq_literal : value = (do
    if ← sees (.kind .identifier) then return .identifier (← leaf .identifier) else literal) := rfl

end Grammar

end

/-! ## Readers with a limit -/

/-- What is read, and how many turns a loop can make and how many blocks can be inside each other
before a reader is cut off. -/
structure Descent.Source where
  tokens : Array Token
  limit : Nat

/-- Where a reader stands, and the number of calls so far. -/
structure Descent.State where
  index : Nat
  calls : Nat
  deriving DecidableEq, Repr

/-- Reads tokens of an array. A reader that is cut off has no outcome; where one stands and what it
has called is known after an error too. -/
abbrev Descent := ReaderT Descent.Source (ExceptT SyntaxError (StateT Descent.State Option))

namespace Descent

/-! ### Single tokens -/

/-- No outcome. -/
def cutOff : Descent α := fun _ _ => none

/-- Counts a call. -/
def called : Descent Unit := modify fun s => { s with calls := s.calls + 1 }

/-- The next token, if there is one. -/
def current : Descent (Option Token) := do return (← read).tokens[(← get).index]?

/-- Whether there is a next token that passes the test. -/
def looks (test : Token → Bool) : Descent Bool := return (← current).any test

/-- Whether the next token counts as the terminal. -/
def sees (terminal : Terminal) : Descent Bool := looks terminal.recognizes

/-- Stops at the next token, or where the tokens end with the position of the last one. -/
def stuck (expected : Expected) : Descent α := do
  match ← current with
  | some found => throw (.unexpected expected found)
  | none => throw (.endOfInput expected (((← read).tokens.back?.map (·.position)).getD .start))

/-- Takes the next token, which has to be the terminal. -/
def take (terminal : Terminal) : Descent Token := do
  match ← current with
  | some token =>
    if terminal.recognizes token then
      modify fun s => { s with index := s.index + 1 }
      return token
    else stuck (.terminal terminal)
  | none => stuck (.terminal terminal)

def word (text : String) : Descent Position := return (← take (.word text)).position

def leaf (kind : Token.Kind) : Descent Leaf := do
  called
  let token ← take (.kind kind)
  return ⟨token.lexeme, token.position⟩

/-- Less than `n` items. -/
def manyWithin (sees : Descent Bool) (item : Descent α) : (n : Nat) → Descent (List α)
  | 0 => cutOff
  | n + 1 => do
    if ← sees then return (← item) :: (← manyWithin sees item n) else return []

/-- Items for as long as one is in sight. -/
def many (sees : Descent Bool) (item : Descent α) : Descent (List α) := do
  manyWithin sees item (← read).limit

/-! ### Values and expressions -/

def identifier : Descent Leaf := do
  called
  leaf .identifier

def literal : Descent Value := do
  called
  if ← sees (.kind .integer) then return .literal .integer (← leaf .integer)
  else if ← sees (.kind .float) then return .literal .float (← leaf .float)
  else if ← sees (.kind .boolean) then return .literal .boolean (← leaf .boolean)
  else if ← sees (.kind .text) then return .literal .text (← leaf .text)
  else stuck (.construct .value)

def value : Descent Value := do
  called
  if ← sees (.kind .identifier) then return .identifier (← identifier) else literal

/-- The operators of an expression, each with the value behind it. -/
def operators : Descent (List (Leaf × Value)) :=
  many (sees (.kind .operator)) do return (← leaf .operator, ← value)

def math : Descent Math := do
  called
  let position ← word "#"
  let first ← value
  let rest ← operators
  let _ ← word "#"
  return { position, first, rest }

/-- Items with a comma before each. -/
def moreItems (item : Descent α) : Descent (List α) :=
  many (sees (.word ",")) do
    let _ ← word ","
    item

def parameters : Descent (List Leaf) := do
  called
  let first ← identifier
  return first :: (← moreItems identifier)

def arguments : Descent (List Value) := do
  called
  let first ← value
  return first :: (← moreItems value)

/-- The items before a closing bracket, if there are any. At the end of the input it is the bracket
that is missing. -/
def itemsBeforeBracket (items : Descent (List α)) : Descent (List α) := do
  if ← looks (!Terminal.recognizes (.word ")") ·) then items else return []

/-- A list in round brackets, which may be empty. -/
def bracketed (items : Descent (List α)) : Descent (List α) := do
  let _ ← word "("
  let items ← itemsBeforeBracket items
  let _ ← word ")"
  return items

def invocation : Descent Invocation := do
  called
  let position ← word "jutsu"
  let callee ← identifier
  let arguments ← bracketed arguments
  return { position, callee, arguments }

/-- An expression, if the next token can start one. -/
def expression? : Descent (Option Expression) := do
  if ← sees (.word "#") then return some (.math (← math))
  else if ← sees (.kind .invocation) then return some (.invocation (← invocation))
  else if ← looks (·.kind.isValue) then return some (.value (← value))
  else return none

def assignment : Descent Assignment := do
  called
  let target ← identifier
  let _ ← word "anotado"
  let some value ← expression? | stuck (.construct .expression)
  let _ ← word "."
  return { target, value }

def comparison : Descent Comparison := do
  called
  let left ← value
  let comparator ← leaf .comparator
  let right ← value
  return { left, comparator, right }

def condition : Descent Condition := do
  called
  let first ← comparison
  if ← sees (.kind .logicalOperator) then
    let operator ← leaf .logicalOperator
    return { first, second := some (operator, ← comparison) }
  else return { first, second := none }

/-! ### Instructions and blocks -/

def giveBack : Descent Instruction := do
  called
  let position ← word "messirve"
  let value ← expression?
  let _ ← word "."
  return .return position value

def startsInstruction (token : Token) : Bool :=
  token.kind = .identifier || token.lexeme ∈ ["whenCuando", "siuuu", "messirve"]

/-- A block after the mark that opens it, with the mark that closes it. -/
def enclosed (block : Descent Block) : Descent Block := do
  let _ ← word "xD"
  let body ← block
  let _ ← word "v:"
  return body

section

variable (block : Descent Block)

def loop : Descent Instruction := do
  called
  let position ← word "whenCuando"
  let _ ← word "xD"
  let body ← block
  let _ ← word "but"
  let _ ← word "("
  let condition ← condition
  let _ ← word ")"
  let _ ← word "v:"
  return .loop position body condition

/-- A condition with the block that it guards. -/
def branch : Descent (Position × Condition × Block) := do
  called
  let position ← word "siuuu"
  let _ ← word "("
  let condition ← condition
  let _ ← word ")"
  return (position, condition, ← enclosed block)

/-- The block for the other case. -/
def otherBranch : Descent (Position × Block) := do
  called
  let position ← word "nimodo"
  return (position, ← enclosed block)

def conditional : Descent Instruction := do
  called
  let (position, condition, body) ← branch block
  if ← sees (.word "nimodo") then
    let (otherPosition, otherBody) ← otherBranch block
    return .branches position condition body otherPosition otherBody
  else return .branch position condition body

/-- An instruction whose inner blocks are read by `block`. -/
def instruction : Descent Instruction := do
  called
  if ← sees (.kind .identifier) then return .assignment (← assignment)
  else if ← sees (.word "whenCuando") then loop block
  else if ← sees (.word "siuuu") then conditional block
  else if ← sees (.word "messirve") then giveBack
  else stuck (.construct .instruction)

/-- The instructions behind another one in a block. -/
def instructions : Descent (List Instruction) := many (looks startsInstruction) (instruction block)

end

/-- A block with less than `n` blocks inside each other. -/
def blockWithin : (n : Nat) → Descent Block
  | 0 => cutOff
  | n + 1 => do
    called
    let first ← instruction (blockWithin n)
    let rest ← instructions (blockWithin n)
    return .ofList first rest

def block : Descent Block := do blockWithin (← read).limit

/-! ### Programs -/

def function : Descent Function := do
  called
  let position ← word "POV"
  let name ← identifier
  let parameters ← bracketed parameters
  let body ← enclosed block
  return { position, name, parameters, body }

def entryPoint : Descent EntryPoint := do
  called
  let position ← word "maracuya"
  let _ ← word "("
  let _ ← word ")"
  let body ← enclosed block
  return { position, body }

def assignments : Descent (List Assignment) := many (sees (.kind .identifier)) assignment

def functions : Descent (List Function) := many (sees (.word "POV")) function

/-- The constructs of a program. -/
def topLevel : Descent Program := do
  let assignments ← assignments
  let functions ← functions
  let main ← entryPoint
  return { assignments, functions, main }

/-- A program after which the tokens have to end. -/
def complete (program : Program) : Descent Program := do
  match ← current with
  | some token => throw (.trailing token)
  | none => return program

def program : Descent Program := do
  called
  complete (← topLevel)

/-! ## Both kinds of readers end alike -/

theorem bind_apply (c : Descent α) (f : α → Descent β) (source : Source) (s : State) :
    (c >>= f) source s = match c source s with
      | some (.ok x, s') => f x source s'
      | some (.error e, s') => some (.error e, s')
      | none => none := by
  show (c source s).bind (fun p => ExceptT.bindCont (fun x => f x source) p.1 p.2) = _
  rcases c source s with _ | ⟨_ | _, _⟩ <;> rfl

/-- How a reader ends that starts in a state, and how one of lists does on the tokens left there:
with the same result, or stuck for the same reason. The index goes forward, but not beyond the
end of the tokens. If `a` holds, a reader that gives a result takes a token. For each token that is
taken there are at most five calls, and for the first of them, or where the reader gets stuck, at
most `u` in place of five. -/
inductive Ended (a : Bool) (u : Nat) (tokens : Array Token) (s : State) :
    Except Stuck (α × List Token) → Except SyntaxError α → State → Prop
  | ok {x s'} (takes : a → s.index < s'.index) (forward : s.index ≤ s'.index)
    (inside : s'.index ≤ max s.index tokens.size)
    (calls : s'.calls + 5 * s.index + 5 ≤ s.calls + 5 * s'.index + if a then min u 5 else 5) :
    Ended a u tokens s (.ok (x, tokens.toList.drop s'.index)) (.ok x) s'
  | error {expected s'} (forward : s.index ≤ s'.index)
    (inside : s'.index ≤ max s.index tokens.size)
    (calls : s'.calls + 5 * s.index ≤ s.calls + 5 * s'.index + min u 5) :
    Ended a u tokens s (.error ⟨expected, tokens.toList.drop s'.index⟩)
      (.error (.ofStuck tokens.toList ⟨expected, tokens.toList.drop s'.index⟩)) s'

/-- Wherever fewer than `n` tokens are left both readers have the outcome of the reader of lists,
and the same state then, whatever limits beyond the tokens left they have. -/
def EndAlike (a : Bool) (u n : Nat) (c c' : Descent α) (r : Reader α) : Prop :=
  ∀ (tokens : Array Token) (limit limit' : Nat) (s : State), tokens.size - s.index < n →
    tokens.size - s.index < limit → tokens.size - s.index < limit' → ∃ outcome s',
      c ⟨tokens, limit⟩ s = some (outcome, s') ∧ c' ⟨tokens, limit'⟩ s = some (outcome, s') ∧
      Ended a u tokens s (r Terminal.recognizes (tokens.toList.drop s.index)) outcome s'

/-- A reader ends like the reader of lists, and in the same way with all limits that suffice. -/
abbrev Ends (a : Bool) (u n : Nat) (c : Descent α) (r : Reader α) : Prop := EndAlike a u n c c r

section

variable {a b : Bool} {u v n m : Nat}

theorem endAlike_zero {c c' : Descent α} {r : Reader α} : EndAlike a u 0 c c' r :=
  fun _ _ _ _ hn _ _ => absurd hn (Nat.not_lt_zero _)

theorem EndAlike.fewer {c c' : Descent α} {r : Reader α} (h : EndAlike a u n c c' r) (hm : m ≤ n) :
    EndAlike a u m c c' r :=
  fun tokens limit limit' s hs => h tokens limit limit' s (Nat.lt_of_lt_of_le hs hm)

theorem ends_pure (x : α) : Ends false u n (pure x) (pure x) := fun _ _ _ s _ _ _ =>
  ⟨.ok x, s, rfl, rfl, .ok nofun (Nat.le_refl _) (Nat.le_max_left _ _) (Nat.le_refl _)⟩

/-- The second part has at most as many tokens as the first one leaves. -/
theorem EndAlike.andThen {c c' : Descent α} {r : Reader α} {f f' : α → Descent β}
    {g : α → Reader β} {w : Nat} (h : EndAlike a u n c c' r)
    (hf : ∀ x, EndAlike b v m (f x) (f' x) (g x))
    (hm : ∀ left left' : Nat, left < n → left' ≤ left → (a → left' < left) → left' < m)
    (hu : u ≤ w) (hw : a = false → v ≤ w) :
    EndAlike (a || b) w n (c >>= f) (c' >>= f') (r >>= g) := by
  intro tokens limit limit' s hn hl hl'
  obtain ⟨outcome, s', hc, hc', one⟩ := h tokens limit limit' s hn hl hl'
  rw [bind_apply, bind_apply, hc, hc', Reader.bind_apply]
  generalize r Terminal.recognizes (tokens.toList.drop s.index) = result at one
  cases one with
  | error forward inside calls =>
    exact ⟨_, s', rfl, rfl, .error forward inside (by omega)⟩
  | @ok x _ takes forward inside calls =>
    have left := Nat.sub_le_sub_left forward tokens.size
    have fewer : tokens.size - s'.index < m := by
      refine hm _ _ hn left fun ha => ?_
      have := takes ha
      omega
    obtain ⟨outcome, s'', hd, hd', two⟩ := hf x tokens limit limit' s' fewer
      (Nat.lt_of_le_of_lt left hl) (Nat.lt_of_le_of_lt left hl')
    dsimp only
    rw [hd, hd']
    refine ⟨outcome, s'', rfl, rfl, ?_⟩
    generalize g x Terminal.recognizes (tokens.toList.drop s'.index) = result at two
    cases two with
    | error forward' inside' calls' =>
      refine .error (by omega) (by omega) ?_
      cases a <;> simp at calls hw <;> omega
    | ok takes' forward' inside' calls' =>
      refine .ok (fun hab => ?_) (by omega) (by omega) ?_
      · rcases (Bool.or_eq_true _ _).mp hab with ha | hb
        · exact Nat.lt_of_lt_of_le (takes ha) forward'
        · exact Nat.lt_of_le_of_lt forward (takes' hb)
      · cases a <;> cases b <;> simp at calls calls' hw ⊢ <;> omega

section

variable {c c' : Descent α} {r : Reader α} {f f' : α → Descent β} {g : α → Reader β}

theorem EndAlike.bind (h : EndAlike a u n c c' r)
    (hf : ∀ x, EndAlike b u n (f x) (f' x) (g x)) :
    EndAlike (a || b) u n (c >>= f) (c' >>= f') (r >>= g) :=
  h.andThen hf (fun _ _ hl hle _ => Nat.lt_of_le_of_lt hle hl) (Nat.le_refl u)
    fun _ => Nat.le_refl u

/-- What comes after a part that takes a token has fewer tokens, and its calls count anew. -/
theorem EndAlike.after (h : EndAlike true u (n + 1) c c' r)
    (hf : ∀ x, EndAlike b v n (f x) (f' x) (g x)) :
    EndAlike true u (n + 1) (c >>= f) (c' >>= f') (r >>= g) :=
  h.andThen hf (fun _ _ hl _ takes => Nat.lt_of_lt_of_le (takes rfl) (Nat.le_of_lt_succ hl))
    (Nat.le_refl u) nofun

/-- What comes after a part that takes a token counts its calls anew. -/
theorem EndAlike.before (h : EndAlike true u n c c' r)
    (hf : ∀ x, EndAlike b v n (f x) (f' x) (g x)) :
    EndAlike true u n (c >>= f) (c' >>= f') (r >>= g) :=
  h.andThen hf (fun _ _ hl hle _ => Nat.lt_of_le_of_lt hle hl) (Nat.le_refl u) nofun

theorem EndAlike.map (h : EndAlike a u n c c' r) (k : α → β) :
    EndAlike a u n (do return k (← c)) (do return k (← c')) (do return k (← r)) := by
  cases a
  · exact h.bind fun x => ends_pure (k x)
  · exact h.bind fun x => ends_pure (k x)

end

section

variable {c c' d d' : Descent α} {r s : Reader α}

/-- What is known of the way of ending can be weakened. -/
theorem EndAlike.imp (h : EndAlike a u n c c' r)
    (ended : ∀ {tokens s result outcome s'}, Ended a u tokens s result outcome s' →
      Ended b v tokens s (α := α) result outcome s') : EndAlike b v n c c' r := by
  intro tokens limit limit' s hn hl hl'
  obtain ⟨outcome, s', hc, hc', ends⟩ := h tokens limit limit' s hn hl hl'
  exact ⟨outcome, s', hc, hc', ended ends⟩

theorem EndAlike.mono (h : EndAlike a u n c c' r) (hu : u ≤ v) : EndAlike a v n c c' r := by
  refine h.imp fun ends => ?_
  cases ends with
  | ok takes forward inside calls =>
    refine .ok takes forward inside ?_
    cases a <;> simp at calls ⊢ <;> omega
  | error forward inside calls => exact .error forward inside (by omega)

theorem EndAlike.weaken (h : EndAlike a u n c c' r) : EndAlike false u n c c' r := by
  refine h.imp fun ends => ?_
  cases ends with
  | ok takes forward inside calls =>
    refine .ok nofun forward inside (Nat.le_trans calls (Nat.add_le_add_left ?_ _))
    split
    · exact Nat.min_le_right u 5
    · exact Nat.le_refl 5
  | error forward inside calls => exact .error forward inside calls

theorem EndAlike.ifSeen {cs cs' : Descent Bool} {rs : Reader Bool}
    (looks : EndAlike false u n cs cs' rs) (h : EndAlike a u n c c' r)
    (h' : EndAlike a u n d d' s) :
    EndAlike a u n (do if ← cs then c else d) (do if ← cs' then c' else d')
      (do if ← rs then r else s) := by
  refine looks.bind (b := a) fun seen => ?_
  cases seen
  · exact h'
  · exact h

/-- The reader of a construct counts its own call. -/
theorem EndAlike.called (hu : u < 5) (h : EndAlike true u n c c' r) :
    EndAlike true (u + 1) n (do called; c) (do called; c') r := by
  intro tokens limit limit' s hn hl hl'
  obtain ⟨outcome, s', hc, hc', ends⟩ :=
    h tokens limit limit' { s with calls := s.calls + 1 } hn hl hl'
  refine ⟨outcome, s', hc, hc', ?_⟩
  generalize r Terminal.recognizes (tokens.toList.drop s.index) = result at ends
  cases ends with
  | ok takes forward inside calls =>
    refine .ok takes forward inside ?_
    rw [if_pos rfl] at calls ⊢
    change s'.calls + 5 * s.index + 5 ≤ s.calls + 1 + 5 * s'.index + min u 5 at calls
    omega
  | error forward inside calls =>
    refine .error forward inside ?_
    change s'.calls + 5 * s.index ≤ s.calls + 1 + 5 * s'.index + min u 5 at calls
    omega

end

/-! ### Looking and taking -/

theorem looks_bind (test : Token → Bool) (f : Bool → Descent α) (source : Source) (s : State) :
    (looks test >>= f) source s = f (source.tokens[s.index]?.any test) source s := rfl

theorem current_bind (f : Option Token → Descent α) (source : Source) (s : State) :
    (current >>= f) source s = f source.tokens[s.index]? source s := rfl

/-- Both look for the same terminals. -/
theorem ends_looks {test : Token → Bool} {sees : Reader Bool} {xs : List Terminal}
    (h : Looks sees xs) (ht : ∀ t, test t = xs.any fun x => x.recognizes t) :
    Ends false u n (looks test) sees := by
  intro tokens _ _ s _ _ _
  have seen : tokens[s.index]?.any test =
      (tokens.toList.drop s.index).head?.any fun t => xs.any fun x => x.recognizes t := by
    rw [List.head?_drop, Array.getElem?_toList, funext ht]
  rw [h, ← seen]
  exact ⟨.ok (tokens[s.index]?.any test), s, rfl, rfl,
    .ok nofun (Nat.le_refl _) (Nat.le_max_left _ _) (Nat.le_refl _)⟩

theorem ends_sees (x : Terminal) : Ends false u n (sees x) (Reader.sees x) :=
  ends_looks (looks_sees x) fun t => by simp

theorem stuck_apply (expected : Expected) (source : Source) (s : State) :
    (stuck expected : Descent α) source s = some (.error (.ofStuck source.tokens.toList
      ⟨expected, source.tokens.toList.drop s.index⟩), s) := by
  rw [stuck, current_bind]
  rcases Cursor.next_or_end source.tokens s.index with ⟨t, ht, -, hd⟩ | ⟨ht, hd⟩
  · rw [ht, hd]
    rfl
  · rw [ht, hd, SyntaxError.ofStuck, Array.getLast?_toList]
    rfl

theorem ends_stuck (expected : Expected) :
    Ends a u n (stuck expected : Descent α) (Reader.stuck expected) := fun _ _ _ s _ _ _ =>
  ⟨_, s, stuck_apply expected _ s, stuck_apply expected _ s,
    .error (Nat.le_refl _) (Nat.le_max_left _ _) (Nat.le_add_right _ _)⟩

theorem ends_take (x : Terminal) : Ends true 0 n (take x) (Reader.take x) := by
  intro tokens limit limit' s hn hl hl'
  rw [take, current_bind, current_bind]
  rcases Cursor.next_or_end tokens s.index with ⟨t, ht, hlt, hd⟩ | ⟨ht, hd⟩
  · rw [ht, hd, Reader.take]
    dsimp only
    split
    · let s' : State := { s with index := s.index + 1 }
      have calls : s.calls + 5 * s.index + 5 ≤ s.calls + 5 * s'.index + min 0 5 := Nat.le_refl _
      have ended : Ended true 0 tokens s (.ok (t, tokens.toList.drop s'.index)) (.ok t) s' :=
        .ok (fun _ => Nat.lt_succ_self _) (Nat.le_succ _)
          (Nat.le_trans hlt (Nat.le_max_right _ _)) calls
      exact ⟨_, s', rfl, rfl, ended⟩
    · rw [← hd]
      exact ends_stuck _ tokens limit limit' s hn hl hl'
  · have ended :=
      ends_stuck (α := Token) (a := true) (u := 0) (.terminal x) tokens limit limit' s hn hl hl'
    rw [hd] at ended
    rw [ht, hd]
    exact ended

theorem ends_word (text : String) : Ends true 0 n (word text) (Reader.word text) :=
  (ends_take _).map Token.position

theorem ends_leaf (k : Token.Kind) : Ends true 1 n (leaf k) (Grammar.leaf k) :=
  .called (by decide) ((ends_take _).map fun t => Leaf.mk t.lexeme t.position)

/-! ### Turns -/

section

variable {looks : Descent Bool} {seen : Reader Bool} {item item' : Descent α} {r : Reader α}
  {items : Reader (List α)}
  (turn : items = do if ← seen then return (← r) :: (← items) else return [])
  (see : ∀ n, Ends false u n looks seen) (h : EndAlike true u n item item' r)
include turn see h

/-- Turns as long as items are in sight, each of which takes a token. -/
theorem endAlike_manyWithin {k k' : Nat} (hk : n ≤ k) (hk' : n ≤ k') :
    EndAlike false u n (manyWithin looks item k) (manyWithin looks item' k') items := by
  induction n generalizing k k' with
  | zero => exact endAlike_zero
  | succ n ih =>
    obtain ⟨k, rfl⟩ : ∃ i, k = i + 1 := Nat.exists_eq_succ_of_ne_zero (Nat.ne_zero_of_lt hk)
    obtain ⟨k', rfl⟩ : ∃ i, k' = i + 1 := Nat.exists_eq_succ_of_ne_zero (Nat.ne_zero_of_lt hk')
    have rest := ih (h.fewer (Nat.le_succ n)) (Nat.le_of_succ_le_succ hk)
      (Nat.le_of_succ_le_succ hk')
    rw [manyWithin, manyWithin, turn]
    exact (see (n + 1)).ifSeen (h.after fun y => rest.map (y :: ·)).weaken (ends_pure [])

theorem endAlike_many : EndAlike false u n (many looks item) (many looks item') items := by
  intro tokens limit limit' s hn hl hl'
  exact endAlike_manyWithin turn see (h.fewer hn) hl hl' tokens limit limit' s
    (Nat.lt_succ_self _) hl hl'

end

theorem ends_items {item : Descent α} {item' : Reader α} (x : Terminal)
    (alike : ∀ ρ n m, Alike ρ ρ true n m item' item') (h : Ends true u n item item') :
    Ends false u n (many (sees x) item) (Reader.many (Reader.sees x) item') :=
  endAlike_many (Reader.many_eq x alike) (fun _ => ends_sees x) h

/-! ### Values and expressions -/

theorem ends_identifier : Ends true 2 n identifier (Grammar.leaf .identifier) :=
  .called (by decide) (ends_leaf _)

theorem ends_literal : Ends true 2 n literal Grammar.literal := by
  have only (k : Token.Kind) (f : Leaf → Value) :
      Ends true 1 n (do return f (← leaf k)) (do return f (← Grammar.leaf k)) := (ends_leaf k).map f
  exact .called (by decide) <| (ends_sees _).ifSeen (only _ _) <| (ends_sees _).ifSeen (only _ _) <|
    (ends_sees _).ifSeen (only _ _) <| (ends_sees _).ifSeen (only _ _) (ends_stuck _)

theorem ends_value : Ends true 3 n value Grammar.value := by
  rw [Grammar.value_eq_literal]
  exact .called (by decide) <| (ends_sees _).ifSeen (ends_identifier.map _) ends_literal

theorem ends_operators : Ends false 1 n operators Grammar.operators :=
  ends_items _
    (fun _ _ _ => (Grammar.alike_leaf _).bind fun o => Grammar.alike_value.bind fun v =>
      alike_pure (o, v))
    ((ends_leaf _).before fun o => ends_value.map fun v => (o, v))

theorem ends_math : Ends true 1 n math Grammar.math :=
  .called (by decide) <| (ends_word _).before fun _ => ends_value.before fun _ =>
    ends_operators.bind fun _ => ((ends_word _).map _).mono (by decide)

theorem ends_moreItems {item : Descent α} {item' : Reader α}
    (alike : ∀ ρ n m, Alike ρ ρ true n m item' item') (h : Ends true u n item item') :
    Ends false 0 n (moreItems item) (Grammar.moreItems item') :=
  ends_items _ (fun ρ n m => (alike_word _).bind fun _ => alike ρ n m)
    ((ends_word _).before fun _ => h)

theorem ends_arguments : Ends true 4 n arguments (Grammar.commaSeparated Grammar.value) :=
  .called (by decide) <| ends_value.before fun _ =>
    (ends_moreItems (fun _ _ _ => Grammar.alike_value) ends_value).map _

theorem ends_parameters : Ends true 3 n parameters
    (Grammar.commaSeparated (Grammar.leaf .identifier)) :=
  .called (by decide) <| ends_identifier.before fun _ =>
    (ends_moreItems (fun _ _ _ => Grammar.alike_leaf _) ends_identifier).map _

section

variable {items : Descent (List α)} {item : Reader α}
  (h : Ends true u n items (Grammar.commaSeparated item))
include h

/-- Where no tokens are left the reader of lists does not look, and there is nothing to see. -/
theorem ends_itemsBeforeBracket :
    Ends false u n (itemsBeforeBracket items) (Grammar.itemsBeforeBracket item) := by
  intro tokens limit limit' s hn hl hl'
  have some := h.weaken tokens limit limit' s hn hl hl'
  have none := ends_pure (u := u) (n := n) ([] : List α) tokens limit limit' s hn hl hl'
  rw [itemsBeforeBracket, looks_bind, looks_bind]
  rcases Cursor.next_or_end tokens s.index with ⟨t, ht, -, hd⟩ | ⟨ht, hd⟩
  · rw [hd] at some none ⊢
    rw [ht, Grammar.itemsBeforeBracket_cons, Reader.bind_of_ok (looks_sees _ _), List.head?_cons,
      Option.any_some, Option.any_some, List.any_cons, List.any_nil, Bool.or_false]
    cases Terminal.recognizes (.word ")") t
    · exact some
    · exact none
  · rw [hd] at none ⊢
    rw [ht]
    exact none

theorem ends_bracketed : Ends true 0 n (bracketed items) (Grammar.bracketed item) :=
  (ends_word _).before fun _ => (ends_itemsBeforeBracket h).bind fun _ =>
    ((ends_word _).map _).mono (Nat.zero_le _)

end

theorem ends_invocation : Ends true 1 n invocation Grammar.invocation :=
  .called (by decide) <| (ends_word _).before fun _ => ends_identifier.before fun _ =>
    (ends_bracketed ends_arguments).map _

theorem ends_seesValue : Ends false u n (looks (·.kind.isValue)) Grammar.seesValue := by
  refine ends_looks Grammar.looks_value fun t => ?_
  cases hk : t.kind <;> simp [hk, Terminal.recognizes, Token.Kind.isValue]

theorem ends_expression : Ends false 3 n expression? Grammar.expression? :=
  (ends_sees _).ifSeen ((ends_math.map _).mono (by decide)).weaken <|
    (ends_sees _).ifSeen ((ends_invocation.map _).mono (by decide)).weaken <|
    ends_seesValue.ifSeen (ends_value.map _).weaken (ends_pure _)

theorem ends_assignment : Ends true 3 n assignment Grammar.assignment := by
  refine .called (by decide) <| ends_identifier.before fun target => (ends_word _).before fun _ =>
    ends_expression.bind (b := true) fun value => ?_
  cases value with
  | none => exact ends_stuck _
  | some value => exact ((ends_word _).map _).mono (by decide)

theorem ends_comparison : Ends true 4 n comparison Grammar.comparison :=
  .called (by decide) <| ends_value.before fun _ => (ends_leaf _).before fun _ => ends_value.map _

theorem ends_condition : Ends true 5 n condition Grammar.condition :=
  .called (by decide) <| ends_comparison.before fun _ => (ends_sees _).ifSeen
    ((ends_leaf _).before fun _ => ends_comparison.map _).weaken (ends_pure _)

theorem ends_giveBack : Ends true 1 n giveBack Grammar.giveBack :=
  .called (by decide) <| (ends_word _).before fun _ => ends_expression.bind fun _ =>
    ((ends_word _).map _).mono (by decide)

/-! ### Instructions and blocks -/

theorem ends_seesInstruction :
    Ends false u n (looks startsInstruction) Grammar.seesInstruction := by
  refine ends_looks Grammar.looks_instruction fun t => ?_
  simp [startsInstruction, Terminal.recognizes]

section

variable {block block' : Descent Block} (h : EndAlike true 5 n block block' Grammar.block)
include h

theorem endAlike_enclosed :
    EndAlike true 0 n (enclosed block) (enclosed block') (Grammar.enclosed Grammar.block) :=
  (ends_word _).before fun _ => h.before fun _ => (ends_word _).map _

theorem endAlike_loop :
    EndAlike true 1 (n + 1) (loop block) (loop block') (Grammar.loop Grammar.block) :=
  .called (by decide) <| (ends_word _).after fun _ => (ends_word _).before fun _ =>
    h.before fun _ => (ends_word _).before fun _ => (ends_word _).before fun _ =>
    ends_condition.before fun _ => (ends_word _).before fun _ => (ends_word _).map _

theorem endAlike_branch :
    EndAlike true 1 (n + 1) (branch block) (branch block') Grammar.branch :=
  .called (by decide) <| (ends_word _).after fun _ => (ends_word _).before fun _ =>
    ends_condition.before fun _ => (ends_word _).before fun _ => (endAlike_enclosed h).map _

theorem endAlike_otherBranch :
    EndAlike true 1 (n + 1) (otherBranch block) (otherBranch block') Grammar.otherBranch :=
  .called (by decide) <| (ends_word _).after fun _ => (endAlike_enclosed h).map _

theorem endAlike_conditional : EndAlike true 2 (n + 1) (conditional block) (conditional block')
    (Grammar.conditional Grammar.block) := by
  rw [Grammar.conditional_eq]
  exact .called (by decide) <| (endAlike_branch h).before fun _ => (ends_sees _).ifSeen
    ((endAlike_otherBranch h).map _).weaken (ends_pure _)

theorem endAlike_instruction : EndAlike true 4 (n + 1) (instruction block) (instruction block')
    (Grammar.instruction Grammar.block) :=
  .called (by decide) <| (ends_sees _).ifSeen (ends_assignment.map _) <|
    (ends_sees _).ifSeen ((endAlike_loop h).mono (by decide)) <|
    (ends_sees _).ifSeen ((endAlike_conditional h).mono (by decide)) <|
    (ends_sees _).ifSeen (ends_giveBack.mono (by decide)) (ends_stuck _)

theorem endAlike_instructions :
    EndAlike false 4 (n + 1) (instructions block) (instructions block') Grammar.instructions :=
  endAlike_many Grammar.instructions_eq (fun _ => ends_seesInstruction) (endAlike_instruction h)

end

/-- A block inside another one has fewer tokens left. -/
theorem endAlike_blockWithin {k k' : Nat} (hk : n ≤ k) (hk' : n ≤ k') :
    EndAlike true 5 n (blockWithin k) (blockWithin k') Grammar.block := by
  induction n generalizing k k' with
  | zero => exact endAlike_zero
  | succ n ih =>
    obtain ⟨k, rfl⟩ : ∃ i, k = i + 1 := Nat.exists_eq_succ_of_ne_zero (Nat.ne_zero_of_lt hk)
    obtain ⟨k', rfl⟩ : ∃ i, k' = i + 1 := Nat.exists_eq_succ_of_ne_zero (Nat.ne_zero_of_lt hk')
    have inside := ih (Nat.le_of_succ_le_succ hk) (Nat.le_of_succ_le_succ hk')
    rw [blockWithin, blockWithin, Grammar.block_eq_ofList]
    exact .called (by decide) <| (endAlike_instruction inside).before fun _ =>
      (endAlike_instructions inside).map _

theorem ends_block : Ends true 5 n block Grammar.block := by
  intro tokens limit limit' s _ hl hl'
  exact endAlike_blockWithin hl hl' tokens limit limit' s (Nat.lt_succ_self _) hl hl'

/-! ### Programs -/

theorem ends_function : Ends true 1 n function Grammar.function :=
  .called (by decide) <| (ends_word _).before fun _ => ends_identifier.before fun _ =>
    (ends_bracketed ends_parameters).before fun _ => (endAlike_enclosed ends_block).map _

theorem ends_entryPoint : Ends true 1 n entryPoint Grammar.entryPoint :=
  .called (by decide) <| (ends_word _).before fun _ => (ends_word _).before fun _ =>
    (ends_word _).before fun _ => (endAlike_enclosed ends_block).map _

theorem ends_assignments : Ends false 3 n assignments
    (Reader.many (Reader.sees (.kind .identifier)) Grammar.assignment) :=
  ends_items _ (fun _ _ _ => Grammar.alike_assignment) ends_assignment

theorem ends_functions : Ends false 1 n functions
    (Reader.many (Reader.sees (.word "POV")) Grammar.function) :=
  ends_items _ (fun _ _ _ => Grammar.alike_function) ends_function

theorem ends_topLevel : Ends true 3 n topLevel Grammar.program :=
  ends_assignments.bind fun _ => (ends_functions.mono (by decide)).bind fun _ =>
    (ends_entryPoint.map _).mono (by decide)

end

end Descent

end Mamuth
