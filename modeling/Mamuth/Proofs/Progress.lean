-- Every reader comes to an end, from wherever it starts: with any limit beyond the number of tokens
-- left it is not cut off, and the end does not depend on the limit. One that gives a result has
-- taken a token at least, one that fails stands at the token of its error, and the number of calls
-- is at most five for each token that was left, and five more.
import Mamuth.Proofs.Descent
import Mamuth.Proofs.ViablePrefixes

namespace Mamuth

/-- How a reader ends on the tokens left: with its result or an error, and with tokens not taken. -/
def Reader.ending (r : Reader α) (tokens left : List Token) : Except SyntaxError α × List Token :=
  match r Terminal.recognizes left with
  | .ok (x, rest) => (.ok x, rest)
  | .error stuck => (.error (.ofStuck tokens stuck), stuck.rest)

/-- How the reading of a program ends, for which no tokens may be left. -/
def Program.ending (tokens left : List Token) : Except SyntaxError Program × List Token :=
  match Grammar.program.ending tokens left with
  | (.ok _, found :: rest) => (.error (.trailing found), found :: rest)
  | ended => ended

theorem Program.ending_self (tokens : List Token) :
    (ending tokens tokens).1 = ofTokens tokens := by
  rw [ending, Reader.ending, ofTokens, Program.read]
  rcases Grammar.program Terminal.recognizes tokens with
    stuck | ⟨program, _ | ⟨found, rest⟩⟩ <;> rfl

theorem SyntaxError.found?_ofStuck (tokens : List Token) :
    (stuck : Stuck) → (ofStuck tokens stuck).found? = stuck.rest.head?
  | ⟨_, _ :: _⟩ => rfl
  | ⟨_, []⟩ => rfl

namespace Descent

/-- How far a reader has come in the tokens, and after how many calls. If `a` holds, a reader that
gives a result takes a token. -/
structure Progress (a : Bool) (tokens : Array Token) (s : State) (outcome : Except SyntaxError α)
    (s' : State) : Prop where
  forward : s.index ≤ s'.index
  inside : s'.index ≤ max s.index tokens.size
  taken : ∀ x, outcome = .ok x → a → s.index < s'.index ∧ s'.index ≤ tokens.size
  offending : ∀ e, outcome = .error e → e.found? = tokens[s'.index]?
  calls : s'.calls ≤ s.calls + 5 * (tokens.size - s.index + 1)

variable {a : Bool} {u : Nat} {tokens : Array Token} {s : State}

/-- From the count for the tokens that are taken to one for the tokens that are left. -/
theorem Ended.progress {ended : Except Stuck (α × List Token)} {outcome : Except SyntaxError α}
    {s' : State} (h : Ended a u tokens s ended outcome s') : Progress a tokens s outcome s' := by
  cases h with
  | ok takes forward inside calls =>
    refine ⟨forward, inside, fun _ _ ha => ?_, nofun, ?_⟩
    · have := takes ha
      omega
    · split at calls <;> omega
  | error forward inside calls =>
    refine ⟨forward, inside, nofun, ?_, by omega⟩
    rintro _ ⟨⟩
    rw [SyntaxError.found?_ofStuck, List.head?_drop, Array.getElem?_toList]

/-- A reader comes to an end after finitely many turns, with one outcome for all limits beyond the
tokens left and with the tokens that are left then. -/
def Comes (a : Bool) (c : Descent α)
    (ending : (tokens left : List Token) → Except SyntaxError α × List Token)
    (tokens : Array Token) (s : State) : Prop :=
  ∃ outcome s',
    (∀ limit, tokens.size - s.index < limit → c ⟨tokens, limit⟩ s = some (outcome, s')) ∧
    (outcome, tokens.toList.drop s'.index) = ending tokens.toList (tokens.toList.drop s.index) ∧
    Progress a tokens s outcome s'

theorem EndAlike.comes {c : Descent α} {r : Reader α} (h : ∀ n, Ends a u (n + 1) c r) :
    Comes a c r.ending tokens s := by
  have enough := Nat.lt_succ_self (tokens.size - s.index)
  obtain ⟨outcome, s', hc, -, ends⟩ := h _ tokens _ _ s enough enough enough
  refine ⟨outcome, s', fun limit hl => ?_, ?_, ends.progress⟩
  · obtain ⟨_, _, hc', same, -⟩ := h _ tokens _ limit s enough enough hl
    rw [same, ← hc', hc]
  · rw [Reader.ending]
    generalize r Terminal.recognizes (tokens.toList.drop s.index) = result at ends
    cases ends <;> rfl

/-- The end of a program is where its constructs end, and fails if a token stands there. -/
theorem comes_program : Comes true program Program.ending tokens s := by
  have constructs : Comes true (do called; topLevel) Grammar.program.ending tokens s :=
    EndAlike.comes fun _ => ends_topLevel.called (by decide)
  obtain ⟨outcome, s', hc, ended, far⟩ := constructs
  have parts : program = (do called; topLevel) >>= complete := by rw [program, bind_assoc]
  rw [Comes, Program.ending, ← ended]
  cases outcome with
  | error e => exact ⟨_, s', fun limit hl => by rw [parts, bind_apply, hc limit hl], rfl, far⟩
  | ok p =>
    have behind (limit : Nat) (hl : tokens.size - s.index < limit) :
        program ⟨tokens, limit⟩ s = complete p ⟨tokens, limit⟩ s' := by
      rw [parts, bind_apply, hc limit hl]
    simp only [complete, current_bind] at behind
    rcases Cursor.next_or_end tokens s'.index with ⟨t, ht, -, hd⟩ | ⟨ht, hd⟩
    · simp only [ht] at behind
      refine ⟨_, s', behind, by rw [hd], far.forward, far.inside, nofun, ?_, far.calls⟩
      rintro _ ⟨⟩
      exact ht.symm
    · simp only [ht] at behind
      rw [hd]
      exact ⟨_, s', behind, by rw [hd], far⟩

/-- The whole of the tokens is read as by the readers of lists. -/
theorem program_start (tokens : Array Token) {limit : Nat} (hl : tokens.size < limit) :
    ∃ s', program ⟨tokens, limit⟩ ⟨0, 0⟩ = some (Program.ofTokens tokens.toList, s') ∧
      s'.calls ≤ 5 * (tokens.size + 1) := by
  obtain ⟨outcome, s', hc, ended, far⟩ : Comes true program Program.ending tokens ⟨0, 0⟩ :=
    comes_program
  have same : outcome = Program.ofTokens tokens.toList := by
    rw [← Program.ending_self]
    exact congrArg Prod.fst ended
  exact ⟨s', same ▸ hc limit hl, by simpa using far.calls⟩

/-! ## All readers at once -/

/-- The readers with a method of their own, for which `a` holds, and the loops in them. -/
inductive Routine : (a : Bool) → Type → Type
  | program : Routine true Program
  | assignment : Routine true Assignment
  | invocation : Routine true Invocation
  | function : Routine true Function
  | entryPoint : Routine true EntryPoint
  | parameters : Routine true (List Leaf)
  | arguments : Routine true (List Value)
  | block : Routine true Block
  | instruction : Routine true Instruction
  | loop : Routine true Instruction
  | conditional : Routine true Instruction
  | branch : Routine true (Position × Condition × Block)
  | otherBranch : Routine true (Position × Block)
  | condition : Routine true Condition
  | comparison : Routine true Comparison
  | giveBack : Routine true Instruction
  | math : Routine true Math
  | value : Routine true Value
  | literal : Routine true Value
  | identifier : Routine true Leaf
  | leaf (kind : Token.Kind) : Routine true Leaf
  | assignments : Routine false (List Assignment)
  | functions : Routine false (List Function)
  | instructions : Routine false (List Instruction)
  | moreParameters : Routine false (List Leaf)
  | moreArguments : Routine false (List Value)
  | operators : Routine false (List (Leaf × Value))

/-- The routine by recursive descent. -/
def Routine.run : Routine a α → Descent α
  | program => Descent.program
  | assignment => Descent.assignment
  | invocation => Descent.invocation
  | function => Descent.function
  | entryPoint => Descent.entryPoint
  | parameters => Descent.parameters
  | arguments => Descent.arguments
  | block => Descent.block
  | instruction => Descent.instruction Descent.block
  | loop => Descent.loop Descent.block
  | conditional => Descent.conditional Descent.block
  | branch => Descent.branch Descent.block
  | otherBranch => Descent.otherBranch Descent.block
  | condition => Descent.condition
  | comparison => Descent.comparison
  | giveBack => Descent.giveBack
  | math => Descent.math
  | value => Descent.value
  | literal => Descent.literal
  | identifier => Descent.identifier
  | leaf kind => Descent.leaf kind
  | assignments => Descent.assignments
  | functions => Descent.functions
  | instructions => Descent.instructions Descent.block
  | moreParameters => Descent.moreItems Descent.identifier
  | moreArguments => Descent.moreItems Descent.value
  | operators => Descent.operators

/-- How the routine ends with the readers of lists. -/
def Routine.ending : Routine a α → (tokens left : List Token) → Except SyntaxError α × List Token
  | program => Program.ending
  | assignment => Grammar.assignment.ending
  | invocation => Grammar.invocation.ending
  | function => Grammar.function.ending
  | entryPoint => Grammar.entryPoint.ending
  | parameters => (Grammar.commaSeparated (Grammar.leaf .identifier)).ending
  | arguments => (Grammar.commaSeparated Grammar.value).ending
  | block => Grammar.block.ending
  | instruction => (Grammar.instruction Grammar.block).ending
  | loop => (Grammar.loop Grammar.block).ending
  | conditional => (Grammar.conditional Grammar.block).ending
  | branch => Grammar.branch.ending
  | otherBranch => Grammar.otherBranch.ending
  | condition => Grammar.condition.ending
  | comparison => Grammar.comparison.ending
  | giveBack => Grammar.giveBack.ending
  | math => Grammar.math.ending
  | value => Grammar.value.ending
  | literal => Grammar.literal.ending
  | identifier => (Grammar.leaf .identifier).ending
  | leaf kind => (Grammar.leaf kind).ending
  | assignments => (Reader.many (Reader.sees (.kind .identifier)) Grammar.assignment).ending
  | functions => (Reader.many (Reader.sees (.word "POV")) Grammar.function).ending
  | instructions => Grammar.instructions.ending
  | moreParameters => (Grammar.moreItems (Grammar.leaf .identifier)).ending
  | moreArguments => (Grammar.moreItems Grammar.value).ending
  | operators => Grammar.operators.ending

/-- Every reader and every loop of one comes to an end on all tokens and from every index, also
where no token is left, and ends as the reader of lists does. -/
theorem Routine.run_progress (routine : Routine a α) (tokens : Array Token) (s : State) :
    Comes a routine.run routine.ending tokens s := by
  cases routine with
  | program => exact comes_program
  | assignment => exact EndAlike.comes (fun _ => ends_assignment)
  | invocation => exact EndAlike.comes (fun _ => ends_invocation)
  | function => exact EndAlike.comes (fun _ => ends_function)
  | entryPoint => exact EndAlike.comes (fun _ => ends_entryPoint)
  | parameters => exact EndAlike.comes (fun _ => ends_parameters)
  | arguments => exact EndAlike.comes (fun _ => ends_arguments)
  | block => exact EndAlike.comes (fun _ => ends_block)
  | instruction => exact EndAlike.comes (fun _ => endAlike_instruction ends_block)
  | loop => exact EndAlike.comes (fun _ => endAlike_loop ends_block)
  | conditional => exact EndAlike.comes (fun _ => endAlike_conditional ends_block)
  | branch => exact EndAlike.comes (fun _ => endAlike_branch ends_block)
  | otherBranch => exact EndAlike.comes (fun _ => endAlike_otherBranch ends_block)
  | condition => exact EndAlike.comes (fun _ => ends_condition)
  | comparison => exact EndAlike.comes (fun _ => ends_comparison)
  | giveBack => exact EndAlike.comes (fun _ => ends_giveBack)
  | math => exact EndAlike.comes (fun _ => ends_math)
  | value => exact EndAlike.comes (fun _ => ends_value)
  | literal => exact EndAlike.comes (fun _ => ends_literal)
  | identifier => exact EndAlike.comes (fun _ => ends_identifier)
  | leaf kind => exact EndAlike.comes (fun _ => ends_leaf kind)
  | assignments => exact EndAlike.comes (fun _ => ends_assignments)
  | functions => exact EndAlike.comes (fun _ => ends_functions)
  | instructions => exact EndAlike.comes (fun _ => endAlike_instructions ends_block)
  | moreParameters =>
    exact EndAlike.comes
      (fun _ => ends_moreItems (fun _ _ _ => Grammar.alike_leaf _) ends_identifier)
  | moreArguments =>
    exact EndAlike.comes (fun _ => ends_moreItems (fun _ _ _ => Grammar.alike_value) ends_value)
  | operators => exact EndAlike.comes (fun _ => ends_operators)

end Descent

end Mamuth
