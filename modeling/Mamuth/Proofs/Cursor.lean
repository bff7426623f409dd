-- The grammar read with an index into an array of tokens. Here a token is taken by its index, and
-- an index beyond the end has no outcome at all; neither has a loop that makes more turns than
-- there are tokens. Both never happen: the readers with an index do what those of lists do.
import Mamuth.Proofs.ReadAhead

namespace Mamuth

/-- What reading a program leaves: the tokens behind it, or those from the one on that keeps them
from being a program. -/
def Program.leftover (tokens : List Token) : List Token :=
  match Grammar.program Terminal.recognizes tokens with
  | .ok (_, rest) => rest
  | .error stuck => stuck.rest

/-- Reads tokens of an array, the next of them at an index. An error leaves the index where it
is. Some readers have no outcome, because they use an index that is out of bounds. -/
abbrev Cursor := ReaderT (Array Token) (ExceptT SyntaxError (StateT Nat Option))

namespace Cursor

/-! ## Steps -/

/-- No outcome. -/
def broken : Cursor α := fun _ _ => none

/-- The next token, if there is one. -/
def current : Cursor (Option Token) := fun tokens i => some (.ok tokens[i]?, i)

/-- The token at the index, without a look whether there is one. -/
def atIndex : Cursor Token := fun tokens i => tokens[i]?.map fun token => (.ok token, i)

def advance : Cursor Token := do
  let token ← atIndex
  modify (· + 1)
  return token

/-- Stops where the tokens end, with the position of the last one. -/
def endOfInput (expected : Expected) : Cursor α := do
  let last := (← current).or (← read).back?
  throw (.endOfInput expected ((last.map (·.position)).getD .start))

/-- Stops at the next token, or where the tokens end. -/
def stuck (expected : Expected) : Cursor α := do
  match ← current with
  | some _ => throw (.unexpected expected (← atIndex))
  | none => endOfInput expected

/-- Whether there is a next token that passes the test. -/
def looks (test : Token → Bool) : Cursor Bool := return (← current).any test

/-- Whether the next token counts as the terminal. -/
def sees (terminal : Terminal) : Cursor Bool := looks terminal.recognizes

/-- Takes the next token, which has to be the terminal. -/
def take (terminal : Terminal) : Cursor Token := do
  match ← current with
  | some token =>
    if terminal.recognizes token then advance
    else throw (.unexpected (.terminal terminal) token)
  | none => endOfInput (.terminal terminal)

def word (text : String) : Cursor Position := return (← take (.word text)).position

def leaf (kind : Token.Kind) : Cursor Leaf := do
  let token ← take (.kind kind)
  return ⟨token.lexeme, token.position⟩

/-- Items for as long as one is in sight, in fewer than `n` turns. -/
def manyWithin (sees : Cursor Bool) (item : Cursor α) : (n : Nat) → Cursor (List α)
  | 0 => broken
  | n + 1 => do if ← sees then return (← item) :: (← manyWithin sees item n) else return []

def many (sees : Cursor Bool) (item : Cursor α) : Cursor (List α) := do
  manyWithin sees item ((← read).size + 1)

/-! ## Constructs -/

def currentKind : Cursor (Option Token.Kind) := return (← current).map Token.kind

def value : Cursor Value := do
  match ← currentKind with
  | some .identifier => return .identifier (← leaf .identifier)
  | some .integer => return .literal .integer (← leaf .integer)
  | some .float => return .literal .float (← leaf .float)
  | some .boolean => return .literal .boolean (← leaf .boolean)
  | some .text => return .literal .text (← leaf .text)
  | _ => stuck (.construct .value)

def math : Cursor Math := do
  let position ← word "#"
  let first ← value
  let rest ← many (sees (.kind .operator)) do return (← leaf .operator, ← value)
  let _ ← word "#"
  return { position, first, rest }

def commaSeparated (item : Cursor α) : Cursor (List α) := do
  let first ← item
  let rest ← many (sees (.word ",")) do
    let _ ← word ","
    item
  return first :: rest

def itemsBeforeBracket (item : Cursor α) : Cursor (List α) := do
  if ← looks (!Terminal.recognizes (.word ")") ·) then commaSeparated item else return []

def bracketed (item : Cursor α) : Cursor (List α) := do
  let _ ← word "("
  let items ← itemsBeforeBracket item
  let _ ← word ")"
  return items

def invocation : Cursor Invocation := do
  let position ← word "jutsu"
  let callee ← leaf .identifier
  let arguments ← bracketed value
  return { position, callee, arguments }

def expression? : Cursor (Option Expression) := do
  match ← current with
  | some token =>
    if token.lexeme = "#" then return some (.math (← math))
    else if token.kind = .invocation then return some (.invocation (← invocation))
    else if token.kind.isValue then return some (.value (← value))
    else return none
  | none => return none

def assignment : Cursor Assignment := do
  let target ← leaf .identifier
  let _ ← word "anotado"
  let some value ← expression? | stuck (.construct .expression)
  let _ ← word "."
  return { target, value }

def comparison : Cursor Comparison := do
  let left ← value
  let comparator ← leaf .comparator
  let right ← value
  return { left, comparator, right }

def condition : Cursor Condition := do
  let first ← comparison
  if ← sees (.kind .logicalOperator) then
    let operator ← leaf .logicalOperator
    return { first, second := some (operator, ← comparison) }
  else return { first, second := none }

def enclosed (block : Cursor Block) : Cursor Block := do
  let _ ← word "xD"
  let body ← block
  let _ ← word "v:"
  return body

def loop (block : Cursor Block) : Cursor Instruction := do
  let position ← word "whenCuando"
  let _ ← word "xD"
  let body ← block
  let _ ← word "but"
  let _ ← word "("
  let condition ← condition
  let _ ← word ")"
  let _ ← word "v:"
  return .loop position body condition

def conditional (block : Cursor Block) : Cursor Instruction := do
  let position ← word "siuuu"
  let _ ← word "("
  let condition ← condition
  let _ ← word ")"
  let body ← enclosed block
  if ← sees (.word "nimodo") then
    let otherPosition ← word "nimodo"
    return .branches position condition body otherPosition (← enclosed block)
  else return .branch position condition body

def giveBack : Cursor Instruction := do
  let position ← word "messirve"
  let value ← expression?
  let _ ← word "."
  return .return position value

def instruction (block : Cursor Block) : Cursor Instruction := do
  if ← sees (.kind .identifier) then return .assignment (← assignment)
  else if ← sees (.word "whenCuando") then loop block
  else if ← sees (.word "siuuu") then conditional block
  else if ← sees (.word "messirve") then giveBack
  else stuck (.construct .instruction)

def startsInstruction (token : Token) : Bool :=
  token.kind = .identifier || token.lexeme ∈ ["whenCuando", "siuuu", "messirve"]

/-- A block, in fewer than `n` instructions. -/
def blockWithin : (n : Nat) → Cursor Block
  | 0 => broken
  | n + 1 => do
    let first ← instruction (blockWithin n)
    if ← looks startsInstruction then return .more first (← blockWithin n)
    else return .last first

def block : Cursor Block := do blockWithin ((← read).size + 1)

def function : Cursor Function := do
  let position ← word "POV"
  let name ← leaf .identifier
  let parameters ← bracketed (leaf .identifier)
  let body ← enclosed block
  return { position, name, parameters, body }

def entryPoint : Cursor EntryPoint := do
  let position ← word "maracuya"
  let _ ← word "("
  let _ ← word ")"
  let body ← enclosed block
  return { position, body }

def constructs : Cursor Program := do
  let assignments ← many (sees (.kind .identifier)) assignment
  let functions ← many (sees (.word "POV")) function
  let main ← entryPoint
  return { assignments, functions, main }

/-- A whole program, after which the tokens have to end. -/
def program : Cursor Program := do
  let program ← constructs
  match ← current with
  | some token => throw (.trailing token)
  | none => return program

/-- The outcome for a list of tokens, from the first of them on. -/
def parse? (tokens : List Token) : Option (Except SyntaxError Program) :=
  (program tokens.toArray 0).map (·.1)

/-! ## Readers with an index and readers of lists -/

/-- Both readers end alike, for the tokens from an index on: with the same result, or stuck for
the same reason. The tokens that are left are those from the new index on, which is not beyond the
end. If `a` holds, a reader that gives a result takes a token. -/
def SameEnd (a : Bool) (tokens : Array Token) (i : Nat) :
    Except Stuck (α × List Token) → Option (Except SyntaxError α × Nat) → Prop
  | .ok (x, rest), some (.ok y, j) =>
    x = y ∧ (a → i < j) ∧ i ≤ j ∧ j ≤ tokens.size ∧ rest = tokens.toList.drop j
  | .error stuck, some (.error e, j) =>
    e = .ofStuck tokens.toList stuck ∧ i ≤ j ∧ j ≤ tokens.size ∧ stuck.rest = tokens.toList.drop j
  | _, _ => False

/-- Wherever fewer than `n` tokens are left, both readers end alike. -/
def Refines (a : Bool) (n : Nat) (c : Cursor α) (r : Reader α) : Prop :=
  ∀ (tokens : Array Token) (i : Nat), i ≤ tokens.size → tokens.size - i < n →
    SameEnd a tokens i (r Terminal.recognizes (tokens.toList.drop i)) (c tokens i)

theorem bind_apply (c : Cursor α) (f : α → Cursor β) (tokens : Array Token) (i : Nat) :
    (c >>= f) tokens i = match c tokens i with
      | some (.ok x, j) => f x tokens j
      | some (.error e, j) => some (.error e, j)
      | none => none := by
  show (c tokens i).bind (fun p => ExceptT.bindCont (fun x => f x tokens) p.1 p.2) = _
  rcases c tokens i with _ | ⟨_ | _, _⟩ <;> rfl

/-! ### Steps -/

section

variable {a b : Bool} {n : Nat}

theorem refines_pure (x : α) : Refines false n (pure x) (pure x) :=
  fun _ i hi _ => ⟨rfl, nofun, Nat.le_refl i, hi, rfl⟩

theorem Refines.weaken {c : Cursor α} {r : Reader α} (h : Refines a n c r) :
    Refines false n c r := by
  intro tokens i hi hn
  have same := h tokens i hi hn
  rcases hr : r Terminal.recognizes (tokens.toList.drop i) with stuck | ⟨x, rest⟩ <;>
    rcases hc : c tokens i with _ | ⟨_ | y, j⟩ <;> rw [hr, hc] at same <;>
    first
    | exact same
    | exact ⟨same.1, nofun, same.2.2⟩

/-- The second part has at most as many tokens as the first one leaves. -/
theorem Refines.andThen {c : Cursor α} {r : Reader α} {f : α → Cursor β} {g : α → Reader β}
    {m : Nat} (h : Refines a n c r) (hf : ∀ x, Refines b m (f x) (g x))
    (hm : ∀ left left' : Nat, left < n → left' ≤ left → (a → left' < left) → left' < m) :
    Refines (a || b) n (c >>= f) (r >>= g) := by
  intro tokens i hi hn
  have one := h tokens i hi hn
  rw [bind_apply, Reader.bind_apply]
  rcases hr : r Terminal.recognizes (tokens.toList.drop i) with stuck | ⟨x, rest⟩ <;>
    rcases hc : c tokens i with _ | ⟨_ | y, j⟩ <;> rw [hr, hc] at one
  case error.some.error => exact one
  case ok.some.ok =>
    obtain ⟨rfl, takes, hij, hj, rfl⟩ := one
    have fewer : tokens.size - j < m := by
      refine hm _ _ hn (Nat.sub_le_sub_left hij _) fun ha => ?_
      have := takes ha
      omega
    have more := hf x tokens j hj fewer
    dsimp only
    rcases hg : g x Terminal.recognizes (tokens.toList.drop j) with stuck | ⟨z, rest⟩ <;>
      rcases hd : f x tokens j with _ | ⟨_ | w, k⟩ <;> rw [hg, hd] at more
    case error.some.error => exact ⟨more.1, Nat.le_trans hij more.2.1, more.2.2⟩
    case ok.some.ok =>
      refine ⟨more.1, fun hab => ?_, Nat.le_trans hij more.2.2.1, more.2.2.2⟩
      rcases (Bool.or_eq_true _ _).mp hab with ha | hb
      · exact Nat.lt_of_lt_of_le (takes ha) more.2.2.1
      · exact Nat.lt_of_le_of_lt hij (more.2.1 hb)
    all_goals exact more.elim
  all_goals exact one.elim

theorem Refines.bind {c : Cursor α} {r : Reader α} {f : α → Cursor β} {g : α → Reader β}
    (h : Refines a n c r) (hf : ∀ x, Refines b n (f x) (g x)) :
    Refines (a || b) n (c >>= f) (r >>= g) :=
  h.andThen hf fun _ _ hl hle _ => Nat.lt_of_le_of_lt hle hl

/-- What comes after a part that takes a token has fewer tokens. -/
theorem Refines.after {c : Cursor α} {r : Reader α} {f : α → Cursor β} {g : α → Reader β}
    (h : Refines true (n + 1) c r) (hf : ∀ x, Refines b n (f x) (g x)) :
    Refines true (n + 1) (c >>= f) (r >>= g) :=
  h.andThen hf fun _ _ hl _ takes => Nat.lt_of_lt_of_le (takes rfl) (Nat.le_of_lt_succ hl)

theorem Refines.ifSeen {cs : Cursor Bool} {rs : Reader Bool} {c d : Cursor α} {r s : Reader α}
    (looks : Refines false n cs rs) (h : Refines a n c r) (h' : Refines a n d s) :
    Refines a n (do if ← cs then c else d) (do if ← rs then r else s) := by
  refine looks.bind fun seen => ?_
  cases seen
  · exact h'
  · exact h

/-! ### Looking and taking -/

/-- At an index stands the next token; behind the last one there is none. -/
theorem next_or_end (tokens : Array Token) (i : Nat) :
    (∃ t, tokens[i]? = some t ∧ i < tokens.size ∧
      tokens.toList.drop i = t :: tokens.toList.drop (i + 1)) ∨
    tokens[i]? = none ∧ tokens.toList.drop i = [] := by
  rcases Nat.lt_or_ge i tokens.size with h | h
  · exact .inl ⟨tokens[i], Array.getElem?_eq_getElem h, h, by
      rw [← List.getElem_cons_drop (by simpa using h), Array.getElem_toList]⟩
  · exact .inr ⟨by simpa using h, by simpa using h⟩

theorem looks_bind (test : Token → Bool) (f : Bool → Cursor α) (tokens : Array Token) (i : Nat) :
    (looks test >>= f) tokens i = f (tokens[i]?.any test) tokens i := rfl

theorem looks_ite {tokens : Array Token} {i : Nat} {t : Token} (ht : tokens[i]? = some t)
    (test : Token → Bool) (c d : Cursor α) :
    (do if ← looks test then c else d) tokens i =
      if test t then c tokens i else d tokens i := by
  rw [looks_bind, ht, Option.any_some]
  cases test t <;> rfl

theorem current_bind (f : Option Token → Cursor α) (tokens : Array Token) (i : Nat) :
    (current >>= f) tokens i = f tokens[i]? tokens i := rfl

theorem currentKind_bind (f : Option Token.Kind → Cursor α) (tokens : Array Token) (i : Nat) :
    (currentKind >>= f) tokens i = f (tokens[i]?.map Token.kind) tokens i := rfl

/-- Both look for the same terminals. -/
theorem refines_looks {test : Token → Bool} {sees : Reader Bool} {xs : List Terminal}
    (h : Looks sees xs) (ht : ∀ t, test t = xs.any fun x => x.recognizes t) :
    Refines false n (looks test) sees := by
  intro tokens i hi _
  have seen : tokens[i]?.any test =
      (tokens.toList.drop i).head?.any fun t => xs.any fun x => x.recognizes t := by
    rw [List.head?_drop, Array.getElem?_toList, funext ht]
  rw [h, ← seen]
  exact ⟨rfl, nofun, Nat.le_refl i, hi, rfl⟩

theorem refines_sees (x : Terminal) : Refines false n (sees x) (Reader.sees x) :=
  refines_looks (looks_sees x) fun t => by simp

theorem advance_eq {tokens : Array Token} {i : Nat} {t : Token} (ht : tokens[i]? = some t) :
    advance tokens i = some (.ok t, i + 1) := by
  rw [advance, bind_apply, atIndex, ht]
  rfl

theorem endOfInput_eq {tokens : Array Token} {i : Nat} (ht : tokens[i]? = none)
    (expected : Expected) : (endOfInput expected : Cursor α) tokens i =
      some (.error (.ofStuck tokens.toList ⟨expected, []⟩), i) := by
  rw [endOfInput, bind_apply, current, ht, SyntaxError.ofStuck, Array.getLast?_toList]
  rfl

theorem refines_take (x : Terminal) : Refines true n (take x) (Reader.take x) := by
  intro tokens i hi _
  rcases next_or_end tokens i with ⟨t, ht, hlt, hd⟩ | ⟨ht, hd⟩
  · rw [take, bind_apply, current, ht, hd, Reader.take]
    dsimp only
    split
    · rw [advance_eq ht]
      exact ⟨rfl, fun _ => Nat.lt_succ_self i, Nat.le_succ i, hlt, rfl⟩
    · exact ⟨rfl, Nat.le_refl i, hi, hd.symm⟩
  · rw [take, bind_apply, current, ht, hd, Reader.take]
    dsimp only
    rw [endOfInput_eq ht]
    exact ⟨rfl, Nat.le_refl i, hi, hd.symm⟩

theorem refines_stuck (expected : Expected) :
    Refines a n (stuck expected : Cursor α) (Reader.stuck expected) := by
  intro tokens i hi _
  rcases next_or_end tokens i with ⟨t, ht, hlt, hd⟩ | ⟨ht, hd⟩
  · rw [stuck, bind_apply, current, ht, hd, Reader.stuck]
    dsimp only
    rw [bind_apply, atIndex, ht]
    exact ⟨rfl, Nat.le_refl i, hi, hd.symm⟩
  · rw [stuck, bind_apply, current, ht, hd, Reader.stuck]
    dsimp only
    rw [endOfInput_eq ht]
    exact ⟨rfl, Nat.le_refl i, hi, hd.symm⟩

/-! ### Turns -/

theorem refines_zero {c : Cursor α} {r : Reader α} : Refines a 0 c r :=
  fun _ _ _ hn => absurd hn (Nat.not_lt_zero _)

/-- A bound above the number of tokens is never met, and the one of the reader of lists neither
if it is not below that number. -/
theorem refines_bounded {C : Nat → Cursor α} {F : Nat → Reader α}
    (h : ∀ n N m, n ≤ N → n ≤ m + 1 → Refines a n (C N) (F m)) :
    Refines a n (do C ((← read).size + 1)) (do F (← Reader.left)) := by
  intro tokens i hi _
  have left : (tokens.toList.drop i).length = tokens.size - i := by simp
  refine h (tokens.size - i + 1) (tokens.size + 1) (tokens.toList.drop i).length ?_ ?_ tokens i hi
    (Nat.lt_succ_self _)
  · omega
  · omega

theorem refines_many {item : Cursor α} {item' : Reader α} (x : Terminal)
    (h : ∀ n, Refines true n item item') :
    Refines false n (many (sees x) item) (Reader.many (Reader.sees x) item') := by
  refine refines_bounded fun n N m hN hm => ?_
  induction n generalizing N m with
  | zero => exact refines_zero
  | succ n ih =>
    obtain ⟨N, rfl⟩ := Nat.exists_eq_add_of_le' (Nat.le_trans (Nat.le_add_left 1 n) hN)
    cases m with
    | zero =>
      -- Where the tokens end nothing is in sight, within any bound.
      intro tokens i hi hn
      obtain rfl : i = tokens.size := by omega
      rw [manyWithin, sees, looks_bind, Array.getElem?_eq_none (Nat.le_refl _)]
      exact ⟨rfl, nofun, Nat.le_refl _, hi, rfl⟩
    | succ m =>
      have more := (h (n + 1)).after fun y =>
        (ih N m (Nat.le_of_succ_le_succ hN) (Nat.le_of_succ_le_succ hm)).bind fun ys =>
          refines_pure (y :: ys)
      exact (refines_sees x).ifSeen more.weaken (refines_pure [])

theorem refines_word (text : String) : Refines true n (word text) (Reader.word text) :=
  (refines_take _).bind fun t => refines_pure t.position

/-! ### Values and expressions -/

theorem refines_leaf (k : Token.Kind) : Refines true n (leaf k) (Grammar.leaf k) :=
  (refines_take _).bind fun t => refines_pure (Leaf.mk t.lexeme t.position)

theorem value_eq : value = (do
    if ← sees (.kind .identifier) then return .identifier (← leaf .identifier)
    else if ← sees (.kind .integer) then return .literal .integer (← leaf .integer)
    else if ← sees (.kind .float) then return .literal .float (← leaf .float)
    else if ← sees (.kind .boolean) then return .literal .boolean (← leaf .boolean)
    else if ← sees (.kind .text) then return .literal .text (← leaf .text)
    else stuck (.construct .value)) := by
  funext tokens i
  rw [value, currentKind_bind]
  cases ht : tokens[i]? with
  | none => simp [sees, looks_bind, ht]
  | some t => cases hk : t.kind <;> simp [sees, looks_bind, ht, hk, Terminal.recognizes]

theorem refines_value : Refines true n value Grammar.value := by
  have only (k : Token.Kind) (f : Leaf → Value) :
      Refines true n (do return f (← leaf k)) (do return f (← Grammar.leaf k)) :=
    (refines_leaf k).bind fun l => refines_pure (f l)
  rw [value_eq]
  exact (refines_sees _).ifSeen (only _ _) <| (refines_sees _).ifSeen (only _ _) <|
    (refines_sees _).ifSeen (only _ _) <| (refines_sees _).ifSeen (only _ _) <|
    (refines_sees _).ifSeen (only _ _) (refines_stuck _)

theorem refines_math : Refines true n math Grammar.math := by
  have item (n : Nat) : Refines true n (do return (← leaf .operator, ← value))
      (do return (← Grammar.leaf .operator, ← Grammar.value)) :=
    (refines_leaf _).bind fun o => refines_value.bind fun v => refines_pure (o, v)
  exact (refines_word _).bind fun _ => refines_value.bind fun _ =>
    (refines_many _ item).bind fun _ => (refines_word _).bind fun _ => refines_pure _

section

variable {item : Cursor α} {item' : Reader α} (h : ∀ n, Refines true n item item')
include h

theorem refines_commaSeparated :
    Refines true n (commaSeparated item) (Grammar.commaSeparated item') := by
  have more (n : Nat) : Refines true n (do let _ ← word ","; item)
      (do let _ ← Reader.word ","; item') := (refines_word _).bind fun _ => h n
  exact (h n).bind fun _ => (refines_many _ more).bind fun _ => refines_pure _

/-- Where no tokens are left the reader of lists does not look, and there is nothing to see. -/
theorem refines_itemsBeforeBracket :
    Refines false n (itemsBeforeBracket item) (Grammar.itemsBeforeBracket item') := by
  intro tokens i hi hn
  have items := (refines_commaSeparated h).weaken tokens i hi hn
  rw [itemsBeforeBracket, looks_bind]
  rcases next_or_end tokens i with ⟨t, ht, -, hd⟩ | ⟨ht, hd⟩
  · rw [hd] at items ⊢
    rw [ht, Grammar.itemsBeforeBracket_cons, Reader.bind_of_ok (looks_sees _ _), List.head?_cons,
      Option.any_some, Option.any_some, List.any_cons, List.any_nil, Bool.or_false]
    cases Terminal.recognizes (.word ")") t
    · exact items
    · exact ⟨rfl, nofun, Nat.le_refl i, hi, hd.symm⟩
  · rw [ht, hd]
    exact ⟨rfl, nofun, Nat.le_refl i, hi, hd.symm⟩

theorem refines_bracketed : Refines true n (bracketed item) (Grammar.bracketed item') :=
  (refines_word _).bind fun _ => (refines_itemsBeforeBracket h).bind fun _ =>
    (refines_word _).bind fun _ => refines_pure _

end

theorem refines_invocation : Refines true n invocation Grammar.invocation :=
  (refines_word _).bind fun _ => (refines_leaf _).bind fun _ =>
    (refines_bracketed fun _ => refines_value).bind fun _ => refines_pure _

theorem refines_seesValue : Refines false n (looks (·.kind.isValue)) Grammar.seesValue := by
  refine refines_looks Grammar.looks_value fun t => ?_
  cases hk : t.kind <;> simp [hk, Terminal.recognizes, Token.Kind.isValue]

theorem expression?_eq : expression? = (do
    if ← sees (.word "#") then return some (.math (← math))
    else if ← sees (.kind .invocation) then return some (.invocation (← invocation))
    else if ← looks (·.kind.isValue) then return some (.value (← value))
    else return none) := by
  funext tokens i
  rw [expression?, current_bind]
  cases ht : tokens[i]? with
  | none => simp [sees, looks_bind, ht]
  | some t =>
    simp only [sees, looks_ite ht, Terminal.recognizes, decide_eq_true_eq]
    repeat' split
    all_goals rfl

theorem refines_expression : Refines false n expression? Grammar.expression? := by
  rw [expression?_eq]
  exact (refines_sees _).ifSeen (refines_math.bind fun _ => refines_pure _).weaken <|
    (refines_sees _).ifSeen (refines_invocation.bind fun _ => refines_pure _).weaken <|
    refines_seesValue.ifSeen (refines_value.bind fun _ => refines_pure _).weaken (refines_pure _)

theorem refines_assignment : Refines true n assignment Grammar.assignment := by
  refine (refines_leaf _).bind fun target => (refines_word _).bind fun _ =>
    refines_expression.bind (b := true) fun value => ?_
  cases value with
  | none => exact refines_stuck _
  | some value => exact (refines_word _).bind fun _ => refines_pure _

theorem refines_comparison : Refines true n comparison Grammar.comparison :=
  refines_value.bind fun _ => (refines_leaf _).bind fun _ => refines_value.bind fun _ =>
    refines_pure _

theorem refines_condition : Refines true n condition Grammar.condition :=
  refines_comparison.bind fun _ => (refines_sees _).ifSeen
    ((refines_leaf _).bind fun _ => refines_comparison.bind fun _ => refines_pure _).weaken
    (refines_pure _)

/-! ### Instructions and blocks -/

section

variable {block : Cursor Block} {block' : Reader Block} (h : Refines true n block block')
include h

theorem refines_enclosed : Refines true n (enclosed block) (Grammar.enclosed block') :=
  (refines_word _).bind fun _ => h.bind fun _ => (refines_word _).bind fun _ => refines_pure _

theorem refines_loop : Refines true (n + 1) (loop block) (Grammar.loop block') :=
  (refines_word _).after fun _ => (refines_word _).bind fun _ =>
    h.bind fun _ => (refines_word _).bind fun _ => (refines_word _).bind fun _ =>
    refines_condition.bind fun _ => (refines_word _).bind fun _ => (refines_word _).bind fun _ =>
    refines_pure _

theorem refines_conditional :
    Refines true (n + 1) (conditional block) (Grammar.conditional block') :=
  (refines_word _).after fun _ => (refines_word _).bind fun _ =>
    refines_condition.bind fun _ => (refines_word _).bind fun _ =>
    (refines_enclosed h).bind fun _ =>
    (refines_sees _).ifSeen ((refines_word _).bind fun _ => (refines_enclosed h).bind fun _ =>
      refines_pure _).weaken (refines_pure _)

omit h in
theorem refines_giveBack : Refines true n giveBack Grammar.giveBack :=
  (refines_word _).bind fun _ => refines_expression.bind fun _ => (refines_word _).bind fun _ =>
    refines_pure _

theorem refines_instruction :
    Refines true (n + 1) (instruction block) (Grammar.instruction block') :=
  (refines_sees _).ifSeen (refines_assignment.bind fun _ => refines_pure _) <|
    (refines_sees _).ifSeen (refines_loop h) <| (refines_sees _).ifSeen (refines_conditional h) <|
    (refines_sees _).ifSeen refines_giveBack (refines_stuck _)

end

theorem refines_seesInstruction :
    Refines false n (looks startsInstruction) Grammar.seesInstruction := by
  refine refines_looks Grammar.looks_instruction fun t => ?_
  simp [startsInstruction, Terminal.recognizes]

theorem refines_blockWithin {N m : Nat}
    (h : Refines true n (blockWithin N) (Grammar.blockWithin m)) :
    Refines true (n + 1) (blockWithin (N + 1)) (Grammar.blockWithin (m + 1)) :=
  (refines_instruction h).after fun _ => refines_seesInstruction.ifSeen
    (h.bind fun _ => refines_pure _).weaken (refines_pure _)

theorem refines_block : Refines true n block Grammar.block := by
  refine refines_bounded fun n N m hN hm => ?_
  induction n generalizing N m with
  | zero => exact refines_zero
  | succ n ih =>
    obtain ⟨N, rfl⟩ := Nat.exists_eq_add_of_le' (Nat.le_trans (Nat.le_add_left 1 n) hN)
    cases m with
    | zero =>
      -- Where the tokens end a block gets stuck within any bound.
      intro tokens i hi hn
      obtain rfl : i = tokens.size := by omega
      have one := refines_blockWithin (N := N) (m := 0) refines_zero tokens tokens.size hi
        (by omega)
      rw [List.drop_eq_nil_of_le (by simp)] at one ⊢
      exact one
    | succ m =>
      exact refines_blockWithin (ih N m (Nat.le_of_succ_le_succ hN) (Nat.le_of_succ_le_succ hm))

/-! ### Programs -/

theorem refines_function : Refines true n function Grammar.function :=
  (refines_word _).bind fun _ => (refines_leaf _).bind fun _ =>
    (refines_bracketed fun _ => refines_leaf _).bind fun _ =>
    (refines_enclosed refines_block).bind fun _ => refines_pure _

theorem refines_entryPoint : Refines true n entryPoint Grammar.entryPoint :=
  (refines_word _).bind fun _ => (refines_word _).bind fun _ => (refines_word _).bind fun _ =>
    (refines_enclosed refines_block).bind fun _ => refines_pure _

theorem refines_constructs : Refines true n constructs Grammar.program :=
  (refines_many _ fun _ => refines_assignment).bind fun _ =>
    (refines_many _ fun _ => refines_function).bind fun _ =>
    refines_entryPoint.bind fun _ => refines_pure _

end

theorem index_of_drop {tokens : List Token} {j : Nat} (hj : j ≤ tokens.toArray.size) :
    tokens.length - (tokens.toArray.toList.drop j).length = j := by
  rw [List.length_drop, List.toList_toArray]
  rw [List.size_toArray] at hj
  omega

/-- The parser with an index ends as the reader of lists does, at the index of the first token that
is left. -/
theorem program_eq (tokens : List Token) : program tokens.toArray 0 =
    some (Program.ofTokens tokens, tokens.length - (Program.leftover tokens).length) := by
  have same := refines_constructs (n := tokens.length + 1) tokens.toArray 0 (Nat.zero_le _)
    (by simp)
  rw [List.drop_zero] at same
  rw [program, bind_apply, Program.ofTokens, Program.read, Program.leftover]
  rcases hr : Grammar.program Terminal.recognizes tokens with stuck | ⟨p, rest⟩ <;>
    rcases hc : constructs tokens.toArray 0 with _ | ⟨_ | q, j⟩ <;> rw [hr, hc] at same
  case error.some.error =>
    obtain ⟨rfl, -, hj, hd⟩ := same
    dsimp only
    rw [hd, index_of_drop hj]
  case ok.some.ok =>
    obtain ⟨rfl, -, -, hj, rfl⟩ := same
    dsimp only
    rw [current_bind, index_of_drop hj]
    rcases next_or_end _ j with ⟨t, ht, -, hd⟩ | ⟨ht, hd⟩
    · rw [ht, hd]
      rfl
    · rw [ht, hd]
      rfl
  all_goals exact same.elim

/-- A parser that takes its tokens by their index never uses an index that is out of bounds,
whatever the tokens are, and never turns more often than there are tokens. It ends as the
reader of lists does. -/
theorem parse?_eq (tokens : List Token) : parse? tokens = some (Program.ofTokens tokens) := by
  rw [parse?, program_eq]
  rfl

end Cursor

end Mamuth
