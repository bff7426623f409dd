-- Reading tokens one after another. A reader takes some tokens off the front of the
-- list or gets stuck at the first one that it cannot use, and then says what it expected
-- there. It never looks further than that token.
import Mamuth.Token

namespace Mamuth

/-- A terminal of the grammar: a fixed word or mark, or any token of a kind. -/
inductive Terminal where
  | word (text : String)
  | kind (kind : Token.Kind)
  deriving DecidableEq, Repr

/-- When a token counts as a terminal. -/
abbrev Recognizer := Terminal → Token → Bool

/-- Compares the one thing that the terminal names: the text of a word, else the kind. -/
def Terminal.recognizes : Recognizer
  | .word text, token => token.lexeme = text
  | .kind k, token => token.kind = k

/-- What a reader may have to choose between with one look. -/
inductive Construct where
  | expression
  | instruction
  | value
  deriving DecidableEq, Repr

/-- What a reader can expect next. -/
inductive Expected where
  | terminal (terminal : Terminal)
  | construct (construct : Construct)
  deriving DecidableEq, Repr

/-- Where a reader got stuck: what it expected, and the tokens that it had not taken. -/
structure Stuck where
  expected : Expected
  rest : List Token
  deriving DecidableEq, Repr

/-- Reads something off the front of a list of tokens, or gets stuck. -/
abbrev Reader := ReaderT Recognizer (StateT (List Token) (Except Stuck))

namespace Reader

/-- Gets stuck at the next token, or at the end. -/
def stuck (expected : Expected) : Reader α := fun _ tokens => .error ⟨expected, tokens⟩

/-- Whether the next token counts as the terminal. Nothing is taken. -/
def sees (terminal : Terminal) : Reader Bool := fun recognizes tokens =>
  .ok (tokens.head?.any (recognizes terminal), tokens)

/-- The number of tokens left. -/
def left : Reader Nat := fun _ tokens => .ok (tokens.length, tokens)

/-- Takes the next token, which has to be the terminal. -/
def take (terminal : Terminal) : Reader Token := fun recognizes tokens =>
  match tokens with
  | token :: rest =>
    if recognizes terminal token then .ok (token, rest)
    else .error ⟨.terminal terminal, tokens⟩
  | [] => .error ⟨.terminal terminal, []⟩

/-- Takes a fixed word, and gives its place. -/
def word (text : String) : Reader Position := return (← take (.word text)).position

/-- At most `n` items. -/
def manyWithin (sees : Reader Bool) (item : Reader α) : (n : Nat) → Reader (List α)
  | 0 => return []
  | n + 1 => do
    if ← sees then return (← item) :: (← manyWithin sees item n) else return []

/-- Items for as long as one is in sight. Each takes a token, so the tokens left bound
their number. -/
def many (sees : Reader Bool) (item : Reader α) : Reader (List α) := do
  manyWithin sees item (← left)

end Reader

end Mamuth
