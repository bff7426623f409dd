-- Why a list of tokens is no program: the first token that cannot be used, or the end
-- of the list where more was expected.
import Mamuth.Grammar

namespace Mamuth

/-- The first thing that keeps a list of tokens from being a program. -/
inductive SyntaxError where
  /-- A token stands where something else was expected. -/
  | unexpected (expected : Expected) (found : Token)
  /-- The tokens end too early; the position is that of the last one. -/
  | endOfInput (expected : Expected) (position : Position)
  /-- A token stands after a whole program. -/
  | trailing (found : Token)
  deriving DecidableEq, Repr

/-! ## Wording -/

/-- A construct in the words of the messages. -/
def Construct.inWords : Construct → String
  | expression => "a math expression, invocation or value"
  | instruction => "an instruction"
  | value => "an identifier or literal"

/-- What was expected, as the end of the input is reported. -/
def Expected.inWords : Expected → String
  | terminal (.word text) => s!"'{text}'"
  | terminal (.kind k) => s!"a token of kind {k.name}"
  | construct c => c.inWords

/-- A token in a report: its kind, its text and its place. -/
def Token.report (token : Token) : String :=
  s!"{token.kind.name} '{token.lexeme}' at {token.position.asPair}"

/-- The error in one line. -/
def SyntaxError.message : SyntaxError → String
  | unexpected (.terminal (.word text)) found =>
    s!"Expected text '{text}', found '{found.lexeme}' at {found.position.asPair}"
  | unexpected (.terminal (.kind kind)) found =>
    s!"Expected token of kind {kind.name}, found {found.report}"
  | unexpected (.construct c) found => s!"Expected {c.inWords}, found {found.report}"
  | endOfInput expected position =>
    s!"Expected {expected.inWords}, found end of input at {position.asPair}"
  | trailing found =>
    s!"Unexpected '{found.lexeme}' after the end of the program at {found.position.asPair}"

/-! ## Reading a whole program -/

/-- What being stuck means for a list of tokens. -/
def SyntaxError.ofStuck (tokens : List Token) : Stuck → SyntaxError
  | ⟨expected, found :: _⟩ => .unexpected expected found
  | ⟨expected, []⟩ => .endOfInput expected ((tokens.getLast?.map (·.position)).getD .start)

/-- The program that the tokens spell, with terminals told by the given test. -/
def Program.read (recognizes : Recognizer) (tokens : List Token) : Except SyntaxError Program :=
  match Grammar.program recognizes tokens with
  | .ok (program, []) => .ok program
  | .ok (_, found :: _) => .error (.trailing found)
  | .error stuck => .error (.ofStuck tokens stuck)

/-- The program that the tokens spell. -/
def Program.ofTokens (tokens : List Token) : Except SyntaxError Program :=
  Program.read Terminal.recognizes tokens

end Mamuth
