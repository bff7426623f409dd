-- From source text to tokens. Each lexeme stands where the lexemes before it end;
-- blanks, newlines and comments then fall away, words are told from reserved words,
-- and one piece that is no token makes the whole text fail, with all such pieces.
import Mamuth.Lexeme
import Mamuth.Token

namespace Mamuth

/-- The lexemes with the positions of their first characters, the first of them at `p`. -/
def Lexeme.place (p : Position) : List Lexeme → List (Lexeme × Position)
  | [] => []
  | l :: ls => (l, p) :: place (p.after l.chars) ls

/-- The kind of token that a lexeme gives; layout and comments give none. -/
def Lexeme.kind? (l : Lexeme) : Option Token.Kind :=
  match l.form with
  | .malformed | .stray => some .unrecognized
  | .comment | .newline | .blank => none
  | .text => some .text
  | .punctuation => some .punctuation
  | .float => some .float
  | .integer => some .integer
  | .word => some ((Token.Kind.ofReserved? (String.ofList l.chars)).getD .identifier)

/-- The token of a placed lexeme. -/
def Token.ofLexeme? (placed : Lexeme × Position) : Option Token :=
  placed.1.kind?.map fun kind => ⟨kind, String.ofList placed.1.chars, placed.2⟩

/-- All tokens of a text, with the unrecognized pieces among them. -/
def Token.list (source : String) : List Token :=
  (Lexeme.place .start (Lexeme.segment source.toList)).filterMap Token.ofLexeme?

/-- The tokens of a text, or every piece of it that is no token. -/
def scan (source : String) : Except (List Token) (List Token) :=
  match (Token.list source).partition (·.kind = .unrecognized) with
  | ([], tokens) => .ok tokens
  | (unrecognized, _) => .error unrecognized

/-- The number of lines of a text; the one after the last newline counts too. -/
def lineCount (source : String) : Nat := source.toList.count '\n' + 1

end Mamuth
