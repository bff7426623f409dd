-- Tokens: the classified words of a program, each with the place where it starts, and
-- the words that the language keeps for itself.
import Mamuth.Position
import Mamuth.Text.Field

namespace Mamuth

namespace Token

/-- What a token is. `unrecognized` marks a piece of the source that is no token at all; it
occurs in reports only. -/
inductive Kind where
  | identifier
  | integer
  | float
  | boolean
  | text
  | punctuation
  | operator
  | logicalOperator
  | comparator
  | keyword
  | conditional
  | loop
  | assignment
  | invocation
  | unrecognized
  deriving DecidableEq, Repr, Inhabited

namespace Kind

/-- The name of a kind in listings and messages. -/
def name : Kind → String
  | identifier => "Identifier"
  | integer => "Integer"
  | float => "Float"
  | boolean => "Boolean"
  | text => "Text"
  | punctuation => "Punctuation"
  | operator => "Operator"
  | logicalOperator => "LogicalOperator"
  | comparator => "Comparator"
  | keyword => "Keyword"
  | conditional => "Conditional"
  | loop => "Loop"
  | assignment => "Assignment"
  | invocation => "Invocation"
  | unrecognized => "Unrecognized"

/-- Every kind. -/
def all : List Kind :=
  [identifier, integer, float, boolean, text, punctuation, operator, logicalOperator, comparator,
    keyword, conditional, loop, assignment, invocation, unrecognized]

/-- The kinds that can stand for a value: names and literals. -/
def isValue (kind : Kind) : Bool := kind ∈ [identifier, integer, float, boolean, text]

/-- The reserved words. Each of them would be an identifier otherwise. -/
def reservedWords : List (String × Kind) :=
  [("POV", keyword), ("maracuya", keyword), ("messirve", keyword),
    ("bobMar", operator), ("bobStar", operator), ("bobiDir", operator), ("bobTiplicar", operator),
    ("chikito", comparator), ("tapotente", comparator), ("panachikito", comparator),
    ("panapotente", comparator), ("nolocrick", comparator), ("panas", comparator),
    ("aja", logicalOperator), ("ayno", logicalOperator),
    ("siuuu", conditional), ("nimodo", conditional),
    ("whenCuando", loop), ("but", loop),
    ("anotado", assignment),
    ("jutsu", invocation),
    ("SIUA", boolean), ("NOUA", boolean)]

/-- The kind of a reserved word; an ordinary word has none. -/
def ofReserved? (word : String) : Option Kind := reservedWords.lookup word

end Kind

end Token

/-- A word of a program, where it starts. -/
structure Token where
  kind : Token.Kind
  lexeme : String
  position : Position
  deriving DecidableEq, Repr, Inhabited

/-- One line of a token listing, without its newline. -/
def Token.line (token : Token) : String :=
  s!"{Text.field 16 token.kind.name} --> {Text.field 12 token.lexeme} ({token.position.inWords})"

end Mamuth
