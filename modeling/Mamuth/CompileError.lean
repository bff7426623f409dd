-- Why a source text does not compile. Each stage stops at its first error, but for the
-- scan, which reports all pieces that are no token together.
import Mamuth.Fault
import Mamuth.Scan
import Mamuth.SyntaxError
import Mamuth.Text.Quoted

namespace Mamuth

/-- The stage that failed, with its reason. -/
inductive CompileError where
  /-- All pieces of the text that are no token, in their order. -/
  | lexical (unrecognized : List Token)
  | syntactic (error : SyntaxError)
  | semantic (fault : Fault)
  deriving DecidableEq, Repr

namespace CompileError

/-- The class of the error and its message, in one line. -/
def message : CompileError → String
  | lexical unrecognized =>
    let pieces := unrecognized.map fun t => s!"{Text.quoted t.lexeme} at {t.position.asPair}"
    s!"LexicalError: {unrecognized.length} lexical error(s) in scanner: " ++
      String.intercalate ", " pieces
  | syntactic error => s!"SyntaxError: {error.message}"
  | semantic fault => s!"{fault.heading}: {fault.message}"

end CompileError

end Mamuth
