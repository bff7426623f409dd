-- The grammar as data, and derivations in it. What a derivation spells is its yield, and
-- the tree that it stands for has a node for each production that was used. One look at
-- the next token tells apart what the grammar leaves open, so a yield has one derivation.
import Mamuth.ProgramTree
import Mamuth.Reader
import Mamuth.Scan

namespace Mamuth

/-! ## The grammar -/

/-- The nonterminals of the grammar. -/
inductive Nonterminal where
  | program
  | assignment
  | invocation
  | function
  | main
  | parameters
  | arguments
  | block
  | instruction
  | loop
  | conditional
  | ifBranch
  | elseBranch
  | condition
  | comparison
  | return
  | value
  | literal
  | math
  deriving DecidableEq, Repr

/-- The right side of a production. -/
inductive Phrase where
  | terminal (terminal : Terminal)
  | construct (nonterminal : Nonterminal)
  | seq (first second : Phrase)
  | either (one other : Phrase)
  | maybe (part : Phrase)
  | many (item : Phrase)
  deriving DecidableEq, Repr

namespace Phrase

abbrev word (text : String) : Phrase := terminal (.word text)

abbrev kind (kind : Token.Kind) : Phrase := terminal (.kind kind)

/-- One item or more. -/
abbrev some (item : Phrase) : Phrase := seq item (many item)

/-- One item or more, with commas between them. -/
abbrev listed (item : Phrase) : Phrase := seq item (many (seq (word ",") item))

/-- `MathExpr | Invocation | Value` -/
abbrev expression : Phrase :=
  either (construct .math) (either (construct .invocation) (construct .value))

end Phrase

open Phrase in
/-- The productions, as the documentation of the language lists them. -/
@[reducible] def Nonterminal.production : Nonterminal → Phrase
  | program => seq (many (construct assignment)) (seq (many (construct function)) (construct main))
  | assignment => seq (kind .identifier) (seq (word "anotado") (seq expression (word ".")))
  | invocation =>
    seq (word "jutsu") (seq (kind .identifier) (seq (word "(")
      (seq (maybe (construct arguments)) (word ")"))))
  | function =>
    seq (word "POV") (seq (kind .identifier) (seq (word "(")
      (seq (maybe (construct parameters)) (seq (word ")")
        (seq (word "xD") (seq (construct block) (word "v:")))))))
  | main =>
    seq (word "maracuya") (seq (word "(") (seq (word ")")
      (seq (word "xD") (seq (construct block) (word "v:")))))
  | parameters => listed (kind .identifier)
  | arguments => listed (construct value)
  | block => some (construct instruction)
  | instruction =>
    either (construct loop)
      (either (construct assignment) (either (construct conditional) (construct «return»)))
  | loop =>
    seq (word "whenCuando") (seq (word "xD") (seq (construct block) (seq (word "but")
      (seq (word "(") (seq (construct condition) (seq (word ")") (word "v:")))))))
  | conditional => seq (construct ifBranch) (maybe (construct elseBranch))
  | ifBranch =>
    seq (word "siuuu") (seq (word "(") (seq (construct condition) (seq (word ")")
      (seq (word "xD") (seq (construct block) (word "v:"))))))
  | elseBranch => seq (word "nimodo") (seq (word "xD") (seq (construct block) (word "v:")))
  | condition =>
    seq (construct comparison) (maybe (seq (kind .logicalOperator) (construct comparison)))
  | comparison => seq (construct value) (seq (kind .comparator) (construct value))
  | «return» => seq (word "messirve") (seq (maybe expression) (word "."))
  | value => either (kind .identifier) (construct literal)
  | literal => either (kind .text) (either (kind .integer) (either (kind .float) (kind .boolean)))
  | math =>
    seq (word "#") (seq (construct value)
      (seq (many (seq (kind .operator) (construct value))) (word "#")))

/-! ## Derivations -/

/-- A derivation of a phrase, down to the tokens that stand for its terminals. -/
inductive Derivation : Phrase → Type where
  | terminal {x : Terminal} (token : Token) (h : x.recognizes token) : Derivation (.terminal x)
  | construct {n : Nonterminal} (d : Derivation n.production) : Derivation (.construct n)
  | seq {a b : Phrase} (d : Derivation a) (e : Derivation b) : Derivation (.seq a b)
  | one {a b : Phrase} (d : Derivation a) : Derivation (.either a b)
  | other {a b : Phrase} (d : Derivation b) : Derivation (.either a b)
  | absent {a : Phrase} : Derivation (.maybe a)
  | present {a : Phrase} (d : Derivation a) : Derivation (.maybe a)
  | done {a : Phrase} : Derivation (.many a)
  | more {a : Phrase} (d : Derivation a) (e : Derivation (.many a)) : Derivation (.many a)

/-- The kind of the nodes of a construct. Values and literals have no nodes of their own. -/
def Nonterminal.node? : Nonterminal → Option Node.Kind
  | program => some .program
  | assignment => some .assignment
  | invocation => some .invocation
  | function => some .function
  | main => some .main
  | parameters => some .functionParameters
  | arguments => some .invocationArguments
  | block => some .instructionBlock
  | instruction => some .instruction
  | loop => some .loop
  | conditional => some .conditional
  | ifBranch => some .ifBranch
  | elseBranch => some .elseBranch
  | condition => some .conditionalExpression
  | comparison => some .comparison
  | «return» => some .return
  | value | literal => none
  | math => some .mathExpression

/-- The kind of the leaf for a terminal. Fixed words leave none. -/
def Terminal.node? : Terminal → Option Node.Kind
  | .kind .identifier => some .identifier
  | .kind .integer => some .integer
  | .kind .float => some .float
  | .kind .boolean => some .boolean
  | .kind .text => some .text
  | .kind .operator => some .operator
  | .kind .logicalOperator => some .logicalOperator
  | .kind .comparator => some .comparator
  | _ => none

/-- What the node of a construct holds: functions and invocations have the name of their first
child. -/
def Nonterminal.content (n : Nonterminal) (children : List Tree) : Option String :=
  if n = function ∨ n = invocation then children.head?.bind (·.root.content) else none

namespace Derivation

/-- The tokens that are spelled. -/
def yield : Derivation p → List Token
  | terminal token _ => [token]
  | construct d => d.yield
  | seq d e => d.yield ++ e.yield
  | one d => d.yield
  | other d => d.yield
  | absent => []
  | present d => d.yield
  | done => []
  | more d e => d.yield ++ e.yield

/-- Where the first token stands. -/
def start? (d : Derivation p) : Option Position := d.yield.head?.map (·.position)

/-- The trees of the constructs and the leaves, from left to right. -/
def trees : Derivation p → List Tree
  | @terminal x token _ =>
    match x.node? with
    | some kind => [.node ⟨0, kind, some token.lexeme, token.position, none⟩ []]
    | none => []
  | @construct n d =>
    match n.node? with
    | some kind => [.node ⟨0, kind, n.content d.trees, d.start?.getD .start, none⟩ d.trees]
    | none => d.trees
  | seq d e => d.trees ++ e.trees
  | one d => d.trees
  | other d => d.trees
  | absent => []
  | present d => d.trees
  | done => []
  | more d e => d.trees ++ e.trees

/-- The tree of a whole program, numbered from zero. -/
def tree : Derivation (.construct .program) → Tree
  | construct d => (Tree.inner .program (d.start?.getD .start) d.trees).numbered

theorem trees_terminal {x : Terminal} {kind : Node.Kind} (hx : x.node? = some kind)
    (token : Token) (h : x.recognizes token) :
    (terminal token h).trees = [.node ⟨0, kind, some token.lexeme, token.position, none⟩ []] := by
  simp only [trees, hx]

@[simp] theorem trees_seq {a b : Phrase} (d : Derivation a) (e : Derivation b) :
    (seq d e).trees = d.trees ++ e.trees := rfl

@[simp] theorem trees_absent {a : Phrase} : (absent : Derivation (.maybe a)).trees = [] := rfl

@[simp] theorem trees_present {a : Phrase} (d : Derivation a) : (present d).trees = d.trees := rfl

end Derivation

end Mamuth
