-- The log: what a run has done, as events with a level, a source and a text each. A
-- filter lets the events of some least weight through.
import Mamuth.Text.Quoted
import Mamuth.Token
import Mamuth.Typing

namespace Mamuth.Log

/-- How much an event weighs. -/
inductive Level where
  | trace
  | debug
  | info
  | warn
  | error
  deriving DecidableEq, Repr

namespace Level

def name : Level → String
  | trace => "TRACE"
  | debug => "DEBUG"
  | info => "INFO"
  | warn => "WARN"
  | error => "ERROR"

def weight : Level → Nat
  | trace => 0
  | debug => 1
  | info => 2
  | warn => 3
  | error => 4

end Level

/-- The things that are logged. -/
inductive Event where
  | reading (bytes : Nat)
  | unreadable (path cause : String)
  | unrecognized (piece : Token)
  | scanned (tokens lines : Nat)
  | parsed (constructs : Nat)
  | opened (depth : Nat) (kind : Node.Kind)
  | closed (depth : Nat)
  | verified (nodes : Nat)
  | finished
  deriving DecidableEq, Repr

namespace Event

/-- The level at which an event is logged. -/
def level : Event → Level
  | reading _ | finished => .info
  | unrecognized _ => .warn
  | unreadable .. | scanned .. | parsed _ | verified _ => .debug
  | opened .. | closed _ => .trace

/-- The part of the program that an event comes from. -/
def origin : Event → String
  | reading _ | unreadable .. | finished => "cmamuth"
  | unrecognized _ | scanned .. => "cmamuth::parser::lexing"
  | parsed _ => "cmamuth::parser::parsing"
  | opened .. | closed _ | verified _ => "cmamuth::semantics::typechecking"

/-- The text of an event. -/
def message : Event → String
  | reading bytes => s!"scanning {bytes} bytes of source"
  | unreadable path cause => s!"could not read {path}: {cause}"
  | unrecognized piece =>
    s!"unrecognized token {Text.quoted piece.lexeme} at {piece.position.inWords}"
  | scanned tokens lines => s!"scanned {tokens} tokens over {lines} lines"
  | parsed constructs => s!"parsed {constructs} top level constructs"
  | opened depth kind => s!"opened block at depth {depth} for {kind.name}"
  | closed depth => s!"closed block, back to depth {depth}"
  | verified nodes => s!"verified {nodes} nodes"
  | finished => "compilation finished without errors"

/-- What the log says of a check; looking up a name leaves no trace. -/
def ofCheck? : Typing.Event → Option Event
  | .opened depth kind => some (opened depth kind)
  | .closed depth => some (closed depth)
  | .lookedUp .. => none

/-- The line of an event, with its newline; the level stands at the right of its column. -/
def line (e : Event) : String :=
  s!" {Text.blanks (5 - e.level.name.length)}{e.level.name} {e.origin}: {e.message}\n"

end Event

/-- The least level that passes, or none if nothing does. -/
abbrev Filter := Option Level

namespace Filter

/-- The filter with a name, in capitals or not. -/
def ofName? (name : String) : Option Filter :=
  [("off", none), ("error", some .error), ("warn", some .warn), ("info", some .info),
    ("debug", some .debug), ("trace", some .trace)].lookup name.toLower

def passes (filter : Filter) (e : Event) : Bool :=
  filter.any fun least => least.weight ≤ e.level.weight

end Filter

/-- The lines of the events that pass, in their order. -/
def render (filter : Filter) (events : List Event) : String :=
  String.join ((events.filter filter.passes).map Event.line)

end Mamuth.Log
