-- A session: what a run of the program prints and the status it ends with, from its
-- request and the file as it was found.
import Mamuth.CommandLine.Request
import Mamuth.Compilation

namespace Mamuth.CommandLine

/-- What a run leaves behind. -/
structure Reply where
  status : Nat
  output : String
  errors : String
  deriving DecidableEq, Repr

/-- Help that was asked for is no failure. -/
def Refusal.status : Refusal → Nat
  | help => 0
  | _ => 2

/-- Runs the stages up to the one asked for, and gives what it prints. -/
def output (stage : Stage) (source : String) : Compiler String := do
  Compiler.log [.reading source.utf8ByteSize]
  let tokens ← Compiler.scan source
  if stage = .explore then return String.join (tokens.map (·.line ++ "\n"))
  let tree ← Compiler.parse tokens
  if stage = .analyze then return tree.outline
  let (tree, table) ← Compiler.verify tree
  Compiler.log [.finished]
  if stage = .verify then return table.listing ++ "\n" ++ tree.outline
  return ""

/-- The filter of a run: the one that was set, or else one by how much was asked for. -/
def Request.filter (request : Request) (setting : Option String) : Log.Filter :=
  (setting.bind Log.Filter.ofName?).getD (if request.verbose then some .debug else some .warn)

/-- The text of a file. -/
def textOf (contents : Except String ByteArray) : Except String String := do
  let some text := String.fromUTF8? (← contents) | throw "not a text in UTF-8"
  return text

/-- The reply to a request. `setting` is the name of a log level, if one is set, and the
contents are the bytes of the file or the reason why there are none. -/
def Request.reply (request : Request) (setting : Option String)
    (contents : Except String ByteArray) : Reply :=
  let log := Log.render (request.filter setting)
  match textOf contents with
  | .error cause =>
    ⟨1, "", log [.unreadable request.file cause] ++ s!"invalid file '{request.file}'\n"⟩
  | .ok source =>
    match (output request.stage source).run [] with
    | (.ok printed, events) => ⟨0, printed, log events⟩
    | (.error e, events) => ⟨1, "", log events ++ e.message ++ "\n"⟩

end Mamuth.CommandLine
