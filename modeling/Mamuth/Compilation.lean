-- Compiling a source text: scan, parse, check. The stages hand on what the next one
-- needs, and each adds to the log, also when it fails.
import Mamuth.CompileError
import Mamuth.Log
import Mamuth.ProgramTree
import Mamuth.Typing

namespace Mamuth

/-- A run that keeps a log, oldest event first, and may fail. -/
abbrev Compiler := ExceptT CompileError (StateM (List Log.Event))

namespace Compiler

/-- Adds events to the log. -/
def log (events : List Log.Event) : Compiler Unit := modify (· ++ events)

/-- The tokens of a text. -/
def scan (source : String) : Compiler (List Token) := do
  match Mamuth.scan source with
  | .ok tokens =>
    log [.scanned tokens.length (lineCount source)]
    return tokens
  | .error pieces =>
    log (pieces.map .unrecognized)
    throw (.lexical pieces)

/-- The tree of the program that the tokens spell. -/
def parse (tokens : List Token) : Compiler Tree := do
  match Program.ofTokens tokens with
  | .ok program =>
    log [.parsed program.size]
    return program.tree
  | .error e => throw (.syntactic e)

/-- The events of a check in the order in which they happened. -/
def events (s : Typing.State) : List Log.Event := s.history.reverse.filterMap Log.Event.ofCheck?

/-- The tree with its types, and the table of what is declared at its top. -/
def verify (tree : Tree) : Compiler (Tree × SymbolTable) := do
  match tree.verify with
  | .ok (tree, s) =>
    log (events s ++ [.verified s.types.size])
    return (tree, s.table)
  | .error e =>
    log (events e.state)
    throw (.semantic e.fault)

end Compiler

/-- What a source text compiles to. -/
structure Compilation where
  tokens : List Token
  /-- The tree of the program with a type at every node. -/
  tree : Tree
  /-- The declarations at the top level. -/
  table : SymbolTable

/-- Compiles a source text, and gives the log with the outcome. -/
def compile (source : String) : Except CompileError Compilation × List Log.Event :=
  let run : Compiler Compilation := do
    let tokens ← Compiler.scan source
    let tree ← Compiler.parse tokens
    let (tree, table) ← Compiler.verify tree
    return { tokens, tree, table }
  run.run []

end Mamuth
