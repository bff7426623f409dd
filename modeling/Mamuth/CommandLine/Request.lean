-- What the command line asks for: one file, at most one stage to stop at, and how much
-- to log. Arguments are read from left to right and the first error decides; only what
-- depends on all of them waits for the end.

namespace Mamuth.CommandLine

/-- The last stage of a run, of which the result is printed. -/
inductive Stage where
  | explore
  | analyze
  | verify
  /-- All stages, and nothing is printed. -/
  | check
  deriving DecidableEq, Repr

/-- The flags that there are. -/
inductive Flag where
  | explore
  | analyze
  | verify
  | verbose
  | help
  deriving DecidableEq, Repr

namespace Flag

def longNames : List (String × Flag) :=
  [("explore", explore), ("analyze", analyze), ("verify", verify), ("verbose", verbose),
    ("help", help)]

def letters : List (Char × Flag) :=
  [('e', explore), ('a', analyze), ('v', verify), ('V', verbose), ('h', help)]

/-- The stage that a flag asks for. -/
def stage? : Flag → Option Stage
  | explore => some .explore
  | analyze => some .analyze
  | verify => some .verify
  | verbose | help => none

end Flag

/-- Why there is no request. -/
inductive Refusal where
  /-- A flag that does not exist, or a file too many. -/
  | unknownArgument
  /-- A flag that was given before, or two stages. -/
  | conflict
  /-- A value for a flag that takes none. -/
  | valueForFlag
  /-- A file name without a character. -/
  | emptyFile
  | missingFile
  /-- Help was asked for. -/
  | help
  deriving DecidableEq, Repr

/-- What a run has to do. -/
structure Request where
  file : String
  stage : Stage
  verbose : Bool
  deriving DecidableEq, Repr

/-- The arguments read so far. -/
structure Seen where
  flags : List Flag
  file? : Option String
  deriving DecidableEq, Repr

namespace Seen

/-- The name of the file is looked at only when something known follows it. -/
def settled (seen : Seen) : Except Refusal Seen :=
  if seen.file? = some "" then .error .emptyFile else .ok seen

/-- A flag that exists. -/
def flag (seen : Seen) (flag : Flag) : Except Refusal Seen := do
  let seen ← seen.settled
  if flag = .help then throw .help
  if flag ∈ seen.flags then throw .conflict
  return { seen with flags := flag :: seen.flags }

/-- An argument that is no flag. -/
def file (seen : Seen) (name : String) : Except Refusal Seen :=
  match seen.file? with
  | none => .ok { seen with file? := some name }
  | some _ => .error .unknownArgument

/-- An argument that opens with two dashes, without them. -/
def long (seen : Seen) (text : List Char) : Except Refusal Seen :=
  match Flag.longNames.lookup (String.ofList (text.takeWhile (· ≠ '='))) with
  | none => .error .unknownArgument
  | some flag => if '=' ∈ text then .error .valueForFlag else seen.flag flag

/-- A group of flags after a single dash. -/
def short (seen : Seen) : List Char → Except Refusal Seen
  | [] => .ok seen
  | letter :: rest =>
    match Flag.letters.lookup letter with
    | none => .error .unknownArgument
    | some flag => do short (← seen.flag flag) rest

/-- After two dashes alone, every argument is a file. -/
def all (seen : Seen) (onlyFiles : Bool) : List String → Except Refusal Seen
  | [] => .ok seen
  | argument :: rest => do
    match onlyFiles, argument.toList with
    | false, ['-', '-'] => all seen true rest
    | false, '-' :: '-' :: text => all (← seen.long text) false rest
    | false, '-' :: letter :: more => all (← seen.short (letter :: more)) false rest
    | _, _ => all (← seen.file argument) onlyFiles rest

/-- The request, once all arguments are there. -/
def request (seen : Seen) : Except Refusal Request := do
  let seen ← seen.settled
  let stage ← match seen.flags.filterMap Flag.stage? with
    | [] => pure Stage.check
    | [stage] => pure stage
    | _ => throw .conflict
  let some file := seen.file? | throw .missingFile
  return { file, stage, verbose := .verbose ∈ seen.flags }

end Seen

/-- The request that the arguments make. -/
def Request.ofArguments (arguments : List String) : Except Refusal Request := do
  (← Seen.all ⟨[], none⟩ false arguments).request

end Mamuth.CommandLine
