-- The program: it reads its arguments and one file, and prints the reply.
import Mamuth.CommandLine.Session

namespace Mamuth.CommandLine

/-- How the program is called. -/
def usage : String := "Usage: mamuth [--explore | --analyze | --verify] [--verbose] FILE\n"

/-- The reason in words. -/
def Refusal.inWords : Refusal → String
  | unknownArgument => "unknown argument"
  | conflict => "these arguments cannot be used together"
  | valueForFlag => "a flag takes no value"
  | emptyFile => "the name of the file is empty"
  | missingFile => "no file was given"
  | help => "Checks a program and shows what a stage makes of it"

/-- Prints why there is nothing to run, and gives the status. -/
def refuse (refusal : Refusal) : IO UInt32 := do
  let text := s!"{refusal.inWords}\n\n{usage}"
  if refusal = .help then IO.print text else IO.eprint text
  return refusal.status.toUInt32

/-- The bytes of a file, or why they cannot be read. -/
def contents (path : String) : IO (Except String ByteArray) := do
  try return .ok (← IO.FS.readBinFile path)
  catch e => return .error (toString e)

/-- Runs a request, prints its reply and gives the status. -/
def answer (request : Request) : IO UInt32 := do
  let reply := request.reply (← IO.getEnv "MAMUTH_LOG") (← contents request.file)
  IO.print reply.output
  IO.eprint reply.errors
  return reply.status.toUInt32

end Mamuth.CommandLine

open Mamuth.CommandLine in
def main (arguments : List String) : IO UInt32 := do
  match Request.ofArguments arguments with
  | .ok request => answer request
  | .error refusal => refuse refusal
