import Handoff.CommandLine

namespace Handoff

def readFailure (e : IO.Error) : ReadFailure :=
  match e with
  | .noFileOrDirectory .. => .notFound
  | .permissionDenied .. => .permissionDenied
  | .inappropriateType _ 20 _ => .notDirectory
  | .inappropriateType _ 21 _ => .isDirectory
  | .invalidArgument _ 36 _ => .nameTooLong
  | .otherError 21 _ => .isDirectory
  | _ => .other (toString e)

def readBytes (path : String) : IO (Except ReadFailure (List UInt8)) := do
  match ← (IO.FS.readBinFile path).toBaseIO with
  | .ok bytes => return .ok bytes.toList
  | .error e => return .error (readFailure e)

def readConfig (command : Command) : IO Config.Files := do
  match command with
  | .run ⟨some path, _, _⟩ => do
    let answer ← readBytes path
    return fun p => if p = path then answer else .error .notFound
  | _ => return fun _ => .error .notFound

def logFilter : IO Level := do
  match (← IO.getEnv "HANDOFF_LOG").bind Level.ofName? with
  | some level => return level
  | none => return .info

end Handoff

open Handoff in
def main (arguments : List String) : IO UInt32 := do
  match Command.parse arguments with
  | .error e =>
    IO.eprintln ("error: " ++ e.message)
    return 2
  | .ok command =>
    let t := command.execute (← readConfig command)
    for line in t.lines (← logFilter) do IO.eprintln line
    IO.print t.output
    return t.exitCode.toUInt32
