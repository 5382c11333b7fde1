/-
The program: a command line that evaluates one expression.

All it does itself is to read a file and to write lines.  What is read and written
is decided by `Cli.conclude`.
-/
import Reckon.Cli.Run

namespace Reckon.Cli

/-- The error that a failure of the system stands for. -/
def FileError.ofSystem : IO.Error → FileError
  | .noFileOrDirectory .. => .notFound
  | .permissionDenied .. => .permissionDenied
  | .inappropriateType .. => .isDirectory
  | error => .other (toString error)

/-- The text of a file. -/
def readFile (name : String) : IO (Except FileError String) := do
  try
    let bytes ← IO.FS.readBinFile name
    match String.fromUTF8? bytes with
    | some text => return .ok text
    | none => return .error .notText
  catch error => return .error (.ofSystem error)

/-- Writes an error and what caused it, each on a line. -/
def report (chain : List String) : IO Unit := do
  IO.eprintln ("Error: " ++ "\n  caused by: ".intercalate chain)

/-- Writes what an expression fails with. -/
def reportFailure (error : Error) : IO Unit := do
  report [error.message]
  for label in error.labels do
    IO.eprintln ("  at byte " ++ Decimal.countText label.span.start ++ ": " ++ label.text)
  if let some help := error.help? then
    IO.eprintln ("  help: " ++ help)

/-- Writes the log of a run, an event on a line. -/
def writeLog (config : Config) : IO Unit := do
  for fields in config.log do
    let shown := fields.map fun (name, text) =>
      if name = "message" then text else name ++ "=" ++ text
    IO.eprintln (" ".intercalate (Event.Level.debug.name :: shown))

/-- Writes how a run ends, and gives the program's exit code. -/
def Outcome.write : Outcome → IO UInt32
  | .exited exit => do
      if exit.isSuccess then
        IO.println exit.output
        return 0
      else
        IO.eprintln (exit.output ++ "\nRun shunt --help for more information.")
        return 1
  | .unresolved error => do
      report error.chain
      return 1
  | .failed config error => do
      writeLog config
      reportFailure error
      return 1
  | .shown config output => do
      writeLog config
      IO.print output
      return 0

end Reckon.Cli

open Reckon.Cli

/-- Runs the program with its arguments. -/
def main (arguments : List String) : IO UInt32 := do
  match Arguments.parse arguments with
  | .error exit => (Outcome.exited exit).write
  | .ok arguments =>
      let content ←
        match arguments.variableFile with
        | some file => readFile file
        | none => pure (.error .notFound)
      (conclude (fun _ => content) arguments).write
