/-
UnitLexer.Main — the program.

Only reading and writing happen here; what to read and what to write is
decided by `UnitLexer.run`.
-/
import UnitLexer.Command.Run

namespace UnitLexer

/-- The failure an exception of the file system stands for. -/
def ReadFailure.ofException : IO.Error → ReadFailure
  | .noFileOrDirectory .. => .notFound
  | .permissionDenied .. => .permissionDenied
  | .inappropriateType _ code details | .resourceBusy code details
  | .otherError code details => .other (details ++ " (os error " ++ toString code ++ ")")
  | e => .other (toString e)

/-- Reads bytes, with a failure as a value. -/
def attempt (action : IO ByteArray) : IO (Except ReadFailure ByteArray) := do
  try
    return .ok (← action)
  catch e =>
    return .error (.ofException e)

/-- The file system and standard input. -/
def system : Source IO where
  readFile path := attempt (IO.FS.readBinFile path)
  readStdin := attempt do (← IO.getStdin).readBinToEnd

end UnitLexer

/-- Runs the program: its answer goes to standard output, reports go to
standard error. -/
def main (arguments : List String) : IO UInt32 := do
  let stdout ← IO.getStdout
  let outcome ← UnitLexer.run UnitLexer.system (← stdout.isTty) arguments
  stdout.putStr outcome.stdout
  stdout.flush
  (← IO.getStderr).putStr outcome.stderr
  return outcome.code
