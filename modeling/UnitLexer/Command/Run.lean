/-
UnitLexer.Command.Run — running commands.

A command reads what it needs through a source, the tables before the input,
and answers with the text for standard output. What went wrong is one line on
standard error; the exit code tells a failure of the command (1) from a mistake
in the arguments (2).
-/
import UnitLexer.Command.Arguments
import UnitLexer.Source

namespace UnitLexer

/-- What a run leaves behind. -/
structure Outcome where
  code : UInt32 := 0
  stdout : String := ""
  stderr : String := ""
  deriving DecidableEq, Repr

namespace Outcome

/-- The answer to a request for the version. -/
def version : Outcome :=
  { stdout := "exprua 0.1.0\n" }

/-- The answer to a request for help. -/
def help : Outcome :=
  { stdout :=
      "Unit-aware lexer and highlighter for ExprUA expressions\n\n" ++
      "Usage: exprua [--tables CONFIG] COMMAND\n\n" ++
      "  lex [INPUT] [--json]                           print the token stream\n" ++
      "  highlight [INPUT] [--theme NAME] [--color WHEN]  print the source in colour\n" ++
      "  tables                                         print the tables in use\n" }

/-- The report of a command that failed. -/
def failed (e : CommandError) : Outcome :=
  { code := 1, stderr := "error: " ++ e.message ++ "\n" }

/-- The report of a mistake in the arguments. -/
def misused (e : UsageError) : Outcome :=
  { code := 2, stderr := "error: " ++ e.message ++ "\n" }

end Outcome

variable {m : Type → Type} [Monad m]

/-- The text a command writes. -/
def Command.output (source : Source m) (terminal : Bool) (ts : Tables) :
    Command → m (Except CommandError String)
  | .lex input format => return (← source.readInput input).map (dumpSource ts format)
  | .highlight input theme colour =>
    return (← source.readInput input).map (highlightSource ts theme (colour.useColours terminal))
  | .tables => return .ok ts.dump

/-- Runs the program with its arguments. -/
def run (source : Source m) (terminal : Bool) (arguments : List String) : m Outcome := do
  match Request.ofArguments arguments with
  | .error e => return .misused e
  | .ok .version => return .version
  | .ok .help => return .help
  | .ok (.run config? command) =>
    match ← source.loadTables config? with
    | .error e => return .failed e
    | .ok ts =>
      match ← command.output source terminal ts with
      | .error e => return .failed e
      | .ok text => return { stdout := text }

end UnitLexer
