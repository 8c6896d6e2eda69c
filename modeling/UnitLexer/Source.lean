/-
UnitLexer.Source — where bytes come from.

Commands read files and standard input through a `Source` and so do not depend
on a file system: `Directory` is a source in memory, a single directory that
holds files only.
-/
import UnitLexer.Config.Text

namespace UnitLexer

/-! ## §1 Failures -/

/-- Why a file or standard input could not be read. -/
inductive ReadFailure where
  | notFound
  | permissionDenied
  | notUtf8
  | isDirectory
  | notDirectory
  | nameTooLong
  | nulInName
  /-- Any other cause, in the words of the system. -/
  | other (description : String)
  deriving DecidableEq, Repr

/-- What is said about the failure to read a path. -/
def ReadFailure.message (path : String) : ReadFailure → String
  | .notFound => "cannot find file '" ++ path ++ "'"
  | .permissionDenied => "permission denied reading '" ++ path ++ "'"
  | .notUtf8 => "'" ++ path ++ "' contains invalid UTF-8 data"
  | .isDirectory => reading "Is a directory (os error 21)"
  | .notDirectory => reading "Not a directory (os error 20)"
  | .nameTooLong => reading "File name too long (os error 36)"
  | .nulInName => reading "file name contained an unexpected NUL byte"
  | .other description => reading description
where
  reading (cause : String) : String :=
    "error reading '" ++ path ++ "': " ++ cause

/-- Why a command failed. -/
inductive CommandError where
  /-- The source text could not be read. -/
  | input (path : String) (failure : ReadFailure)
  /-- The tables could not be made. -/
  | config (error : ConfigError)
  deriving DecidableEq, Repr

/-- What is said about the error. -/
def CommandError.message : CommandError → String
  | .input path failure => failure.message path
  | .config error => error.message

/-! ## §2 Sources -/

/-- Reads files by path, and standard input. -/
structure Source (m : Type → Type) where
  readFile : String → m (Except ReadFailure ByteArray)
  readStdin : m (Except ReadFailure ByteArray)

/-- The text the bytes encode. -/
def decodeText (bytes : Except ReadFailure ByteArray) : Except ReadFailure String :=
  match bytes with
  | .error failure => .error failure
  | .ok bytes =>
    match String.fromUTF8? bytes with
    | some text => .ok text
    | none => .error .notUtf8

namespace Source

variable {m : Type → Type} [Monad m]

/-- The text at a path, or standard input for the path `-`. -/
def readInput (source : Source m) (path : String) : m (Except CommandError String) := do
  let bytes ← if path = "-" then source.readStdin else source.readFile path
  return (decodeText bytes).mapError (.input path)

/-- The tables a configuration makes of the standard ones. -/
def tablesOf (json : String) : Except ConfigError Tables := do
  let config ← Config.ofJson json
  let lists ← config.apply .standard
  .ok lists.toTables

/-- The standard tables, edited by the configuration at a path if one is given.
Whatever keeps the configuration from being read is reported in one way. -/
def loadTables (source : Source m) (path? : Option String) : m (Except CommandError Tables) := do
  match path? with
  | none => return .ok .standard
  | some path =>
    match decodeText (← source.readFile path) with
    | .error _ => return .error (.config (.unreadable path))
    | .ok json => return (tablesOf json).mapError .config

end Source

/-! ## §3 A directory in memory -/

/-- A directory that holds files and no directories. -/
structure Directory where
  files : List (String × ByteArray)

namespace Directory

/-- The longest file name, in bytes. -/
def maxNameLength : Nat := 255

/-- A path this long, in bytes, names nothing. -/
def maxPathLength : Nat := 4096

/-- Why the steps of a path lead to no file above the directory, where there are
only the directories that lead to it: the first name is one of no file. -/
def failureAbove : List String → ReadFailure
  | [] => .isDirectory
  | step :: steps =>
    if step = "" ∨ step = "." ∨ step = ".." then failureAbove steps
    else if maxNameLength < step.utf8ByteSize then .nameTooLong
    else .notFound

/-- Follows the steps of a path from the directory. -/
def follow (d : Directory) : List String → Except ReadFailure ByteArray
  | [] => .error .isDirectory
  | step :: steps =>
    if step = "" ∨ step = "." then d.follow steps
    else if step = ".." then .error (failureAbove steps)
    else if maxNameLength < step.utf8ByteSize then .error .nameTooLong
    else
      match d.files.lookup step with
      | none => .error .notFound
      | some bytes => if steps = [] then .ok bytes else .error .notDirectory

/-- The bytes of the file at a path. -/
def read (d : Directory) (path : String) : Except ReadFailure ByteArray :=
  let steps := (path.toList.splitOn '/').map String.ofList
  if '\x00' ∈ path.toList then .error .nulInName
  else if path = "" then .error .notFound
  else if maxPathLength ≤ path.utf8ByteSize then .error .nameTooLong
  else if path.toList.head? = some '/' then .error (failureAbove steps)
  else d.follow steps

/-- The directory as a source, with the bytes of standard input. -/
def source (d : Directory) (stdin : ByteArray) : Source Id where
  readFile path := pure (d.read path)
  readStdin := pure (.ok stdin)

end Directory

end UnitLexer
