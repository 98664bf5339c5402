import Lisplet.Command.Options
import Lisplet.Session

/-! The command (§6.1): evaluates files or expressions given as arguments, or starts a session. -/
namespace Lisplet.Command

structure Source where
  name : String
  text : List UInt8
  deriving DecidableEq, Repr

/-- What is wrong with one source. -/
inductive SourceError where
  | read (e : ReadError)
  | eval (e : EvalError)
  deriving DecidableEq, Repr

def SourceError.message : SourceError → String
  | .read e => e.message
  | .eval e => e.message

/-- Why a file could not be read. -/
inductive FileError where
  | missing
  | directory
  | notDirectory
  | invalidName
  | nameTooLong
  | denied
  deriving DecidableEq, Repr

def FileError.message (name : String) : FileError → String
  | .missing => "open " ++ name ++ ": no such file or directory"
  | .directory => "read " ++ name ++ ": is a directory"
  | .notDirectory => "open " ++ name ++ ": not a directory"
  | .invalidName => "open " ++ name ++ ": invalid argument"
  | .nameTooLong => "open " ++ name ++ ": file name too long"
  | .denied => "open " ++ name ++ ": permission denied"

inductive Failure where
  | usage (e : UsageError)
  | noExpressions
  | file (name : String) (e : FileError)
  | emptySource (name : String)
  | source (name : String) (e : SourceError)
  | broken (f : Fault)
  deriving DecidableEq, Repr

def Failure.message : Failure → String
  | .usage e => e.message
  | .noExpressions => "no expressions given"
  | .file name e => e.message name
  | .emptySource name => "empty source: " ++ name
  | .source name e => name ++ ": " ++ e.message
  | .broken f => f.message?.getD ""

/-- What reading the file of a name gives. -/
abbrev Files := List UInt8 → Except FileError (List UInt8)

def readSource (files : Files) (expression : Bool) (arg : List UInt8) : Except Failure Source := do
  let source ←
    if expression then .ok ⟨"expression", arg⟩
    else match files arg with
      | .ok text => .ok ⟨Text.Utf8.text arg, text⟩
      | .error e => .error (.file (Text.Utf8.text arg) e)
  if (Text.trim (Text.Utf8.decode source.text)).isEmpty then .error (.emptySource source.name)
  else .ok source

/-- Reads every source before any is evaluated. -/
def readSources (files : Files) (expression : Bool) :
    List (List UInt8) → Except Failure (List Source)
  | [] => .ok []
  | arg :: args => do
    let source ← readSource files expression arg
    return source :: (← readSources files expression args)

/-- What a run wrote, whether it failed, and the state it left. -/
structure Outcome where
  out : String
  err : String
  failure : Option Failure
  interpreter : Interpreter

/-- Evaluates sources in order, up to the first error. -/
def runSources (settings : Settings) (i : Interpreter) : List Source → Outcome
  | [] => ⟨"", "", none, i⟩
  | source :: sources =>
    match parse source.text with
    | .error e => ⟨"", "", some (.source source.name (.read e)), i⟩
    | .ok trees =>
      let report := i.evalAll trees
      let out := transcript settings.listing trees report.values
      let log := settings.log report
      match report.halt with
      | some (.error e) => ⟨out, log, some (.source source.name (.eval e)), report.interpreter⟩
      | some (.fault f) => ⟨out, log, some (.broken f), report.interpreter⟩
      | none =>
        let rest := runSources settings report.interpreter sources
        { rest with out := out ++ rest.out, err := log ++ rest.err }

/-- What the arguments ask for. -/
inductive Request where
  | session (settings : Settings)
  | run (settings : Settings) (sources : List Source)

def request (files : Files) (args : List (List UInt8)) : Except Failure Request := do
  let (options, rest) ← (parseArgs .default args).mapError .usage
  if rest.isEmpty then
    if options.expression then .error .noExpressions else return .session options.settings
  else return .run options.settings (← readSources files options.expression rest)

/-- Runs sources with a new interpreter. -/
def runNew (settings : Settings) (sources : List Source) : Outcome :=
  runSources settings settings.interpreter sources

end Lisplet.Command
