import Lisplet.Interpreter
import Lisplet.Text.Space

/-! A session with a user (§6.1), read line by line. Lines that end inside an expression are kept
and completed by the following ones. -/
namespace Lisplet

namespace Session

/-- What reading a line can give. -/
inductive Input where
  | line (text : List UInt8)
  | interrupt
  | endOfInput
  | failure (message : String)
  deriving DecidableEq, Repr

inductive Prompt where
  | fresh
  | continuation
  deriving DecidableEq, Repr

def Prompt.text : Prompt → String
  | .fresh => "> "
  | .continuation => ". "

/-- What one input made the session write, and the prompts it set. -/
structure Response where
  out : String
  err : String
  prompts : List Prompt
  deriving DecidableEq, Repr

def Response.silent : Response := ⟨"", "", []⟩

inductive Ending where
  | finished
  | failed (message : String)
  | broken (f : Fault)
  deriving DecidableEq, Repr

def farewell : String := "Goodbye.\n"

end Session

structure Session where
  settings : Settings
  interpreter : Interpreter
  /-- Lines read but not yet complete, the first one first. -/
  pending : List (List UInt8)

namespace Session

def start (settings : Settings) : Session := ⟨settings, settings.interpreter, []⟩

def joinLines (lines : List (List UInt8)) : List UInt8 := List.intercalate [0x0A] lines

def isBlankLine (line : List UInt8) : Bool := (Text.trim (Text.Utf8.decode line)).isEmpty

/-- The word that ends a session, in upper or lower case. -/
def isExit (line : List UInt8) : Bool :=
  (Text.trim (Text.Utf8.decode line)).map Char.toLower = ['e', 'x', 'i', 't']

def errorLine (message : String) : String := "Error: " ++ message ++ "\n"

/-- Evaluates complete input. -/
def evaluate (s : Session) (trees : List Tree) : Session × Response × Option Ending :=
  let report := s.interpreter.evalAll trees
  let out := transcript s.settings.listing trees report.values
  let log := s.settings.log report
  let s := { s with interpreter := report.interpreter, pending := [] }
  match report.halt with
  | none => (s, ⟨out, log, [.fresh]⟩, none)
  | some (.error e) => (s, ⟨out, log ++ errorLine e.message, [.fresh]⟩, none)
  | some (.fault f) => (s, ⟨out, log, [.fresh]⟩, some (.broken f))

/-- Takes a line behind the pending ones and acts on them if they are complete. -/
def accept (s : Session) (line : List UInt8) : Session × Response × Option Ending :=
  let lines := s.pending ++ [line]
  match parse (joinLines lines) with
  | .ok trees => s.evaluate trees
  | .error e =>
    if e.isIncomplete then
      ({ s with pending := lines }, ⟨"", "", [.continuation]⟩, none)
    else ({ s with pending := [] }, ⟨"", errorLine e.message, [.fresh]⟩, none)

/-- One input (§6.1). Blank lines and the word that ends the session count as such only where no
lines are pending. -/
def step (s : Session) : Input → Session × Response × Option Ending
  | .interrupt => ({ s with pending := [] }, ⟨"", "", [.fresh]⟩, none)
  | .endOfInput => (s, ⟨farewell, "", []⟩, some .finished)
  | .failure message => (s, .silent, some (.failed message))
  | .line line =>
    if s.pending.isEmpty && isBlankLine line then (s, .silent, none)
    else if s.pending.isEmpty && isExit line then (s, ⟨farewell, "", []⟩, some .finished)
    else s.accept line

/-- A whole session: the responses, how many of the given inputs were read, how it ended and in
which state. -/
structure Outcome where
  responses : List Response
  read : Nat
  ending : Ending
  final : Session

/-- Runs a session on given inputs, behind which the input ends. -/
def run (s : Session) : List Input → Outcome
  | [] => ⟨[(s.step .endOfInput).2.1], 0, .finished, s⟩
  | input :: inputs =>
    match s.step input with
    | (s, response, some ending) => ⟨[response], 1, ending, s⟩
    | (s, response, none) =>
      let rest := s.run inputs
      { rest with responses := response :: rest.responses, read := rest.read + 1 }

end Session

end Lisplet
