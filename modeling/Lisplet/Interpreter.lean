import Lisplet.Eval
import Lisplet.Tree.Parser
import Lisplet.Tree.Printer

/-! An interpreter evaluates sources one after the other against one lasting root scope (§6). -/
namespace Lisplet

structure Interpreter where
  store : Store Tree
  root : ScopeId
  /-- The depth limit asked for; see `effectiveLimit`. -/
  limit : Int

/-- What evaluating some expressions in order gave. -/
structure Report where
  /-- The values of the expressions before the one that failed. -/
  values : List (Value Tree)
  halt : Option Halt
  events : List (Event Tree)
  interpreter : Interpreter

namespace Interpreter

/-- An interpreter with an empty root scope. -/
def new (limit : Int) : Interpreter := ⟨Store.empty.create none "root", 0, limit⟩

/-- Evaluates one expression in the root scope. -/
def evalTree (i : Interpreter) (t : Tree) :
    Except Halt (Value Tree) × List (Event Tree) × Interpreter :=
  let (result, m) := run Tree.form i.limit (some i.root) t i.store
  (result, m.trace.toList, { i with store := m.store })

/-- Evaluates expressions in order, up to the first that fails. -/
def evalAll (i : Interpreter) : List Tree → Report
  | [] => ⟨[], none, [], i⟩
  | t :: ts =>
    match i.evalTree t with
    | (.error halt, events, i) => ⟨[], some halt, events, i⟩
    | (.ok v, events, i) =>
      let rest := i.evalAll ts
      { rest with values := v :: rest.values, events := events ++ rest.events }

/-- Evaluates a source (§6). An error anywhere in its syntax prevents any evaluation. -/
def evalSource (i : Interpreter) (source : List UInt8) : Except ReadError Report :=
  (parse source).map i.evalAll

end Interpreter

/-- What a user of the program can choose. -/
structure Settings where
  limit : Int
  /-- Log definitions and calls. -/
  trace : Bool
  /-- Print the listing of each expression before it is evaluated. -/
  listing : Bool
  deriving DecidableEq, Repr

/-- The values of expressions, one a line. Where there are fewer values the next expression
failed. -/
def transcript (listing : Bool) : List Tree → List (Value Tree) → String
  | [], _ => ""
  | t :: ts, vs =>
    let head := if listing then t.listing else ""
    match vs with
    | v :: vs => head ++ v.shown ++ "\n" ++ transcript listing ts vs
    | [] => head

namespace Settings

def interpreter (s : Settings) : Interpreter := .new s.limit

/-- What is logged of an evaluation. -/
def log (s : Settings) (r : Report) : String :=
  if s.trace then logText "trace: " r.interpreter.store r.events else ""

end Settings

end Lisplet
