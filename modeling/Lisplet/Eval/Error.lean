import Lisplet.Fault
import Lisplet.Position
import Lisplet.Text.Quoted
import Lisplet.Value

/-! What can go wrong in evaluation (§4.3), and how it is reported (§7). -/
namespace Lisplet

/-- Faults of a definition. -/
inductive EvalError.DefineFault where
  | argumentCount (count : Nat)
  | emptySignature
  | notAtom
  deriving DecidableEq, Repr

/-- Operands an operator asks for. -/
inductive EvalError.Operands where
  | atLeastOne
  | two (given : Nat)
  deriving DecidableEq, Repr

inductive EvalError.Cause where
  | emptyList
  | unknownOperator (name : String)
  | notCallable (kind : Kind) (text : String)
  | expectedInteger (kind : Kind) (text : String)
  | divisionByZero
  | arityMismatch (name : String) (params args : Nat)
  | operandCount (name : String) (operands : EvalError.Operands)
  | invalidDefine (fault : EvalError.DefineFault)
  | invalidIf (count : Nat)
  | depthExceeded (limit : Nat)
  deriving DecidableEq, Repr

structure EvalError where
  cause : EvalError.Cause
  position : Position
  deriving DecidableEq, Repr

namespace EvalError

def Cause.what : Cause → String
  | emptyList => "cannot evaluate empty list"
  | unknownOperator _ => "unknown operator"
  | notCallable .. => "cannot apply operator of this type"
  | expectedInteger .. => "expected integer operand"
  | divisionByZero => "division by zero"
  | arityMismatch .. => "arity mismatch"
  | operandCount .. => "wrong number of operands"
  | invalidDefine _ => "invalid define"
  | invalidIf _ => "invalid if"
  | depthExceeded _ => "maximum recursion depth exceeded"

def DefineFault.text : DefineFault → String
  | argumentCount count => "expected 2 arguments, got " ++ toString count
  | emptySignature => "empty function signature"
  | notAtom => "function name and parameters must be atoms"

def Operands.text : Operands → String
  | atLeastOne => "expects at least 1 operand"
  | two given => "expects 2 operands, got " ++ toString given

def Cause.detail? : Cause → Option String
  | emptyList | divisionByZero => none
  | unknownOperator name => Text.quoted name
  | notCallable kind text => kind.name ++ " " ++ text
  | expectedInteger kind text => "got " ++ kind.name ++ " " ++ Text.quoted text
  | arityMismatch name params args =>
    name ++ " expects " ++ toString params ++ " arguments, got " ++ toString args
  | operandCount name operands => Text.quoted name ++ " " ++ operands.text
  | invalidDefine fault => fault.text
  | invalidIf count => "expected 2 or 3 arguments, got " ++ toString count
  | depthExceeded limit => "limit is " ++ toString limit

def Cause.text (c : Cause) : String :=
  match c.detail? with
  | some detail => c.what ++ ": " ++ detail
  | none => c.what

/-- The place is told only if there is one. -/
def message (e : EvalError) : String :=
  if 0 < e.position.line then e.cause.text ++ " at " ++ e.position.text else e.cause.text

end EvalError

/-- Why an evaluation ended without a value. -/
inductive Halt where
  | error (e : EvalError)
  | fault (f : Fault)
  deriving DecidableEq, Repr

end Lisplet
