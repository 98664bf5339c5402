/-! Faults: misuse that no program text can cause, only trees, tokens, scopes and values put
together by hand. They stand apart from the errors that a program reports. -/
namespace Lisplet

inductive Fault where
  /-- A node, token or scope was needed and is absent. -/
  | missing
  /-- The payload of a value does not fit the use made of it. -/
  | mistyped
  /-- A node that is neither atom nor list was printed. -/
  | unprintable
  /-- A node that is neither atom nor list was evaluated. -/
  | unevaluable
  deriving DecidableEq, Repr

def Fault.message? : Fault → Option String
  | .missing | .mistyped => none
  | .unprintable => some "unknown node type"
  | .unevaluable => some "unreachable"

end Lisplet
