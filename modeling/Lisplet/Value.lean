import Lisplet.Decimal.Layout

/-! Values (§3). A value is a kind with a payload; `Value.WellTyped` says that the two fit. Function
bodies are of type `ν`, whatever stands for an expression. -/
namespace Lisplet

/-- Scopes are known by their order of creation, from zero. -/
abbrev ScopeId := Nat

inductive Kind where
  | nil
  | int
  | string
  | bool
  | closure
  | operator
  | unknown (code : Nat)
  deriving DecidableEq, Repr

namespace Kind

def ofCode : Nat → Kind
  | 0 => nil
  | 1 => int
  | 2 => string
  | 3 => bool
  | 4 => closure
  | 5 => operator
  | code => unknown code

def name : Kind → String
  | nil => "nil"
  | int => "int"
  | string => "string"
  | bool => "bool"
  | closure => "closure"
  | operator => "operator"
  | unknown _ => ""

end Kind

/-- A function with the scope it was defined in. -/
structure Closure (ν : Type) where
  name : String
  params : List String
  body : ν
  scope : Option ScopeId
  deriving DecidableEq, Repr

def Closure.text {ν : Type} (c : Closure ν) : String :=
  "<function " ++ c.name ++ " (" ++ " ".intercalate c.params ++ ")>"

inductive Payload (ν : Type) where
  | none
  | int (n : Int32)
  | text (s : String)
  | bool (b : Bool)
  | closure (c : Closure ν)
  deriving DecidableEq, Repr

structure Value (ν : Type) where
  kind : Kind
  payload : Payload ν
  deriving DecidableEq, Repr

variable {ν : Type}

namespace Value

def nil : Value ν := ⟨.nil, .none⟩
def ofInt (n : Int32) : Value ν := ⟨.int, .int n⟩
def ofString (s : String) : Value ν := ⟨.string, .text s⟩
def ofBool (b : Bool) : Value ν := ⟨.bool, .bool b⟩
def ofClosure (c : Closure ν) : Value ν := ⟨.closure, .closure c⟩
def ofOperator (name : String) : Value ν := ⟨.operator, .text name⟩

/-- The payload is of the type that the kind promises. -/
def WellTyped (v : Value ν) : Prop :=
  match v.kind, v.payload with
  | .nil, .none | .int, .int _ | .string, .text _ | .bool, .bool _ => True
  | .closure, .closure _ | .operator, .text _ => True
  | _, _ => False

def int? (v : Value ν) : Option Int32 :=
  match v.payload with
  | .int n => some n
  | _ => none

def text? (v : Value ν) : Option String :=
  match v.payload with
  | .text s => some s
  | _ => none

def bool? (v : Value ν) : Option Bool :=
  match v.payload with
  | .bool b => some b
  | _ => none

def closure? (v : Value ν) : Option (Closure ν) :=
  match v.payload with
  | .closure c => some c
  | _ => none

end Value

def intText (n : Int32) : String := toString n.toInt

def boolText (b : Bool) : String := if b then "true" else "false"

/-- The payload by itself. -/
def Payload.shown : Payload ν → String
  | .none => "<nil>"
  | .int n => intText n
  | .text s => s
  | .bool b => boolText b
  | .closure c => c.text

/-- What the payload is called when it is not what the kind promises. -/
def Payload.typeName : Payload ν → String
  | .none => "nil"
  | .int _ => "int32"
  | .text _ => "string"
  | .bool _ => "bool"
  | .closure _ => "*sexpr.Closure"

namespace Value

/-- The text of a value. There is none if the kind promises an integer, a truth value or a
function and the payload is something else. -/
def render? (v : Value ν) : Option String :=
  match v.kind with
  | .nil => some "nil"
  | .int => v.int?.map intText
  | .bool => v.bool?.map boolText
  | .closure => v.closure?.map Closure.text
  | .string | .operator | .unknown _ => some v.payload.shown

/-- Nonzero integers, true, and everything that is neither integer, truth value nor nil (§4.3). -/
def truthy? (v : Value ν) : Option Bool :=
  match v.kind with
  | .nil => some false
  | .int => v.int?.map (· ≠ 0)
  | .bool => v.bool?
  | .string | .closure | .operator | .unknown _ => some true

/-- The text of a value, or a note on why it has none. -/
def shown (v : Value ν) : String :=
  match v.render? with
  | some s => s
  | none =>
    let wanted := match v.kind with
      | .int => "int32"
      | .bool => "bool"
      | _ => "*sexpr.Closure"
    "%!v(PANIC=String method: interface conversion: interface \x7b\x7d is " ++
      v.payload.typeName ++ ", not " ++ wanted ++ ")"

end Value

/-- Data offered from outside to be made a value. -/
inductive Datum (ν : Type) where
  | nil
  | bool (b : Bool)
  | string (s : String)
  | int (n : Int)
  | closure (c : Closure ν)
  | value (v : Value ν)
  | short (n : Int)
  | float (x : Decimal.Binary64)
  | strings (ss : List String)

inductive ValueError where
  | outOfRange (n : Int)
  | unsupported (text type : String)
  deriving DecidableEq, Repr

def ValueError.message : ValueError → String
  | .outOfRange n => "integer " ++ toString n ++ " out of range"
  | .unsupported text type => "invalid value " ++ text ++ " (" ++ type ++ ")"

/-- Integers have 32 bits; short integers, floating-point numbers and lists of strings are not
values. -/
def Value.ofDatum : Datum ν → Except ValueError (Value ν)
  | .nil => .ok .nil
  | .bool b => .ok (.ofBool b)
  | .string s => .ok (.ofString s)
  | .int n =>
    if Int32.minValue.toInt ≤ n ∧ n ≤ Int32.maxValue.toInt then .ok (.ofInt (Int32.ofInt n))
    else .error (.outOfRange n)
  | .closure c => .ok (.ofClosure c)
  | .value v => .ok v
  | .short n => .error (.unsupported (toString n) "int16")
  | .float x => .error (.unsupported x.text "float64")
  | .strings ss => .error (.unsupported ("[" ++ " ".intercalate ss ++ "]") "[]string")

end Lisplet
