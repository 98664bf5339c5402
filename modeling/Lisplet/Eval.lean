import Lisplet.Decimal.Numeral
import Lisplet.Eval.Error
import Lisplet.Eval.Form
import Lisplet.Trace

/-! Evaluation (§4.3). Each construct is written over an evaluator for the expressions inside it;
`eval` closes the recursion, and its depth is bounded by the limit that programs can observe. -/
namespace Lisplet

variable {ν : Type}

/-- The state of an evaluation: the store, and the events that led to it. -/
structure Machine (ν : Type) where
  store : Store ν
  trace : Array (Event ν)

abbrev Eval (ν : Type) := ExceptT Halt (StateM (Machine ν))

/-- Evaluates an expression in a scope. -/
abbrev Evaluator (ν : Type) := Option ScopeId → ν → Eval ν (Value ν)

namespace Eval

def fail {α : Type} (position : Position) (cause : EvalError.Cause) : Eval ν α :=
  throw (.error ⟨cause, position⟩)

def fault {α : Type} (f : Fault) : Eval ν α := throw (.fault f)

/-- A payload that the kind of its value promises. -/
def need {α : Type} : Option α → Eval ν α
  | some a => pure a
  | none => fault .mistyped

def assign (scope : Option ScopeId) (name : String) (v : Value ν) : Eval ν Unit :=
  match scope with
  | some id => modify fun m => ⟨m.store.define id name v, m.trace.push (.define id name v)⟩
  | none => fault .missing

/-- Opens the scope of a call and binds the parameters in it. -/
def enter (c : Closure ν) (args : List (Value ν)) : Eval ν ScopeId :=
  modifyGet fun m =>
    let id := m.store.nextId
    (id, ⟨(m.store.create c.scope c.name).defineAll id c.params args, m.trace.push (.apply c args)⟩)

end Eval

inductive Arithmetic where
  | add
  | sub
  | mul
  | div
  deriving DecidableEq, Repr

/-- Results wrap around at 32 bits; quotients are cut off towards zero, and zero divides nothing
(§4.3). -/
def Arithmetic.apply? (op : Arithmetic) (a b : Int32) : Option Int32 :=
  match op with
  | add => some (a + b)
  | sub => some (a - b)
  | mul => some (a * b)
  | div => if b = 0 then none else some (a / b)

inductive Comparison where
  | greater
  | less
  deriving DecidableEq, Repr

def Comparison.holds (op : Comparison) (a b : Int32) : Bool :=
  match op with
  | greater => b < a
  | less => a < b

inductive Operator where
  | define
  | branch
  | arithmetic (op : Arithmetic)
  | comparison (op : Comparison)
  deriving DecidableEq, Repr

def Operator.ofName? : String → Option Operator
  | "define" => some define
  | "if" => some branch
  | "+" => some (arithmetic .add)
  | "-" => some (arithmetic .sub)
  | "*" => some (arithmetic .mul)
  | "/" => some (arithmetic .div)
  | ">" => some (comparison .greater)
  | "<" => some (comparison .less)
  | _ => none

/-- The integer of 32 bits that a text spells: a sign or none, then one or more digits. -/
def integer? (text : String) : Option Int32 :=
  let (negative, digits) := match text.toList with
    | '+' :: cs => (false, cs)
    | '-' :: cs => (true, cs)
    | cs => (false, cs)
  if digits.isEmpty || !digits.all Decimal.isDigit then none
  else
    let n : Int := Decimal.digitsValue digits
    let n := if negative then -n else n
    if Int32.minValue.toInt ≤ n ∧ n ≤ Int32.maxValue.toInt then some (Int32.ofInt n) else none

/-- What a text that is bound nowhere stands for: an integer, an operator, or itself (§4.3). -/
def Value.ofText (text : String) : Value ν :=
  match integer? text, Operator.ofName? text with
  | some n, _ => .ofInt n
  | none, some _ => .ofOperator text
  | none, none => .ofString text

namespace Eval

variable (view : ν → Form ν) (ev : Evaluator ν) (scope : Option ScopeId)

def atom (text : String) : Eval ν (Value ν) := do
  return ((← get).store.lookup scope text).getD (.ofText text)

def integer (node : ν) : Eval ν Int32 := do
  let v ← ev scope node
  if v.kind = .int then need v.int?
  else fail (view node).position (.expectedInteger v.kind (← need v.render?))

/-- Takes one operand after the other into the result. -/
def accumulate (op : Arithmetic) : Int32 → List ν → Eval ν Int32
  | acc, [] => pure acc
  | acc, arg :: args => do
    let n ← integer view ev scope arg
    match op.apply? acc n with
    | some acc => accumulate op acc args
    | none => fail (view arg).position .divisionByZero

def arithmetic (position : Position) (name : String) (op : Arithmetic) :
    List ν → Eval ν (Value ν)
  | [] => fail position (.operandCount name .atLeastOne)
  | arg :: args => do
    let first ← integer view ev scope arg
    return .ofInt (← accumulate view ev scope op first args)

def comparison (position : Position) (name : String) (op : Comparison) :
    List ν → Eval ν (Value ν)
  | [left, right] => do
    let a ← integer view ev scope left
    let b ← integer view ev scope right
    return .ofBool (op.holds a b)
  | args => fail position (.operandCount name (.two args.length))

/-- The name and the parameters of a function definition. -/
def signature : List ν → Eval ν (List String)
  | [] => pure []
  | item :: items => do
    match (view item).shape with
    | .absent => fault .missing
    | .atom text => return text :: (← signature items)
    | .blank | .list _ => fail (view item).position (.invalidDefine .notAtom)

def function (position : Position) (items : List ν) (body : ν) : Eval ν (Value ν) := do
  match ← signature view items with
  | [] => fail position (.invalidDefine .emptySignature)
  | name :: params =>
    let v := Value.ofClosure ⟨name, params, body, scope⟩
    assign scope name v
    return v

def define (position : Position) : List ν → Eval ν (Value ν)
  | [head, body] =>
    match (view head).shape with
    | .absent => fault .missing
    | .atom name => do
      let v ← ev scope body
      assign scope name v
      return v
    | .blank => function view scope (view head).position [] body
    | .list items => function view scope (view head).position items body
  | args => fail position (.invalidDefine (.argumentCount args.length))

def branch (position : Position) : List ν → Eval ν (Value ν)
  | [condition, yes] => do
    if ← need (← ev scope condition).truthy? then ev scope yes else return .nil
  | [condition, yes, no] => do
    if ← need (← ev scope condition).truthy? then ev scope yes else ev scope no
  | args => fail position (.invalidIf args.length)

def arguments : List ν → Eval ν (List (Value ν))
  | [] => pure []
  | arg :: args => do
    let v ← ev scope arg
    return v :: (← arguments args)

/-- Arguments are evaluated where the call stands, the body in a new scope nested in the one of
the definition (§3, §4.3). -/
def apply (position : Position) (c : Closure ν) (args : List ν) : Eval ν (Value ν) := do
  if args.length ≠ c.params.length then
    fail position (.arityMismatch c.name c.params.length args.length)
  else
    let values ← arguments ev scope args
    let inner ← enter c values
    ev (some inner) c.body

def call (position : Position) (head : Value ν) (args : List ν) : Eval ν (Value ν) := do
  match head.kind with
  | .operator =>
    let name ← need head.text?
    match Operator.ofName? name with
    | some .define => define view ev scope position args
    | some .branch => branch ev scope position args
    | some (.arithmetic op) => arithmetic view ev scope position name op args
    | some (.comparison op) => comparison view ev scope position name op args
    | none => fail position (.unknownOperator name)
  | .closure => apply ev scope position (← need head.closure?) args
  | .string => fail position (.unknownOperator (← need head.text?))
  | kind => fail position (.notCallable kind head.shown)

def list (position : Position) : List ν → Eval ν (Value ν)
  | [] => fail position .emptyList
  | head :: args => do
    let v ← ev scope head
    call view ev scope position v args

end Eval

/-- Evaluates with `depth` levels left of `limit`. -/
def eval (view : ν → Form ν) (limit : Nat) : Nat → Evaluator ν
  | 0, _, node =>
    match (view node).shape with
    | .absent => Eval.fault .missing
    | _ => Eval.fail (view node).position (.depthExceeded limit)
  | depth + 1, scope, node =>
    match (view node).shape with
    | .absent => Eval.fault .missing
    | .blank => Eval.fault .unevaluable
    | .atom text => Eval.atom scope text
    | .list items => Eval.list view (eval view limit depth) scope (view node).position items

def defaultLimit : Nat := 10000

/-- The limit in force (§4.3): the default, unless a positive one is asked for. -/
def effectiveLimit (n : Int) : Nat := if n ≤ 0 then defaultLimit else n.toNat

/-- Evaluates one expression, starting with all levels of the limit. -/
def run (view : ν → Form ν) (limit : Int) (scope : Option ScopeId) (node : ν) (st : Store ν) :
    Except Halt (Value ν) × Machine ν :=
  (eval view (effectiveLimit limit) (effectiveLimit limit) scope node).run.run ⟨st, #[]⟩

end Lisplet
