import Lisplet.Text.Quoted
import Lisplet.Value

/-! Scopes and their bindings (§3, §4.4). A scope is searched before the one it is nested in, and
names are bound in one scope at a time. -/
namespace Lisplet

/-- Names with what they are bound to, each name once, in the order of first binding. -/
abbrev Bindings (α : Type) := List (String × α)

namespace Bindings

variable {α : Type}

def get? : Bindings α → String → Option α
  | [], _ => none
  | (y, b) :: bs, x => if y = x then some b else get? bs x

def set : Bindings α → String → α → Bindings α
  | [], x, a => [(x, a)]
  | (y, b) :: bs, x, a => if y = x then (x, a) :: bs else (y, b) :: set bs x a

/-- A name is found as it was bound last, and no other name is touched. -/
theorem get?_set (bs : Bindings α) (x y : String) (a : α) :
    (bs.set x a).get? y = if x = y then some a else bs.get? y := by
  induction bs with
  | nil => rfl
  | cons b bs ih =>
    obtain ⟨z, b⟩ := b
    by_cases hz : z = x
    · subst z; by_cases hy : x = y <;> simp [set, get?, hy]
    · by_cases hy : z = y
      · subst y; simp [set, get?, hz, Ne.symm hz]
      · simp [set, get?, hz, hy, ih]

end Bindings

structure Scope (ν : Type) where
  name : String
  parent : Option ScopeId
  bindings : Bindings (Value ν)

/-- All scopes ever created, each at the index it is known by. -/
structure Store (ν : Type) where
  scopes : Array (Scope ν)

namespace Store

variable {ν : Type}

def empty : Store ν := ⟨#[]⟩

/-- The identity of the scope that is created next. -/
def nextId (st : Store ν) : ScopeId := st.scopes.size

def create (st : Store ν) (parent : Option ScopeId) (name : String) : Store ν :=
  ⟨st.scopes.push ⟨name, parent, []⟩⟩

def modify (st : Store ν) (id : ScopeId) (f : Scope ν → Scope ν) : Store ν :=
  ⟨st.scopes.modify id f⟩

def rename (st : Store ν) (id : ScopeId) (name : String) : Store ν :=
  st.modify id fun s => { s with name }

def define (st : Store ν) (id : ScopeId) (x : String) (v : Value ν) : Store ν :=
  st.modify id fun s => { s with bindings := s.bindings.set x v }

/-- Binds names to values in order. -/
def defineAll (st : Store ν) (id : ScopeId) : List String → List (Value ν) → Store ν
  | x :: xs, v :: vs => (st.define id x v).defineAll id xs vs
  | _, _ => st

/-- Searches a scope and the ones it is nested in (§3). A scope is created after its parent, so the
search goes down in number. -/
def lookupFrom (st : Store ν) (x : String) (id : ScopeId) : Option (Value ν) :=
  match st.scopes[id]? with
  | none => none
  | some s =>
    match s.bindings.get? x, s.parent with
    | some v, _ => some v
    | none, none => none
    | none, some parent => if parent < id then lookupFrom st x parent else none
termination_by id

/-- Without a scope nothing is bound. -/
def lookup (st : Store ν) (scope : Option ScopeId) (x : String) : Option (Value ν) :=
  scope.bind (st.lookupFrom x)

def parent? (st : Store ν) (id : ScopeId) : Option ScopeId :=
  st.scopes[id]?.bind Scope.parent

/-- The number of names bound in the scope itself. -/
def count (st : Store ν) (id : ScopeId) : Nat :=
  match st.scopes[id]? with
  | some s => s.bindings.length
  | none => 0

/-- Scopes are numbered from one in texts. -/
def scopeText (st : Store ν) (id : ScopeId) : String :=
  let name := match st.scopes[id]? with
    | some s => s.name
    | none => ""
  "[" ++ toString (id + 1) ++ "]: " ++ Text.quoted name

end Store

/-- A name was asked for that is bound nowhere. -/
structure Undefined where
  name : String
  deriving DecidableEq, Repr

def Undefined.message (e : Undefined) : String := "undefined value " ++ Text.quoted e.name

def Store.get {ν : Type} (st : Store ν) (scope : Option ScopeId) (x : String) :
    Except Undefined (Value ν) :=
  match st.lookup scope x with
  | some v => .ok v
  | none => .error ⟨x⟩

end Lisplet
