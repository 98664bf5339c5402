import Lisplet.Token

/-! Expression trees (§3). -/
namespace Lisplet

inductive Tree where
  /-- Stands where a node is missing. -/
  | absent
  /-- A node that is neither atom nor list. -/
  | blank
  | atom (token : Option Token) (text : String)
  /-- The token is the opening parenthesis. -/
  | list (token : Option Token) (items : List Tree)
  deriving Inhabited, Repr

namespace Tree

def token? : Tree → Option Token
  | atom token _ | list token _ => token
  | absent | blank => none

def position (t : Tree) : Position :=
  match t.token? with
  | some token => token.position
  | none => .nowhere

def text : Tree → String
  | atom _ text => text
  | _ => ""

def items : Tree → List Tree
  | list _ items => items
  | _ => []

def kindName : Tree → String
  | atom .. => "atom"
  | list .. => "list"
  | absent | blank => ""

mutual

/-- Equality of shape and atom texts. Tokens, and with them places, do not count (§3). -/
def alike : Tree → Tree → Bool
  | absent, absent => true
  | blank, blank => true
  | atom _ a, atom _ b => a = b
  | list _ xs, list _ ys => alikeAll xs ys
  | _, _ => false

def alikeAll : List Tree → List Tree → Bool
  | [], [] => true
  | x :: xs, y :: ys => alike x y && alikeAll xs ys
  | _, _ => false

end

mutual

def hasBlank : Tree → Bool
  | blank => true
  | list _ items => anyBlank items
  | absent | atom .. => false

def anyBlank : List Tree → Bool
  | [] => false
  | t :: ts => hasBlank t || anyBlank ts

end

mutual

/-- An atom of the tree has the text `x`. -/
def mentions (x : String) : Tree → Bool
  | atom _ text => text = x
  | list _ items => anyMentions x items
  | absent | blank => false

def anyMentions (x : String) : List Tree → Bool
  | [] => false
  | t :: ts => mentions x t || anyMentions x ts

end

theorem anyMentions_eq_false_iff {x : String} {ts : List Tree} :
    anyMentions x ts = false ↔ ∀ t ∈ ts, t.mentions x = false := by
  induction ts with
  | nil => simp [anyMentions]
  | cons t ts ih => simp [anyMentions, ih]

mutual

/-- Every node of the tree with its depth, a list before its items. -/
def rows (depth : Nat) : Tree → List (Nat × Tree)
  | list token items => (depth, list token items) :: rowsAll (depth + 1) items
  | t => [(depth, t)]

def rowsAll (depth : Nat) : List Tree → List (Nat × Tree)
  | [] => []
  | t :: ts => rows depth t ++ rowsAll depth ts

end

end Tree

end Lisplet
