import Lisplet.Tree

/-! What evaluation sees of an expression, however expressions are kept. -/
namespace Lisplet

inductive Shape (ν : Type) where
  | absent
  | blank
  | atom (text : String)
  | list (items : List ν)

structure Form (ν : Type) where
  shape : Shape ν
  position : Position

def Tree.shape : Tree → Shape Tree
  | absent => .absent
  | blank => .blank
  | atom _ text => .atom text
  | list _ items => .list items

def Tree.form (t : Tree) : Form Tree := ⟨t.shape, t.position⟩

end Lisplet
