import Lisplet.Eval.Form
import Lisplet.Fault

/-! Nodes as shared, growing objects (§3). A node may stand in several lists; its parent is the list
that took it last. `Graph.toTree` is the tree that is seen from a node. -/
namespace Lisplet

abbrev NodeId := Nat

inductive Node.Kind where
  | atom
  | list
  | blank
  deriving DecidableEq, Repr

structure Node where
  kind : Node.Kind
  token : Option Token
  text : String
  /-- A missing node can be among the children. -/
  children : List (Option NodeId)
  parent : Option NodeId
  deriving DecidableEq, Repr

namespace Node

def Kind.name : Kind → String
  | .atom => "atom"
  | .list => "list"
  | .blank => ""

def position (n : Node) : Position :=
  match n.token with
  | some token => token.position
  | none => .nowhere

def atom (token : Option Token) (text : String) : Node := ⟨.atom, token, text, [], none⟩

def emptyList (token : Option Token) : Node := ⟨.list, token, "", [], none⟩

def blank : Node := ⟨.blank, none, "", [], none⟩

def form (n : Node) : Form (Option NodeId) :=
  match n.kind with
  | .atom => ⟨.atom n.text, n.position⟩
  | .list => ⟨.list n.children, n.position⟩
  | .blank => ⟨.blank, n.position⟩

end Node

/-- All nodes ever made, each at the index it is known by. -/
structure Graph where
  nodes : Array Node

/-- Why a node was not taken. -/
inductive Refusal where
  | notAList
  | fault (f : Fault)
  deriving DecidableEq, Repr

def Refusal.message? : Refusal → Option String
  | .notAList => some "nodes of type atom can't accept children"
  | .fault f => f.message?

namespace Graph

def empty : Graph := ⟨#[]⟩

def get? (g : Graph) (id : Option NodeId) : Option Node := id.bind (g.nodes[·]?)

def nextId (g : Graph) : NodeId := g.nodes.size

def add (g : Graph) (n : Node) : Graph := ⟨g.nodes.push n⟩

def append (g : Graph) (list : NodeId) (child : Option NodeId) : Graph :=
  ⟨g.nodes.modify list fun n => { n with children := n.children ++ [child] }⟩

def setParent (g : Graph) (child parent : NodeId) : Graph :=
  ⟨g.nodes.modify child fun n => { n with parent := some parent }⟩

/-- The list takes the node. -/
def adopt (g : Graph) (list child : NodeId) : Graph :=
  (g.append list (some child)).setParent child list

/-- Takes one node after the other, up to a missing one. -/
def adoptAll (g : Graph) (list : NodeId) : List (Option NodeId) → Except Fault Unit × Graph
  | [] => (.ok (), g)
  | none :: _ => (.error .missing, g)
  | some child :: rest => (g.adopt list child).adoptAll list rest

/-- A new list of given nodes. The nodes in front of a missing one are taken all the same. -/
def newList (g : Graph) (token : Option Token) (children : List (Option NodeId)) :
    Except Fault NodeId × Graph :=
  match (g.add (.emptyList token)).adoptAll g.nextId children with
  | (.ok _, g') => (.ok g.nextId, g')
  | (.error f, g') => (.error f, g')

/-- Appends to a list. A missing node is appended before the misuse shows. -/
def push (g : Graph) (target child : Option NodeId) : Except Refusal Unit × Graph :=
  match target, g.get? target with
  | some list, some n =>
    if n.kind = .list then
      match child with
      | some child => (.ok (), g.adopt list child)
      | none => (.error (.fault .missing), g.append list none)
    else (.error .notAList, g)
  | _, _ => (.error (.fault .missing), g)

/-- Makes a node and appends it to a list. Where that fails nothing is made. -/
def pushNew (g : Graph) (target : Option NodeId) (n : Node) : Except Refusal NodeId × Graph :=
  match (g.add n).push target (some g.nextId) with
  | (.ok _, g') => (.ok g.nextId, g')
  | (.error e, _) => (.error e, g)

def pushAtom (g : Graph) (target : Option NodeId) :
    Option Token → Except Refusal NodeId × Graph
  | some token => g.pushNew target (.atom (some token) token.lexeme)
  | none => (.error (.fault .missing), g)

def pushList (g : Graph) (target : Option NodeId) (token : Option Token) :
    Except Refusal NodeId × Graph :=
  g.pushNew target (.emptyList token)

/-- What evaluation sees of a node. -/
def form (g : Graph) (id : Option NodeId) : Form (Option NodeId) :=
  match g.get? id with
  | some n => n.form
  | none => ⟨.absent, .nowhere⟩

/-- The tree seen from a node, down to a depth. -/
def unfold (g : Graph) : Nat → Option NodeId → Tree
  | 0, _ => .absent
  | depth + 1, id =>
    match g.get? id with
    | none => .absent
    | some n =>
      match n.kind with
      | .blank => .blank
      | .atom => .atom n.token n.text
      | .list => .list n.token (n.children.map (g.unfold depth))

/-- The tree seen from a node. Without a cycle no path is longer than there are nodes. -/
def toTree (g : Graph) (id : Option NodeId) : Tree := g.unfold g.nodes.size id

mutual

/-- Makes the nodes of a tree, each a child of the list it stands in, in the order in which reading
makes them (§4.2). -/
def load (g : Graph) : Tree → Option NodeId × Graph
  | .absent => (none, g)
  | .blank => (some g.nextId, g.add .blank)
  | .atom token text => (some g.nextId, g.add (.atom token text))
  | .list token items => (some g.nextId, (g.add (.emptyList token)).loadAll g.nextId items)

/-- Makes the nodes of some trees and appends them to a list. -/
def loadAll (g : Graph) (list : NodeId) : List Tree → Graph
  | [] => g
  | t :: ts =>
    match g.load t with
    | (some child, g') => (g'.adopt list child).loadAll list ts
    | (none, g') => (g'.append list none).loadAll list ts

end

/-- Makes the nodes of some trees that stand side by side, in no list. -/
def loadApart (g : Graph) : List Tree → List (Option NodeId) × Graph
  | [] => ([], g)
  | t :: ts =>
    let (id, g') := g.load t
    let (ids, g'') := g'.loadApart ts
    (id :: ids, g'')

end Graph

end Lisplet
