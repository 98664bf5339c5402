import Lisplet.Graph
import Lisplet.Tree.Parser

/-! Reading a source into nodes by recursive descent (§4.2). A list is made when its opening
parenthesis is read, and takes each item once the item is complete. Every parenthesis that is taken
is checked, and so is every item that is put into a list. -/
namespace Lisplet

namespace Parser

/-- Why a descent stops: the tokens are wrong, or one of its own checks fails. -/
inductive Obstacle where
  | syntactic (e : SyntaxError)
  /-- Another token than the expected one was taken. -/
  | unmet (t : Token)
  /-- An item was not taken into its list. -/
  | refused (r : Refusal)
  /-- The levels allowed for the descent are used up. -/
  | exhausted

/-- What is left of the tokens is kept on failure. -/
abbrev Descent (α : Type) := ExceptT Obstacle (StateM (List Token)) α

namespace Descent

def stop {α : Type} (o : Obstacle) : Descent α := throw o

def current : Descent Token := fun ts => (.ok (ts.headD .pastEnd), ts)

def advance : Descent Token := fun ts => (.ok (ts.headD .pastEnd), ts.tail)

def expect (kind : Token.Kind) : Descent Token := do
  let t ← current
  if t.kind = kind then advance else stop (.unmet t)

end Descent

open Descent (stop current advance expect)

/-- How a descent puts together what it reads. -/
structure Maker (m : Type → Type) (ν : Type) where
  atom : Token → m ν
  /-- An empty list. -/
  list : Token → m ν
  /-- The list with an item behind the others. -/
  push : ν → ν → m ν

namespace Maker

variable {m : Type → Type} [Monad m] [MonadLiftT Descent m] {ν : Type}

/-- The closing parenthesis behind the items. -/
def closing (items : m ν) : m ν := do
  let list ← items
  let _ ← expect .closeParen
  pure list

mutual

/-- Reads one expression: an atom, or a list in parentheses (§4.2). -/
def one (make : Maker m ν) : Nat → m ν
  | 0 => stop .exhausted
  | level + 1 => do
    let t ← current
    match t.kind with
    | .openParen => do
      let opening ← expect .openParen
      let list ← make.list opening
      closing (make.items level opening list)
    | .number | .string | .symbol | .plus | .minus | .star | .slash => do
      let t ← advance
      make.atom t
    | .eof => stop (.syntactic (.unexpectedEnd t))
    | .closeParen | .invalid _ => stop (.syntactic (.unexpectedToken t))

/-- Reads items into a list, up to its closing parenthesis. -/
def items (make : Maker m ν) : Nat → Token → ν → m ν
  | 0, _, _ => stop .exhausted
  | level + 1, opening, list => do
    let t ← current
    match t.kind with
    | .closeParen => pure list
    | .eof => stop (.syntactic (.missingClose opening))
    | _ => do
      let item ← make.one level
      let list ← make.push list item
      make.items level opening list

end

/-- Reads expressions up to the end of the tokens. -/
def every (make : Maker m ν) : Nat → m (List ν)
  | 0 => stop .exhausted
  | level + 1 => do
    let t ← current
    if t.kind = .eof then pure []
    else do
      let first ← make.one level
      let others ← make.every level
      pure (first :: others)

/-- Nodes of a graph. What was made for a source that turns out wrong is in nobody's hands, and is
dropped. -/
def nodes : Maker (StateT Graph Descent) (Option NodeId) where
  atom t g := pure (some g.nextId, g.add (.atom (some t) t.lexeme))
  list t g :=
    match g.newList (some t) [] with
    | (.ok id, g) => pure (some id, g)
    | (.error f, _) => stop (.refused (.fault f))
  push list item g :=
    match g.push list item with
    | (.ok _, g) => pure (list, g)
    | (.error r, _) => stop (.refused r)

end Maker

/-- Why a source is not read into nodes. -/
inductive Failure where
  | lexical (e : LexicalError)
  | obstacle (o : Obstacle)

end Parser

/-- What is wrong with the source, as the reason of a failure. -/
def ReadError.failure : ReadError → Parser.Failure
  | lexical e => .lexical e
  | grammatical e => .obstacle (.syntactic e)

/-- The nodes of all expressions of a source. Two levels for each token are enough. -/
def Graph.read (g : Graph) (source : List UInt8) :
    Except Parser.Failure (List (Option NodeId) × Graph) :=
  match tokenize source with
  | .error e => .error (.lexical e)
  | .ok tokens =>
    match (Parser.Maker.nodes.every (2 * tokens.length + 2) g tokens).1 with
    | .ok read => .ok read
    | .error o => .error (.obstacle o)

end Lisplet
