import Lisplet.Fault
import Lisplet.Tree

/-! Two ways to write trees (§6): as source text on one line, and as an indented listing with the
token of every node. -/
namespace Lisplet.Tree

mutual

/-- The tree as source text. Atoms are written bare, strings without their quotes. -/
def chars : Tree → List Char
  | absent => [':', 'n', 'i', 'l']
  | blank => []
  | atom _ text => text.toList
  | list _ items => '(' :: charsAll items ++ [')']

/-- Trees separated by one space. -/
def charsAll : List Tree → List Char
  | [] => []
  | [t] => chars t
  | t :: u :: ts => chars t ++ ' ' :: charsAll (u :: ts)

end

/-- A node that is neither atom nor list cannot be written. -/
def encodeAll (ts : List Tree) : Except Fault String :=
  if anyBlank ts then .error .unprintable else .ok (String.ofList (charsAll ts))

def encode (t : Tree) : Except Fault String := encodeAll [t]

def tokenText : Option Token → String
  | some token => token.text
  | none => "<nil>"

def line : Tree → String
  | absent => ":nil\n"
  | blank => "(): "
  | atom token text => "(atom): " ++ Text.quoted text ++ " (" ++ tokenText token ++ ")\n"
  | list token _ => "(list): (" ++ tokenText token ++ ")\n"

/-- The lines of a listing, up to the first node that cannot be printed. -/
def lines : List (Nat × Tree) → List String
  | [] => []
  | (depth, t) :: rows =>
    let first := String.ofList (List.replicate (4 * depth) ' ') ++ line t
    match t with
    | blank => [first]
    | _ => first :: lines rows

/-- The listing. Where it breaks off at a node that is neither atom nor list, `hasBlank` holds. -/
def listing (t : Tree) : String := String.join (lines (rows 0 t))

end Lisplet.Tree
