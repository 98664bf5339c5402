import Lisplet.Decimal.Layout
import Lisplet.Position
import Lisplet.Text.Quoted

/-! Tokens: the words of a source text (§3). Here and below, § names a section of the language's
specification. -/
namespace Lisplet

inductive Token.Kind where
  | number
  | string
  | symbol
  | plus
  | minus
  | star
  | slash
  | openParen
  | closeParen
  | eof
  | invalid (code : Nat)
  deriving DecidableEq, Repr

/-- What a token denotes besides its spelling. -/
inductive Token.Literal where
  | number (x : Decimal.Binary64)
  | text (s : String)
  deriving DecidableEq, Repr

structure Token where
  kind : Token.Kind
  lexeme : String
  literal : Option Token.Literal
  position : Position
  deriving DecidableEq, Repr

namespace Token

/-- The kinds are numbered from zero, which is invalid, in the order of their names. -/
def Kind.ofCode : Nat → Kind
  | 1 => .number
  | 2 => .string
  | 3 => .symbol
  | 4 => .plus
  | 5 => .minus
  | 6 => .star
  | 7 => .slash
  | 8 => .openParen
  | 9 => .closeParen
  | 10 => .eof
  | code => .invalid code

def Kind.name : Kind → String
  | .number => "number"
  | .string => "string"
  | .symbol => "symbol"
  | .plus => "plus"
  | .minus => "minus"
  | .star => "star"
  | .slash => "slash"
  | .openParen => "open_expression"
  | .closeParen => "close_expression"
  | .eof => "EOF"
  | .invalid _ => "invalid"

def Kind.isOperator : Kind → Bool
  | .plus | .minus | .star | .slash => true
  | _ => false

/-- Kinds that form an expression by themselves. -/
def Kind.isAtom : Kind → Bool
  | .number | .string | .symbol => true
  | kind => kind.isOperator

def Literal.shown : Literal → String
  | .number x => x.text
  | .text s => s

/-- Stands in where no token was read yet. -/
def unread : Token := ⟨.invalid 0, "", none, .nowhere⟩

/-- The token that stands behind the last one of a list. -/
def pastEnd : Token := ⟨.eof, "", none, .nowhere⟩

def text (t : Token) : String :=
  let literal := match t.literal with
    | some l => " = " ++ l.shown
    | none => ""
  "(:" ++ t.kind.name ++ " " ++ Text.quoted t.lexeme ++ literal ++
    " [" ++ toString t.position.line ++ " " ++ toString t.position.column ++ "])"

end Token

end Lisplet
