import Lisplet.Token.Lexer
import Lisplet.Tree

/-! Building trees from tokens (§4.2). An expression is an atom or a parenthesised list of
expressions. -/
namespace Lisplet

/-- Each cause names the token to blame. -/
inductive SyntaxError where
  | unexpectedEnd (t : Token)
  | unexpectedToken (t : Token)
  /-- The token is the opening parenthesis. -/
  | missingClose (t : Token)
  deriving DecidableEq, Repr

namespace SyntaxError

def what : SyntaxError → String
  | unexpectedEnd _ => "unexpected EOF"
  | unexpectedToken _ => "unexpected token"
  | missingClose _ => "missing closing paren"

def token : SyntaxError → Token
  | unexpectedEnd t | unexpectedToken t | missingClose t => t

def message (e : SyntaxError) : String :=
  let t := e.token
  if t.position.line = 0 then e.what
  else match t.kind with
    | .eof => e.what ++ " at " ++ t.position.text
    | .openParen =>
      e.what ++ " for " ++ Text.quoted t.lexeme ++ " opened at " ++ t.position.text
    | _ => e.what ++ " " ++ Text.quoted t.lexeme ++ " at " ++ t.position.text

end SyntaxError

namespace Parser

/-- A list whose closing parenthesis is still to come, with its items so far, the last one first. -/
structure Frame where
  opening : Token
  items : List Tree

def Frame.push (f : Frame) (t : Tree) : Frame := { f with items := t :: f.items }

def Frame.close (f : Frame) : Tree := .list (some f.opening) f.items.reverse

/-- What is wrong when the tokens end inside these lists, the innermost one first. -/
def endError (eof : Token) : List Frame → SyntaxError
  | [] => .unexpectedEnd eof
  | f :: _ => .missingClose f.opening

/-- Reads the rest of the expression that the open lists belong to, or a whole one if there are none
(§4.2). On failure the tokens from the one it stopped at remain. -/
def expression (stack : List Frame) : List Token → Except SyntaxError Tree × List Token
  | [] => (.error (endError .pastEnd stack), [])
  | t :: ts =>
    match t.kind with
    | .openParen => expression (⟨t, []⟩ :: stack) ts
    | .closeParen =>
      match stack with
      | [] => (.error (.unexpectedToken t), t :: ts)
      | [f] => (.ok f.close, ts)
      | f :: g :: fs => expression (g.push f.close :: fs) ts
    | .eof => (.error (endError t stack), t :: ts)
    | .invalid _ => (.error (.unexpectedToken t), t :: ts)
    | .number | .string | .symbol | .plus | .minus | .star | .slash =>
      match stack with
      | [] => (.ok (.atom (some t) t.lexeme), ts)
      | f :: fs => expression (f.push (.atom (some t) t.lexeme) :: fs) ts

theorem length_expression_lt {stack : List Frame} {ts rest : List Token} {tree : Tree}
    (h : expression stack ts = (.ok tree, rest)) : rest.length < ts.length := by
  induction ts generalizing stack with
  | nil => simp [expression] at h
  | cons t ts ih =>
    have deeper {stack' : List Frame} (h : expression stack' ts = (.ok tree, rest)) :
        rest.length < (t :: ts).length := Nat.lt_succ_of_lt (ih h)
    have here {tree' : Tree}
        (h : ((.ok tree' : Except SyntaxError Tree), ts) = (.ok tree, rest)) :
        rest.length < (t :: ts).length := by
      cases h; exact Nat.lt_succ_self _
    unfold expression at h
    split at h
    · exact deeper h
    · split at h
      · cases h
      · exact here h
      · exact deeper h
    · cases h
    · cases h
    all_goals
      split at h
      · exact here h
      · exact deeper h

/-- Whether no expression can follow because the tokens are at their end. -/
def atEnd : List Token → Bool
  | [] => true
  | t :: _ => t.kind = .eof

/-- Reads expressions up to the end, or to the first malformed one. -/
def all (ts : List Token) : Except SyntaxError (List Tree) × List Token :=
  if atEnd ts then (.ok [], ts)
  else match _h : expression [] ts with
    | (.error e, rest) => (.error e, rest)
    | (.ok tree, rest) =>
      match all rest with
      | (.ok trees, rest) => (.ok (tree :: trees), rest)
      | (.error e, rest) => (.error e, rest)
termination_by ts.length
decreasing_by exact length_expression_lt _h

end Parser

/-- What can be wrong with a source text. -/
inductive ReadError where
  | lexical (e : LexicalError)
  | grammatical (e : SyntaxError)
  deriving DecidableEq, Repr

namespace ReadError

def message : ReadError → String
  | lexical e => e.message
  | grammatical e => e.message

/-- Whether more text could make the source valid (§4.2). -/
def isIncomplete : ReadError → Bool
  | lexical ⟨.unterminatedString, _⟩ => true
  | lexical _ => false
  | grammatical (.unexpectedEnd _) => true
  | grammatical (.missingClose _) => true
  | grammatical (.unexpectedToken _) => false

end ReadError

/-- All expressions of a source. It is cut into tokens as a whole before any tree is built. -/
def parse (source : List UInt8) : Except ReadError (List Tree) :=
  match tokenize source with
  | .error e => .error (.lexical e)
  | .ok tokens =>
    match (Parser.all tokens).1 with
    | .ok trees => .ok trees
    | .error e => .error (.grammatical e)

end Lisplet
