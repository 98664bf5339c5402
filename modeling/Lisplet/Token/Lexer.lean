import Lisplet.Decimal.Numeral
import Lisplet.Text.Letter
import Lisplet.Text.Utf8
import Lisplet.Token

/-! Cutting a source text into tokens (§4.1). `cut` decides what the next token is from the
characters alone; `Cursor.pull` adds the places and skips blanks. -/
namespace Lisplet

inductive LexicalError.Cause where
  | unexpectedCharacter (c : Char)
  | unterminatedString
  | malformedNumber (text : String)
  deriving DecidableEq, Repr

/-- The position is that of the first character of the offending token. -/
structure LexicalError where
  cause : LexicalError.Cause
  position : Position
  deriving DecidableEq, Repr

def LexicalError.Cause.text : LexicalError.Cause → String
  | .unexpectedCharacter c => "unexpected character " ++ Text.quotedChar c
  | .unterminatedString => "unterminated string"
  | .malformedNumber text => "malformed number " ++ Text.quoted text

def LexicalError.message (e : LexicalError) : String :=
  e.cause.text ++ " at " ++ e.position.text

namespace Lexer

def isBlank (c : Char) : Bool := c = ' ' || c = '\t' || c = '\r' || c = '\n'

def isSymbolStart (c : Char) : Bool :=
  Text.isLetter c || c = '=' || c = '!' || c = '<' || c = '>' || c = '?' || c = '.'

def endsSymbol (c : Char) : Bool := isBlank c || c = '(' || c = ')' || c = '"'

def isNumeral (c : Char) : Bool := Decimal.isDigit c || c = '.'

def startsWithDigit : List Char → Bool
  | c :: _ => Decimal.isDigit c
  | [] => false

/-- Characters that are a token whatever follows them. -/
def punctuation? : Char → Option Token.Kind
  | '(' => some .openParen
  | ')' => some .closeParen
  | '+' => some .plus
  | '*' => some .star
  | '/' => some .slash
  | _ => none

/-- A token without its place. -/
structure Piece where
  kind : Token.Kind
  lexeme : List Char
  literal : Option Token.Literal
  /-- The characters of the source it takes, with the quotes of a string. -/
  span : List Char
  deriving DecidableEq, Repr

def Piece.token (p : Piece) (start : Position) : Token :=
  ⟨p.kind, String.ofList p.lexeme, p.literal, start⟩

/-- A piece whose lexeme is all it takes. -/
def Piece.plain (kind : Token.Kind) (lexeme : List Char) (literal : Option Token.Literal) : Piece :=
  ⟨kind, lexeme, literal, lexeme⟩

/-- A string runs to the next quote, over line ends too; there are no escapes. -/
def cutString (cs : List Char) : Except LexicalError.Cause (Piece × List Char) :=
  let content := cs.takeWhile (· ≠ '"')
  match cs.dropWhile (· ≠ '"') with
  | [] => .error .unterminatedString
  | _ :: rest =>
    .ok (⟨.string, content, some (.text (String.ofList content)), '"' :: content ++ ['"']⟩, rest)

/-- A number takes every digit and point that follows. -/
def cutNumber (c : Char) (cs : List Char) : Except LexicalError.Cause (Piece × List Char) :=
  let lexeme := c :: cs.takeWhile isNumeral
  match Decimal.numeral? lexeme with
  | some x => .ok (.plain .number lexeme (some (.number x)), cs.dropWhile isNumeral)
  | none => .error (.malformedNumber (String.ofList lexeme))

def cutSymbol (c : Char) (cs : List Char) : Piece × List Char :=
  (.plain .symbol (c :: cs.takeWhile (!endsSymbol ·)) none, cs.dropWhile (!endsSymbol ·))

/-- The first piece of `c :: cs`, where `c` is not blank, by the rules of §4.1, and the characters
behind it. -/
def cut (c : Char) (cs : List Char) : Except LexicalError.Cause (Piece × List Char) :=
  match punctuation? c with
  | some kind => .ok (.plain kind [c] none, cs)
  | none =>
    if c = '"' then cutString cs
    else if Decimal.isDigit c || c = '-' && startsWithDigit cs then cutNumber c cs
    else if c = '-' then .ok (.plain .minus [c] none, cs)
    else if isSymbolStart c then .ok (cutSymbol c cs)
    else .error (.unexpectedCharacter c)

theorem length_cut_le {c : Char} {cs rest : List Char} {piece : Piece}
    (h : cut c cs = .ok (piece, rest)) : rest.length ≤ cs.length := by
  unfold cut at h
  split at h
  · cases h; exact Nat.le_refl _
  · split at h
    · unfold cutString at h
      dsimp only at h
      split at h
      · cases h
      · rename_i tail hd
        cases h
        have shorter := (List.dropWhile_sublist (l := cs) (· ≠ '"')).length_le
        rw [hd, List.length_cons] at shorter
        omega
    · split at h
      · unfold cutNumber at h
        dsimp only at h
        split at h
        · cases h; exact (List.dropWhile_sublist _).length_le
        · cases h
      · split at h
        · cases h; exact Nat.le_refl _
        · split at h
          · cases h; exact (List.dropWhile_sublist _).length_le
          · cases h

/-- A place in a source with the characters from there on. -/
structure Cursor where
  position : Position
  rest : List Char
  deriving DecidableEq, Repr

inductive Pull where
  | token (t : Token) (next : Cursor)
  | finish (eof : Token)
  | error (e : LexicalError)
  deriving DecidableEq, Repr

/-- The next token. At the end of the source it is the token that says so. -/
def Cursor.pull (s : Cursor) : Pull :=
  let start := s.position.advance (s.rest.takeWhile isBlank)
  match s.rest.dropWhile isBlank with
  | [] => .finish ⟨.eof, "", none, start⟩
  | c :: cs =>
    match cut c cs with
    | .ok (piece, rest) => .token (piece.token start) ⟨start.advance piece.span, rest⟩
    | .error cause => .error ⟨cause, start⟩

theorem Cursor.length_pull_lt {s next : Cursor} {t : Token} (h : s.pull = .token t next) :
    next.rest.length < s.rest.length := by
  unfold Cursor.pull at h
  dsimp only at h
  have shorter := (List.dropWhile_sublist (l := s.rest) isBlank).length_le
  split at h
  · cases h
  · rename_i c cs hd
    rw [hd, List.length_cons] at shorter
    split at h
    · rename_i piece rest hc
      cases h
      have := length_cut_le hc
      dsimp only
      omega
    · cases h

/-- All tokens from here on, the one for the end of the source last. -/
def Cursor.tokens (s : Cursor) : Except LexicalError (List Token) :=
  match _h : s.pull with
  | .token t next => next.tokens.map (t :: ·)
  | .finish eof => .ok [eof]
  | .error e => .error e
termination_by s.rest.length
decreasing_by exact length_pull_lt _h

/-- A byte order mark in front of a source is no part of it. -/
def sourceChars (source : List UInt8) : List Char :=
  match Text.Utf8.decode source with
  | '\uFEFF' :: cs => cs
  | cs => cs

def Cursor.ofSource (source : List UInt8) : Cursor := ⟨.start, sourceChars source⟩

end Lexer

def tokenize (source : List UInt8) : Except LexicalError (List Token) :=
  (Lexer.Cursor.ofSource source).tokens

end Lisplet
