import Lisplet.Token.Lexer

/-! Tokens delivered one at a time, on demand (the incremental use of §4.1). -/
namespace Lisplet

structure TokenStream where
  /-- Where to read on, until the end or an error. -/
  cursor : Option Lexer.Cursor
  /-- The token delivered last. -/
  token : Token
  error : Option LexicalError
  deriving DecidableEq, Repr

namespace TokenStream

def ofSource (source : List UInt8) : TokenStream :=
  ⟨some (.ofSource source), .unread, none⟩

/-- Moves to the next token, and says whether there is one. -/
def next (s : TokenStream) : Bool × TokenStream :=
  match s.cursor with
  | none => (false, s)
  | some cursor =>
    match cursor.pull with
    | .token t rest => (true, { s with cursor := some rest, token := t })
    | .finish eof => (true, { s with cursor := none, token := eof })
    | .error e => (false, { s with cursor := none, error := some e })

end TokenStream

end Lisplet
