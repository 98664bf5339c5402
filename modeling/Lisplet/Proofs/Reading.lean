import Lisplet.Proofs.Boundary
import Lisplet.Proofs.Relocation

/-! How a source is read when text is put behind it: on from what the lexer does at a boundary and
from where the tokens in front leave the parser. -/
namespace Lisplet

/-- All expressions of a text that starts at a place. -/
def readFrom (start : Position) (cs : List Char) : Except ReadError (List Tree) :=
  match (⟨start, cs⟩ : Lexer.Cursor).tokens with
  | .error e => .error (.lexical e)
  | .ok tokens =>
    match (Parser.all tokens).1 with
    | .ok trees => .ok trees
    | .error e => .error (.grammatical e)

theorem parse_eq_readFrom (source : List UInt8) :
    parse source = readFrom .start (Lexer.sourceChars source) := rfl

/-- The tokens of a text and the one for its end, as the machine takes them. -/
theorem readFrom_of_tokens {start : Position} {cs : List Char} {body : List Token} {eof : Token}
    (noEnd : ∀ t ∈ body, t.kind ≠ .eof) (heof : eof.kind = .eof)
    (h : (⟨start, cs⟩ : Lexer.Cursor).tokens = .ok (body ++ [eof])) :
    readFrom start cs = (Parser.outcome (Parser.State.start.feed body)).mapError .grammatical := by
  have ended : Parser.atEnd [eof] = true := by simpa [Parser.atEnd] using heof
  rw [readFrom, h]
  simp only [Parser.all_eq_outcome noEnd ended]
  cases Parser.outcome (Parser.State.start.feed body) <;> rfl

theorem parse_nil : parse [] = .ok [] := by
  have noEnd : ∀ t ∈ ([] : List Token), t.kind ≠ .eof := nofun
  exact readFrom_of_tokens noEnd rfl (Lexer.Cursor.tokens_nil .start)

theorem readFrom_blank {c : Char} (hc : Lexer.isBlank c = true) (start : Position)
    (cs : List Char) : readFrom start (c :: cs) = readFrom (start.next c) cs := by
  rw [readFrom, readFrom, Lexer.Cursor.tokens_blank hc]

theorem readFrom_blanks {blanks : List Char} (each : ∀ c ∈ blanks, Lexer.isBlank c = true)
    (start : Position) (cs : List Char) :
    readFrom start (blanks ++ cs) = readFrom (start.advance blanks) cs := by
  induction blanks generalizing start with
  | nil => rfl
  | cons c blanks ih =>
    obtain ⟨hc, each⟩ := List.forall_mem_cons.mp each
    rw [List.cons_append, readFrom_blank hc]
    exact ih each (start.next c)

theorem readFrom_of_error {start : Position} {cs : List Char} {e : LexicalError}
    (h : (⟨start, cs⟩ : Lexer.Cursor).tokens = .error e) :
    readFrom start cs = .error (.lexical e) := by
  rw [readFrom, h]

/-- A text read from another place on gives the same, moved. -/
theorem readFrom_offset (p : Position) {q : Position} (hq : 1 ≤ q.line) (cs : List Char) :
    readFrom (p.offset q) cs =
      ((readFrom q cs).map (List.map (Tree.relocate p.offset))).mapError
        (ReadError.relocate p.offset) := by
  have moved := Lexer.tokens_offset p hq cs
  obtain ⟨body, noEnd, h⟩ | ⟨e, h⟩ := Lexer.tokens_cases q cs
  · have noEnd' : ∀ t ∈ body.map (Token.relocate p.offset), t.kind ≠ .eof := by
      intro t ht
      obtain ⟨u, hu, rfl⟩ := List.mem_map.mp ht
      exact noEnd u hu
    have h' : (⟨p.offset q, cs⟩ : Lexer.Cursor).tokens = .ok (body.map (Token.relocate p.offset) ++
        [Token.relocate p.offset ⟨.eof, "", none, q.advance cs⟩]) := by
      rw [moved, h]
      exact congrArg Except.ok List.map_append
    have fed := Parser.State.feed_relocate p.offset .start body
    change Parser.State.start.feed (body.map (Token.relocate p.offset)) = _ at fed
    rw [readFrom_of_tokens noEnd rfl h, readFrom_of_tokens noEnd' rfl h', fed,
      Parser.outcome_relocate]
    cases Parser.outcome (Parser.State.start.feed body) <;> rfl
  · rw [h] at moved
    rw [readFrom_of_error h, readFrom_of_error moved]
    rfl

section
variable {b : Char} (hb : Lexer.endsSymbol b = true) (start : Position) (cs more : List Char)
include hb

/-- Text behind a boundary is read from the tokens in front of it and from its own, if both are
tokens at all. -/
theorem readFrom_boundary :
    (∃ body, readFrom start cs =
        (Parser.outcome (Parser.State.start.feed body)).mapError .grammatical ∧
      ((∃ later, readFrom (start.advance cs) (b :: more) =
            (Parser.outcome (Parser.State.start.feed later)).mapError .grammatical ∧
          readFrom start (cs ++ b :: more) =
            (Parser.outcome (Parser.State.start.feed (body ++ later))).mapError .grammatical) ∨
        ∃ e, readFrom (start.advance cs) (b :: more) = .error (.lexical e) ∧
          readFrom start (cs ++ b :: more) = .error (.lexical e))) ∨
    ∃ e, readFrom start cs = .error (.lexical e) ∧
      (e.cause ≠ .unterminatedString → readFrom start (cs ++ b :: more) = .error (.lexical e)) := by
  obtain ⟨body, noEnd, alone, whole⟩ | ⟨e, alone, whole⟩ := Lexer.tokens_append hb start cs more
  · refine .inl ⟨body, readFrom_of_tokens noEnd rfl alone, ?_⟩
    obtain ⟨later, noEnd', rest⟩ | ⟨e, rest⟩ := Lexer.tokens_cases (start.advance cs) (b :: more)
    · have joined : (⟨start, cs ++ b :: more⟩ : Lexer.Cursor).tokens = .ok (body ++ later ++
          [⟨.eof, "", none, (start.advance cs).advance (b :: more)⟩]) := by
        rw [whole, rest, List.append_assoc]
        rfl
      have noEndJoined : ∀ t ∈ body ++ later, t.kind ≠ .eof :=
        List.forall_mem_append.mpr ⟨noEnd, noEnd'⟩
      exact .inl ⟨later, readFrom_of_tokens noEnd' rfl rest,
        readFrom_of_tokens noEndJoined rfl joined⟩
    · rw [rest] at whole
      exact .inr ⟨e, readFrom_of_error rest, readFrom_of_error whole⟩
  · exact .inr ⟨e, readFrom_of_error alone, fun he => readFrom_of_error (whole he)⟩

/-- Behind a complete text reading starts over. -/
theorem readFrom_append_of_ok {trees : List Tree} (h : readFrom start cs = .ok trees) :
    readFrom start (cs ++ b :: more) =
      (readFrom (start.advance cs) (b :: more)).map (trees ++ ·) := by
  obtain ⟨body, alone, ⟨later, rest, whole⟩ | ⟨e, rest, whole⟩⟩ | ⟨e, alone, -⟩ :=
    readFrom_boundary hb start cs more
  · have read : Parser.outcome (Parser.State.start.feed body) = .ok trees := by
      rw [h] at alone
      cases ho : Parser.outcome (Parser.State.start.feed body) with
      | error e => rw [ho] at alone; cases alone
      | ok ts => rw [ho] at alone; cases alone; rfl
    rw [whole, rest, Parser.outcome_append read]
    cases Parser.outcome (Parser.State.start.feed later) <;> rfl
  · rw [whole, rest]
    rfl
  · rw [h] at alone
    cases alone

/-- What is wrong with a text and not just missing stays wrong. -/
theorem readFrom_append_of_error {e : ReadError} (h : readFrom start cs = .error e)
    (final : e.isIncomplete = false) :
    ∃ e', readFrom start (cs ++ b :: more) = .error e' ∧ ((∃ l, e = .lexical l) → e' = e) := by
  obtain ⟨body, alone, rest⟩ | ⟨l, alone, whole⟩ := readFrom_boundary hb start cs more
  · have refused : ∃ t, Parser.outcome (Parser.State.start.feed body) =
        .error (.unexpectedToken t) ∧ e = .grammatical (.unexpectedToken t) := by
      rw [h] at alone
      cases ho : Parser.outcome (Parser.State.start.feed body) with
      | ok ts => rw [ho] at alone; cases alone
      | error e₁ =>
        rw [ho] at alone
        cases alone
        cases e₁ with
        | unexpectedToken t => exact ⟨t, rfl, rfl⟩
        | unexpectedEnd | missingClose => cases final
    obtain ⟨t, refused, rfl⟩ := refused
    obtain ⟨later, -, whole⟩ | ⟨l, -, whole⟩ := rest
    · rw [Parser.outcome_append_of_unexpected refused] at whole
      exact ⟨_, whole, nofun⟩
    · exact ⟨_, whole, nofun⟩
  · rw [h] at alone
    cases alone
    have ended : l.cause ≠ .unterminatedString := by
      rintro he
      obtain ⟨cause, position⟩ := l
      cases he
      cases final
    exact ⟨_, whole ended, fun _ => rfl⟩

end

section
variable {b : UInt8} (hb : b < 0x80) (hc : Lexer.endsSymbol (Char.ofNat b.toNat) = true)
variable (source text : List UInt8)
include hb hc

theorem parse_append_of_ok {trees : List Tree} (h : parse source = .ok trees) :
    parse (source ++ b :: text) =
      (readFrom (Position.start.advance (Lexer.sourceChars source))
        (Char.ofNat b.toNat :: Text.Utf8.decode text)).map (trees ++ ·) := by
  rw [parse_eq_readFrom, Lexer.sourceChars_append hb]
  exact readFrom_append_of_ok hc _ _ _ h

theorem parse_append_of_error {e : ReadError} (h : parse source = .error e)
    (final : e.isIncomplete = false) :
    ∃ e', parse (source ++ b :: text) = .error e' ∧ ((∃ l, e = .lexical l) → e' = e) := by
  rw [parse_eq_readFrom, Lexer.sourceChars_append hb]
  exact readFrom_append_of_error hc _ _ _ h final

end

theorem cut_mark (cs : List Char) :
    Lexer.cut '\uFEFF' cs = .error (.unexpectedCharacter '\uFEFF') := by
  have noSymbol : Lexer.isSymbolStart '\uFEFF' = false := by decide +kernel
  simp [Lexer.cut, Lexer.punctuation?, Decimal.isDigit, noSymbol]

/-- A text that can be read where it stands can be read by itself. It does not start with a mark,
which would be dropped then. -/
theorem parse_of_readFrom {start : Position} {text : List UInt8} {trees : List Tree}
    (h : readFrom start (Text.Utf8.decode text) = .ok trees) :
    ∃ own, parse text = .ok own ∧ List.Forall₂ Tree.Alike trees own := by
  have noMark : ∀ c ∈ (Text.Utf8.decode text).head?, c ≠ '\uFEFF' := by
    rintro c hc rfl
    obtain ⟨cs, hd⟩ := List.head?_eq_some_iff.mp hc
    have stuck := Lexer.Cursor.tokens_cut_error (by decide) (cut_mark cs) start
    rw [hd, readFrom_of_error stuck] at h
    cases h
  have moved := readFrom_offset start (q := .start) (by decide) (Text.Utf8.decode text)
  rw [Position.offset_start, h] at moved
  rw [parse_eq_readFrom, Lexer.sourceChars_of_noMark noMark]
  cases hr : readFrom .start (Text.Utf8.decode text) with
  | error e =>
    rw [hr] at moved
    cases moved
  | ok own =>
    rw [hr] at moved
    cases moved
    refine ⟨own, rfl, ?_⟩
    rw [List.forall₂_map_left_iff, List.forall₂_same]
    exact fun t _ => t.relocate_alike _

/-! ## Sources one behind the other -/

/-- What is wrong, whatever the words and the place. -/
def ReadError.what : ReadError → String
  | lexical ⟨.unexpectedCharacter _, _⟩ => "unexpected character"
  | lexical ⟨.unterminatedString, _⟩ => "unterminated string"
  | lexical ⟨.malformedNumber _, _⟩ => "malformed number"
  | grammatical e => e.what

theorem ReadError.what_relocate (g : Position → Position) (e : ReadError) :
    (e.relocate g).what = e.what := by
  obtain ⟨cause, _⟩ | e := e
  · cases cause <;> rfl
  · cases e <;> rfl

namespace Lexer

/-- A byte for a space, a tab, a carriage return or a line feed. -/
def isBlankByte (b : UInt8) : Bool := b = 0x20 || b = 0x09 || b = 0x0D || b = 0x0A

theorem isBlank_of_isBlankByte {b : UInt8} (h : isBlankByte b = true) :
    b < 0x80 ∧ isBlank (Char.ofNat b.toNat) = true := by
  have which : b = 0x20 ∨ b = 0x09 ∨ b = 0x0D ∨ b = 0x0A := by
    simpa [isBlankByte, or_assoc] using h
  rcases which with rfl | rfl | rfl | rfl <;> decide

theorem placeAfter_eq_advance (cs : List Char) : placeAfter cs = Position.start.advance cs :=
  placeAfter_append [] cs

/-- How far the text in front moves a place. -/
theorem offset_placeAfter (before : List Char) (q : Position) :
    ((placeAfter before).offset q).line = q.line + before.count '\n' ∧
    ((placeAfter before).offset q).column =
      if q.line = 1 then q.column + (before.reverse.takeWhile (· ≠ '\n')).length
      else q.column := by
  unfold Position.offset placeAfter
  split
  · rename_i first
    rw [first]
    constructor
    · rfl
    · dsimp only
      omega
  · constructor
    · dsimp only
      omega
    · rfl

end Lexer

/-- Behind a complete source and white space, reading starts over at the place reached there. -/
theorem parse_blanks_append {front blanks : List UInt8} {trees : List Tree}
    (h : parse front = .ok trees) (some : blanks ≠ [])
    (each : ∀ b ∈ blanks, Lexer.isBlankByte b = true) (back : List UInt8) :
    parse (front ++ blanks ++ back) =
      (readFrom (Lexer.placeAfter (Lexer.sourceChars (front ++ blanks)))
        (Text.Utf8.decode back)).map (trees ++ ·) := by
  obtain ⟨b, rest, rfl⟩ := List.exists_cons_of_ne_nil some
  have low : ∀ c ∈ rest, c < 0x80 := fun c hc =>
    (Lexer.isBlank_of_isBlankByte (each c (.tail _ hc))).1
  obtain ⟨hb, blank⟩ := Lexer.isBlank_of_isBlankByte (each b List.mem_cons_self)
  have ends : Lexer.endsSymbol (Char.ofNat b.toNat) = true := by
    simp only [Lexer.endsSymbol, blank, Bool.true_or]
  let chars := (b :: rest).map fun c => Char.ofNat c.toNat
  have blanks : ∀ c ∈ chars, Lexer.isBlank c = true := by
    intro c hc
    obtain ⟨byte, hbyte, rfl⟩ := List.mem_map.mp hc
    exact (Lexer.isBlank_of_isBlankByte (each byte hbyte)).2
  have before : Lexer.sourceChars (front ++ b :: rest) = Lexer.sourceChars front ++ chars := by
    have decoded := Text.Utf8.decode_ascii_append low []
    rw [List.append_nil] at decoded
    rw [Lexer.sourceChars_append hb, decoded]
    exact congrArg _ (congrArg _ (List.append_nil _))
  have joined : front ++ b :: rest ++ back = front ++ b :: (rest ++ back) := by simp
  rw [joined, parse_append_of_ok hb ends _ _ h, Text.Utf8.decode_ascii_append low, before,
    Lexer.placeAfter_append, Lexer.placeAfter_eq_advance, ← readFrom_blanks blanks]
  rfl

/-- Sources with white space between them are read one by one. What is read of the second one, or is
wrong with it, is the same as if it stood alone, with each place moved: down by the lines in front,
and to the right only on its own first line. -/
theorem parse_compositional (front blanks back : List UInt8) (trees : List Tree)
    (h : parse front = .ok trees) (some : blanks ≠ [])
    (each : ∀ b ∈ blanks, Lexer.isBlankByte b = true)
    (noMark : (Text.Utf8.decode back).head? ≠ .some '\uFEFF') :
    let before := Lexer.sourceChars (front ++ blanks)
    let moved := (Lexer.placeAfter before).offset
    (∀ own, parse back = .ok own →
      parse (front ++ blanks ++ back) = .ok (trees ++ own.map (Tree.relocate moved)) ∧
      List.Forall₂ Tree.Alike (own.map (Tree.relocate moved)) own) ∧
    (∀ e, parse back = .error e →
      parse (front ++ blanks ++ back) = .error (e.relocate moved) ∧
      (e.relocate moved).what = e.what) ∧
    ∀ q, (moved q).line = q.line + before.count '\n' ∧
      (moved q).column =
        if q.line = 1 then q.column + (before.reverse.takeWhile (· ≠ '\n')).length
        else q.column := by
  intro before moved
  have whole := parse_blanks_append h some each back
  have alone : parse back = readFrom .start (Text.Utf8.decode back) := by
    rw [parse_eq_readFrom, Lexer.sourceChars_of_noMark]
    rintro c hc rfl
    exact noMark hc
  have shifted := readFrom_offset (Lexer.placeAfter before) (q := .start) (by decide)
    (Text.Utf8.decode back)
  rw [Position.offset_start, ← alone] at shifted
  rw [shifted] at whole
  refine ⟨fun own parsed => ?_, fun e failed => ?_, Lexer.offset_placeAfter before⟩
  · rw [parsed] at whole
    refine ⟨whole, ?_⟩
    rw [List.forall₂_map_left_iff, List.forall₂_same]
    exact fun t _ => t.relocate_alike moved
  · rw [failed] at whole
    exact ⟨whole, e.what_relocate moved⟩

/-- A list behind a byte order mark, with a name that ends inside a character. -/
def markedSource : List UInt8 := [0xEF, 0xBB, 0xBF, 0x28, 0x61, 0x29, 0x62, 0xC3]

theorem parse_compositional_markedSource :
    ∃ trees own, parse markedSource = .ok trees ∧
      parse [0x63, 0x0A, 0x2D, 0x31] = .ok own ∧
      parse (markedSource ++ [0x0D, 0x0A, 0x09] ++ [0x63, 0x0A, 0x2D, 0x31]) =
        .ok (trees ++ own.map (Tree.relocate (Position.offset ⟨2, 2⟩))) ∧
      parse (markedSource ++ [0x0D, 0x0A, 0x09] ++ [0x63, 0x20, 0x29]) =
        .error (.grammatical (.unexpectedToken ⟨.closeParen, ")", none, ⟨2, 4⟩⟩)) := by
  have front : (parse markedSource).toOption.isSome = true := by decide +kernel
  have back : (parse [0x63, 0x0A, 0x2D, 0x31]).toOption.isSome = true := by decide +kernel
  have wrong : parse [0x63, 0x20, 0x29] =
      .error (.grammatical (.unexpectedToken ⟨.closeParen, ")", none, ⟨1, 3⟩⟩)) :=
    Fallible.map_eq_error (f := List.length) (by decide +kernel)
  have place : Lexer.placeAfter (Lexer.sourceChars (markedSource ++ [0x0D, 0x0A, 0x09])) =
      ⟨2, 2⟩ := by decide +kernel
  have each : ∀ b ∈ [0x0D, 0x0A, 0x09], Lexer.isBlankByte b = true := by
    simp [Lexer.isBlankByte]
  cases h : parse markedSource with
  | error e =>
    rw [h] at front
    cases front
  | ok trees =>
    cases hb : parse [0x63, 0x0A, 0x2D, 0x31] with
    | error e =>
      rw [hb] at back
      cases back
    | ok own =>
      have right := (parse_compositional markedSource _ _ trees h (List.cons_ne_nil _ _) each
        (by decide)).1 own hb
      have failed := (parse_compositional markedSource _ _ trees h (List.cons_ne_nil _ _) each
        (by decide)).2.1 _ wrong
      rw [place] at right failed
      exact ⟨trees, own, rfl, rfl, right.1, failed.1⟩

end Lisplet
