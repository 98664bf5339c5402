import Lisplet.Proofs.Fallible
import Lisplet.Proofs.Words

/-! The lexical grammar of §4.1. A text is cut from left to right into blanks and words;
`tokenize_iff` says that the lexer accepts exactly the texts that can be cut, and that its tokens
are the words with their places. -/
namespace Lisplet

namespace Lexer

inductive Segment where
  | blank (c : Char)
  | word (p : Piece)
  deriving DecidableEq, Repr

def Segment.span : Segment → List Char
  | .blank c => [c]
  | .word p => p.span

/-- The text is cut into these segments, each as long as it can be. -/
inductive Cuts : List Char → List Segment → Prop
  | nil : Cuts [] []
  | blank {c : Char} {rest : List Char} {segments : List Segment} : isBlank c = true →
      Cuts rest segments → Cuts (c :: rest) (.blank c :: segments)
  | word {p : Piece} {rest : List Char} {segments : List Segment} : Word rest p →
      Cuts rest segments → Cuts (p.span ++ rest) (.word p :: segments)

/-- The place behind a text: lines and columns counted from one. -/
def placeAfter (before : List Char) : Position :=
  ⟨1 + before.count '\n', 1 + (before.reverse.takeWhile (· ≠ '\n')).length⟩

/-- The tokens of the words, where `before` stands in front. -/
def placed (before : List Char) : List Segment → List Token
  | [] => []
  | .blank c :: segments => placed (before ++ [c]) segments
  | .word p :: segments => p.token (placeAfter before) :: placed (before ++ p.span) segments

/-! ## Scanning a whole text -/

namespace Cursor

theorem pull_blank {c : Char} (hc : isBlank c = true) (start : Position) (cs : List Char) :
    (⟨start, c :: cs⟩ : Cursor).pull = (⟨start.next c, cs⟩ : Cursor).pull := by
  simp [pull, hc, Position.advance]

theorem pull_cut_ok {c : Char} {cs rest : List Char} {p : Piece} (h : cut c cs = .ok (p, rest))
    (start : Position) : (⟨start, c :: cs⟩ : Cursor).pull =
      .token (p.token start) ⟨start.advance p.span, rest⟩ := by
  simp [pull, isBlank_of_cut h, h, Position.advance]

theorem pull_cut_error {c : Char} {cs : List Char} {cause : LexicalError.Cause}
    (hc : isBlank c = false) (h : cut c cs = .error cause) (start : Position) :
    (⟨start, c :: cs⟩ : Cursor).pull = .error ⟨cause, start⟩ := by
  simp [pull, hc, h, Position.advance]

theorem tokens_of_pull_token {s next : Cursor} {t : Token} (h : s.pull = .token t next) :
    s.tokens = next.tokens.map (t :: ·) := by
  rw [tokens]
  split <;> simp_all

theorem tokens_of_pull_finish {s : Cursor} {eof : Token} (h : s.pull = .finish eof) :
    s.tokens = .ok [eof] := by
  rw [tokens]
  split <;> simp_all

theorem tokens_of_pull_error {s : Cursor} {e : LexicalError} (h : s.pull = .error e) :
    s.tokens = .error e := by
  rw [tokens]
  split <;> simp_all

theorem tokens_of_pull {s s' : Cursor} (h : s.pull = s'.pull) : s.tokens = s'.tokens := by
  cases hp : s'.pull with
  | token t next => rw [tokens_of_pull_token (h.trans hp), tokens_of_pull_token hp]
  | finish eof => rw [tokens_of_pull_finish (h.trans hp), tokens_of_pull_finish hp]
  | error e => rw [tokens_of_pull_error (h.trans hp), tokens_of_pull_error hp]

theorem tokens_nil (start : Position) :
    (⟨start, []⟩ : Cursor).tokens = .ok [⟨.eof, "", none, start⟩] :=
  tokens_of_pull_finish rfl

theorem tokens_blank {c : Char} (hc : isBlank c = true) (start : Position) (cs : List Char) :
    (⟨start, c :: cs⟩ : Cursor).tokens = (⟨start.next c, cs⟩ : Cursor).tokens :=
  tokens_of_pull (pull_blank hc start cs)

theorem tokens_cut_ok {c : Char} {cs rest : List Char} {p : Piece} (h : cut c cs = .ok (p, rest))
    (start : Position) : (⟨start, c :: cs⟩ : Cursor).tokens =
      (⟨start.advance p.span, rest⟩ : Cursor).tokens.map (p.token start :: ·) :=
  tokens_of_pull_token (pull_cut_ok h start)

theorem tokens_cut_error {c : Char} {cs : List Char} {cause : LexicalError.Cause}
    (hc : isBlank c = false) (h : cut c cs = .error cause) (start : Position) :
    (⟨start, c :: cs⟩ : Cursor).tokens = .error ⟨cause, start⟩ :=
  tokens_of_pull_error (pull_cut_error hc h start)

theorem tokens_word {rest : List Char} {p : Piece} (h : Word rest p) (start : Position) :
    (⟨start, p.span ++ rest⟩ : Cursor).tokens =
      (⟨start.advance p.span, rest⟩ : Cursor).tokens.map (p.token start :: ·) := by
  obtain ⟨c, cs, hs⟩ := h.span_eq_cons
  have whole : c :: (cs ++ rest) = p.span ++ rest := by rw [hs, List.cons_append]
  rw [← whole]
  exact tokens_cut_ok (cut_of_word h whole) start

end Cursor

/-- The lexer goes through a text blank by blank and word by word, until it is stuck or done. -/
theorem scan_induction {motive : List Char → Prop} (cs : List Char) (nil : motive [])
    (blank : ∀ c cs, isBlank c = true → motive cs → motive (c :: cs))
    (word : ∀ c cs p rest, cut c cs = .ok (p, rest) → motive rest → motive (c :: cs))
    (stuck : ∀ c cs cause, isBlank c = false → cut c cs = .error cause → motive (c :: cs)) :
    motive cs := by
  match cs with
  | [] => exact nil
  | c :: cs =>
    cases hb : isBlank c with
    | true => exact blank c cs hb (scan_induction cs nil blank word stuck)
    | false =>
      match hc : cut c cs with
      | .error cause => exact stuck c cs cause hb hc
      | .ok (p, rest) =>
        have shorter := length_cut_le hc
        exact word c cs p rest hc (scan_induction rest nil blank word stuck)
termination_by cs.length

theorem Cuts.cons_cases {c : Char} {cs : List Char} {segments : List Segment}
    (h : Cuts (c :: cs) segments) :
    (isBlank c = true ∧ ∃ later, segments = .blank c :: later ∧ Cuts cs later) ∨
      ∃ p rest later, cut c cs = .ok (p, rest) ∧ segments = .word p :: later ∧ Cuts rest later := by
  generalize he : c :: cs = text at h
  cases h with
  | nil => cases he
  | blank hb hr =>
    cases he
    exact .inl ⟨hb, _, rfl, hr⟩
  | word hw hr => exact .inr ⟨_, _, _, cut_of_word hw he, rfl, hr⟩

theorem cuts_nil_iff {segments : List Segment} : Cuts [] segments ↔ segments = [] := by
  constructor
  · intro h
    generalize he : [] = text at h
    cases h with
    | nil => rfl
    | blank => cases he
    | word hw =>
      obtain ⟨c, cs, hs⟩ := hw.span_eq_cons
      rw [hs] at he
      cases he
  · rintro rfl
    exact .nil

theorem cuts_blank_iff {c : Char} {cs : List Char} {segments : List Segment}
    (hb : isBlank c = true) :
    Cuts (c :: cs) segments ↔ ∃ later, segments = .blank c :: later ∧ Cuts cs later := by
  constructor
  · intro h
    obtain ⟨-, h⟩ | ⟨_, _, _, hc, -⟩ := h.cons_cases
    · exact h
    · rw [isBlank_of_cut hc] at hb
      cases hb
  · rintro ⟨later, rfl, hr⟩
    exact .blank hb hr

theorem cuts_word_iff {c : Char} {cs rest : List Char} {p : Piece} {segments : List Segment}
    (hc : cut c cs = .ok (p, rest)) :
    Cuts (c :: cs) segments ↔ ∃ later, segments = .word p :: later ∧ Cuts rest later := by
  constructor
  · intro h
    obtain ⟨hb, -⟩ | ⟨_, _, later, hc', hs, hr⟩ := h.cons_cases
    · rw [isBlank_of_cut hc] at hb
      cases hb
    · cases hc.symm.trans hc'
      exact ⟨later, hs, hr⟩
  · rintro ⟨later, rfl, hr⟩
    obtain ⟨hw, hs⟩ := word_of_cut hc
    rw [hs]
    exact .word hw hr

theorem not_cuts {c : Char} {cs : List Char} {cause : LexicalError.Cause}
    {segments : List Segment} (hb : isBlank c = false) (hc : cut c cs = .error cause) :
    ¬Cuts (c :: cs) segments := by
  intro h
  obtain ⟨hb', -⟩ | ⟨_, _, _, hc', -⟩ := h.cons_cases
  · rw [hb] at hb'
    cases hb'
  · rw [hc] at hc'
    cases hc'

/-- The grammar is unambiguous. -/
theorem Cuts.unique {cs : List Char} {segments others : List Segment} (h : Cuts cs segments)
    (h' : Cuts cs others) : others = segments := by
  induction cs using scan_induction generalizing segments others with
  | nil => rw [cuts_nil_iff.mp h, cuts_nil_iff.mp h']
  | blank c cs hb ih =>
    obtain ⟨later, rfl, hr⟩ := (cuts_blank_iff hb).mp h
    obtain ⟨later', rfl, hr'⟩ := (cuts_blank_iff hb).mp h'
    rw [ih hr hr']
  | word c cs p rest hc ih =>
    obtain ⟨later, rfl, hr⟩ := (cuts_word_iff hc).mp h
    obtain ⟨later', rfl, hr'⟩ := (cuts_word_iff hc).mp h'
    rw [ih hr hr']
  | stuck c cs cause hb hc => exact absurd h (not_cuts hb hc)

theorem Cuts.flatMap_span {cs : List Char} {segments : List Segment} (h : Cuts cs segments) :
    segments.flatMap Segment.span = cs := by
  induction h with
  | nil => rfl
  | blank _ _ ih => simp [Segment.span, ih]
  | word _ _ ih => simp [Segment.span, ih]

theorem Cuts.kind_ne_eof {cs : List Char} {segments : List Segment} (h : Cuts cs segments)
    (before : List Char) : ∀ t ∈ placed before segments, t.kind ≠ .eof := by
  induction h generalizing before with
  | nil => exact nofun
  | blank _ _ ih => exact ih _
  | word hw _ ih => exact List.forall_mem_cons.mpr ⟨hw.kind_ne_eof, ih _⟩

/-! ## Places -/

theorem placeAfter_concat (before : List Char) (c : Char) :
    placeAfter (before ++ [c]) = (placeAfter before).next c := by
  by_cases h : c = '\n' <;> simp [placeAfter, Position.next, h] <;> omega

theorem placeAfter_append (before span : List Char) :
    placeAfter (before ++ span) = (placeAfter before).advance span := by
  induction span generalizing before with
  | nil => simp [Position.advance]
  | cons c span ih =>
    calc placeAfter (before ++ c :: span) = placeAfter ((before ++ [c]) ++ span) := by simp
      _ = (placeAfter (before ++ [c])).advance span := ih _
      _ = ((placeAfter before).next c).advance span := by rw [placeAfter_concat]
      _ = (placeAfter before).advance (c :: span) := rfl

/-- What the lexer returns for a text is what the grammar says, wherever the text starts. -/
theorem tokens_iff (cs before : List Char) {tokens : List Token} :
    (⟨placeAfter before, cs⟩ : Cursor).tokens = .ok tokens ↔ ∃ segments, Cuts cs segments ∧
      tokens = placed before segments ++ [⟨.eof, "", none, placeAfter (before ++ cs)⟩] := by
  induction cs using scan_induction generalizing before tokens with
  | nil => simp [Cursor.tokens_nil, cuts_nil_iff, placed, eq_comm]
  | blank c cs hb ih =>
    rw [Cursor.tokens_blank hb, ← placeAfter_concat, ih]
    simp [cuts_blank_iff hb, placed]
  | word c cs p rest hc ih =>
    have whole : before ++ c :: cs = before ++ p.span ++ rest := by
      rw [(word_of_cut hc).2, List.append_assoc]
    rw [Cursor.tokens_cut_ok hc, ← placeAfter_append, whole]
    constructor
    · intro h
      obtain ⟨later, hl, rfl⟩ := Fallible.map_eq_ok h
      obtain ⟨segments, hr, rfl⟩ := (ih _).mp hl
      exact ⟨_, (cuts_word_iff hc).mpr ⟨_, rfl, hr⟩, rfl⟩
    · rintro ⟨segments, h, rfl⟩
      obtain ⟨later, rfl, hr⟩ := (cuts_word_iff hc).mp h
      rw [(ih _).mpr ⟨later, hr, rfl⟩]
      rfl
  | stuck c cs cause hb hc => simp [Cursor.tokens_cut_error hb hc, not_cuts hb hc]

end Lexer

open Lexer in
/-- A source is accepted just if it can be cut. Its tokens are then the words in their order, each
at its place, and one token for the end. The cut takes in all of the source, and is the only one. -/
theorem tokenize_iff (source : List UInt8) :
    (∀ tokens, tokenize source = .ok tokens ↔ ∃ segments, Cuts (sourceChars source) segments ∧
      tokens = placed [] segments ++ [⟨.eof, "", none, placeAfter (sourceChars source)⟩]) ∧
    ∀ segments, Cuts (sourceChars source) segments →
      segments.flatMap Segment.span = sourceChars source ∧
      (∀ t ∈ placed [] segments, t.kind ≠ .eof) ∧
      ∀ others, Cuts (sourceChars source) others → others = segments := by
  refine ⟨fun tokens => ?_, fun segments h => ?_⟩
  · exact tokens_iff (sourceChars source) []
  · exact ⟨h.flatMap_span, h.kind_ne_eof [], fun others h' => h.unique h'⟩

end Lisplet
