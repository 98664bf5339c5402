import Lisplet.Proofs.Blame
import Lisplet.Proofs.Reading
import Lisplet.Proofs.Utf8

/-! What more text can do for a source that is wrong (§4.2). An error that is not a lack of text
stays. A lack of text can be made up for by closing what is open, a string first and then the lists
around it, unless an error in front of the open string was not noticed because of it. How many lists
are open is how many parentheses are missing. -/
namespace Lisplet

/-- An error that is not a lack of text stays on whatever lines follow, and a lexical one stays the
same. -/
theorem parse_newline_final (source text : List UInt8) (e : ReadError)
    (h : parse source = .error e) (final : e.isIncomplete = false) :
    ∃ e', parse (source ++ 0x0A :: text) = .error e' ∧
      ((∃ l, e = .lexical l) → e'.message = e.message) := by
  obtain ⟨e', failed, same⟩ := parse_append_of_error (b := 0x0A) (by decide) rfl source text h final
  exact ⟨e', failed, fun lexical => by rw [same lexical]⟩

/-- A number with two points, and behind it a character whose second byte is on the next line. -/
def brokenLine : List UInt8 := [0x28, 0x31, 0x2E, 0x2E, 0xC3]

theorem parse_newline_final_brokenLine :
    ∃ e e', parse brokenLine = .error e ∧ e.isIncomplete = false ∧
      parse (brokenLine ++ 0x0A :: [0xA9, 0x29]) = .error e' ∧ e'.message = e.message := by
  have failed : parse brokenLine = .error (.lexical ⟨.malformedNumber "1..", ⟨1, 2⟩⟩) :=
    Fallible.map_eq_error (f := List.length) (by decide +kernel)
  obtain ⟨e', failed', same⟩ := parse_newline_final brokenLine [0xA9, 0x29] _ failed rfl
  exact ⟨_, e', failed, rfl, failed', same ⟨_, rfl⟩⟩

/-! ## Closing the lists that are open -/

namespace Parser.State

/-- Each closing token closes a list, as long as one is open. -/
theorem feed_closers {closers : List Token} (each : ∀ t ∈ closers, t.kind = .closeParen)
    (s : State) (enough : closers.length ≤ s.stack.length) :
    ∃ s', s.feed closers = .ok s' ∧ s'.stack.length + closers.length = s.stack.length := by
  induction closers generalizing s with
  | nil => exact ⟨s, rfl, rfl⟩
  | cons t closers ih =>
    obtain ⟨close, each⟩ := List.forall_mem_cons.mp each
    obtain ⟨trees, _ | ⟨f, fs⟩⟩ := s
    · cases enough
    · have count : (add ⟨trees, fs⟩ f.close).stack.length = fs.length := length_stack_add _ _
      rw [List.length_cons, List.length_cons] at enough
      obtain ⟨s', fed, left⟩ := ih each (add ⟨trees, fs⟩ f.close) (by omega)
      refine ⟨s', ?_, ?_⟩
      · rw [feed_cons, step_close trees f fs close]
        exact fed
      · rw [List.length_cons, List.length_cons]
        omega

/-- One closing token more than there are lists is refused. -/
theorem feed_closers_error {closers : List Token} (each : ∀ t ∈ closers, t.kind = .closeParen)
    (s : State) (many : s.stack.length < closers.length) : ∃ t, s.feed closers = .error t := by
  induction closers generalizing s with
  | nil => cases many
  | cons t closers ih =>
    obtain ⟨close, each⟩ := List.forall_mem_cons.mp each
    obtain ⟨trees, _ | ⟨f, fs⟩⟩ := s
    · refine ⟨t, ?_⟩
      rw [feed_cons, step_error_iff.mpr (.inl ⟨close, rfl⟩)]
      rfl
    · have count : (add ⟨trees, fs⟩ f.close).stack.length = fs.length := length_stack_add _ _
      rw [List.length_cons, List.length_cons] at many
      rw [feed_cons, step_close trees f fs close]
      exact ih each (add ⟨trees, fs⟩ f.close) (by omega)

end Parser.State

namespace Lexer

theorem tokens_closers (start : Position) (k : Nat) :
    ∃ closers eof, (⟨start, List.replicate k ')'⟩ : Cursor).tokens = .ok (closers ++ [eof]) ∧
      closers.length = k ∧ ∀ t ∈ closers, t.kind = .closeParen := by
  induction k generalizing start with
  | zero => exact ⟨[], _, Cursor.tokens_nil start, rfl, nofun⟩
  | succ k ih =>
    have close : Word (List.replicate k ')') (.plain .closeParen [')'] none) := .mark (by simp)
    obtain ⟨closers, eof, rest, count, each⟩ := ih (start.advance [')'])
    have first := Cursor.tokens_word close start
    change (⟨start, List.replicate (k + 1) ')'⟩ : Cursor).tokens =
      (⟨start.advance [')'], List.replicate k ')'⟩ : Cursor).tokens.map _ at first
    rw [rest] at first
    exact ⟨_ :: closers, eof, first, congrArg (· + 1) count, List.forall_mem_cons.mpr ⟨rfl, each⟩⟩

theorem tokens_append_closers {start : Position} {cs : List Char} {body : List Token} {eof : Token}
    (h : (⟨start, cs⟩ : Cursor).tokens = .ok (body ++ [eof])) (k : Nat) :
    (⟨start, cs ++ List.replicate k ')'⟩ : Cursor).tokens =
      (⟨start.advance cs, List.replicate k ')'⟩ : Cursor).tokens.map (body ++ ·) := by
  cases k with
  | zero =>
    obtain ⟨-, rfl⟩ := tokens_ok_cases h
    rw [List.replicate_zero, List.append_nil, h, Cursor.tokens_nil]
    rfl
  | succ k => exact tokens_append_of_ok (b := ')') rfl h (List.replicate k ')')

end Lexer

open Lexer (Cursor Word)

/-- A text whose tokens leave lists open is complete with a parenthesis for each of them. With fewer
of these it lacks others, and one more is out of place. -/
theorem readFrom_closers {start next : Position} {cs : List Char} {body : List Token}
    {s : Parser.State} (fed : Parser.State.start.feed body = .ok s) {k : Nat}
    (h : (⟨start, cs⟩ : Cursor).tokens =
      (⟨next, List.replicate k ')'⟩ : Cursor).tokens.map (body ++ ·)) :
    (k < s.stack.length → ∃ t, readFrom start cs = .error (.grammatical (.missingClose t))) ∧
    (k = s.stack.length → ∃ trees, readFrom start cs = .ok trees) ∧
    (s.stack.length < k → ∃ t, readFrom start cs = .error (.grammatical (.unexpectedToken t))) := by
  obtain ⟨closers, eof, rest, rfl, each⟩ := Lexer.tokens_closers next k
  have tokens : (⟨start, cs⟩ : Cursor).tokens = .ok (body ++ closers ++ [eof]) := by
    rw [h, rest, List.append_assoc]
    rfl
  obtain ⟨noEnd, heof⟩ := Lexer.tokens_ok_cases tokens
  have read : readFrom start cs =
      (Parser.outcome (s.feed closers)).mapError .grammatical := by
    rw [readFrom_of_tokens noEnd (by rw [heof]) tokens, Parser.State.feed_append, fed]
    rfl
  rw [read]
  refine ⟨fun fewer => ?_, fun all => ?_, fun more => ?_⟩
  · obtain ⟨⟨trees, _ | ⟨f, fs⟩⟩, closed, left⟩ := s.feed_closers each (Nat.le_of_lt fewer)
    · rw [List.length_nil] at left
      omega
    · exact ⟨f.opening, by rw [closed]; rfl⟩
  · obtain ⟨⟨trees, _ | ⟨f, fs⟩⟩, closed, left⟩ := s.feed_closers each (Nat.le_of_eq all)
    · exact ⟨trees, by rw [closed]; rfl⟩
    · rw [List.length_cons] at left
      omega
  · obtain ⟨t, refused⟩ := s.feed_closers_error each more
    exact ⟨t, by rw [refused]; rfl⟩

/-! ## Closing a string that is open -/

namespace Lexer

theorem cutString_error {cs : List Char} {cause : LexicalError.Cause}
    (h : cutString cs = .error cause) : '"' ∉ cs := by
  unfold cutString at h
  dsimp only at h
  split at h
  · rename_i none
    intro hq
    simpa using List.dropWhile_eq_nil_iff.mp none '"' hq
  · cases h

theorem cutNumber_error {c : Char} {cs : List Char} {cause : LexicalError.Cause}
    (h : cutNumber c cs = .error cause) : cause ≠ .unterminatedString := by
  unfold cutNumber at h
  dsimp only at h
  split at h
  · cases h
  · cases h
    exact nofun

theorem cut_unterminated {c : Char} {cs : List Char}
    (h : cut c cs = .error .unterminatedString) : c = '"' ∧ '"' ∉ cs := by
  unfold cut at h
  split at h
  · cases h
  · split at h
    · rename_i hq
      exact ⟨hq, cutString_error h⟩
    · split at h
      · exact absurd rfl (cutNumber_error h)
      · split at h
        · cases h
        · split at h <;> cases h

/-- Where a text ends inside a string, the text in front of the string is cut into words. -/
theorem unterminated_split {start : Position} {cs : List Char} {e : LexicalError}
    (h : (⟨start, cs⟩ : Cursor).tokens = .error e) (he : e.cause = .unterminatedString) :
    ∃ front inside, cs = front ++ '"' :: inside ∧ '"' ∉ inside ∧
      ∃ body eof, (⟨start, front⟩ : Cursor).tokens = .ok (body ++ [eof]) := by
  induction cs using scan_induction generalizing start with
  | nil =>
    rw [Cursor.tokens_nil] at h
    cases h
  | blank c cs hc ih =>
    rw [Cursor.tokens_blank hc] at h
    obtain ⟨front, inside, rfl, noQuote, body, eof, read⟩ := ih h
    refine ⟨c :: front, inside, rfl, noQuote, body, eof, ?_⟩
    rw [Cursor.tokens_blank hc, read]
  | word c cs p rest hc ih =>
    obtain ⟨hw, hs⟩ := word_of_cut hc
    rw [Cursor.tokens_cut_ok hc] at h
    obtain ⟨front, inside, rfl, noQuote, body, eof, read⟩ := ih (Fallible.map_eq_error h)
    refine ⟨p.span ++ front, inside, ?_, noQuote, p.token start :: body, eof, ?_⟩
    · rw [hs, List.append_assoc]
    -- The word is followed by less text than before, and stays the same word.
    · rw [Cursor.tokens_word hw.shorten, read]
      rfl
  | stuck c cs cause hc hcut =>
    rw [Cursor.tokens_cut_error hc hcut] at h
    cases h
    obtain rfl : cause = .unterminatedString := he
    obtain ⟨rfl, noQuote⟩ := cut_unterminated hcut
    exact ⟨[], cs, rfl, noQuote, [], _, Cursor.tokens_nil start⟩

end Lexer

/-- What stands in front of the last `a`, or nothing without one. -/
def beforeLast {α : Type} [DecidableEq α] (a : α) (xs : List α) : List α :=
  ((xs.reverse.dropWhile (· ≠ a)).drop 1).reverse

section
variable {α : Type} [DecidableEq α] {a : α} {xs ys : List α}

theorem beforeLast_append (h : a ∉ ys) : beforeLast a (xs ++ a :: ys) = xs := by
  have inside : ∀ y ∈ ys.reverse, decide (y ≠ a) = true := fun y hy =>
    decide_eq_true fun e => h (e ▸ List.mem_reverse.mp hy)
  rw [beforeLast, List.reverse_append, List.reverse_cons, List.append_assoc,
    List.dropWhile_append_of_pos inside]
  simp

theorem beforeLast_of_notMem (h : a ∉ xs) : beforeLast a xs = [] := by
  have inside : ∀ x ∈ xs.reverse, decide (x ≠ a) = true := fun x hx =>
    decide_eq_true fun e => h (e ▸ List.mem_reverse.mp hx)
  rw [beforeLast, List.dropWhile_eq_nil_iff.mpr inside]
  rfl

end

theorem exists_last {α : Type} {a : α} {xs : List α} (h : a ∈ xs) :
    ∃ front back, xs = front ++ a :: back ∧ a ∉ back := by
  obtain ⟨back, front, split, first⟩ := List.eq_append_cons_of_mem (List.mem_reverse.mpr h)
  refine ⟨front.reverse, back.reverse, ?_, fun hb => first (List.mem_reverse.mp hb)⟩
  rw [← List.reverse_reverse xs, split]
  simp

theorem sourceChars_beforeLast {source : List UInt8} {front inside : List Char}
    (h : Lexer.sourceChars source = front ++ '"' :: inside) (noQuote : '"' ∉ inside) :
    Lexer.sourceChars (beforeLast 0x22 source) = front := by
  have quote : (0x22 : UInt8) ∈ source := by
    have here : '"' ∈ Lexer.sourceChars source := by rw [h]; simp
    exact Text.Utf8.mem_of_mem_decode ((Lexer.sourceChars_suffix source).subset here) (by decide)
  obtain ⟨bytes, rest, rfl, last⟩ := exists_last quote
  have last' : '"' ∉ Text.Utf8.decode rest :=
    fun hq => last (Text.Utf8.mem_of_mem_decode hq (by decide))
  rw [Lexer.sourceChars_append (by decide)] at h
  rw [beforeLast_append last]
  have same := congrArg (beforeLast '"') h
  rw [beforeLast_append noQuote] at same
  exact (beforeLast_append last').symm.trans same

/-- Text that ends inside a string is complete with a quote and the parentheses for the lists that
are open in front of it. -/
theorem readFrom_quote {start : Position} {front inside : List Char} {body : List Token}
    {eof : Token} {s : Parser.State} (read : (⟨start, front⟩ : Cursor).tokens = .ok (body ++ [eof]))
    (noQuote : '"' ∉ inside) (fed : Parser.State.start.feed body = .ok s) :
    ∃ trees, readFrom start
      (front ++ '"' :: inside ++ '"' :: List.replicate s.stack.length ')') = .ok trees := by
  let place := start.advance front
  let string := (Lexer.Piece.quoted inside).token place
  let s' := s.add (.atom (some string) string.lexeme)
  have closed : Parser.State.start.feed (body ++ [string]) = .ok s' := by
    rw [Parser.State.feed_append, fed]
    change s.feed [string] = _
    rw [Parser.State.feed_cons, s.step_atom (t := string) rfl]
    rfl
  -- The string is an atom, so it opens no list and closes none.
  have count : s'.stack.length = s.stack.length := s.length_stack_add _
  rw [← count]
  have text : '"' :: inside ++ '"' :: List.replicate s'.stack.length ')' =
      (Lexer.Piece.quoted inside).span ++ List.replicate s'.stack.length ')' := by
    simp [Lexer.Piece.quoted]
  have word : Word (List.replicate s'.stack.length ')') (.quoted inside) := .string noQuote
  have rest := Cursor.tokens_word word place
  have whole := Lexer.tokens_append_of_ok (b := '"') rfl read
    (inside ++ '"' :: List.replicate s'.stack.length ')')
  rw [← List.cons_append, text, rest, ← text, ← List.append_assoc] at whole
  exact (readFrom_closers closed (whole.trans (Fallible.map_map_append _ body [string]))).2.1 rfl

/-! ## Completing a source -/

theorem decode_closers (k : Nat) :
    Text.Utf8.decode (List.replicate k 0x29) = List.replicate k ')' := by
  have low : ∀ b ∈ List.replicate k (0x29 : UInt8), b < 0x80 := by
    intro b hb
    rw [List.eq_of_mem_replicate hb]
    decide
  have chars := Text.Utf8.decode_ascii_append low []
  rw [List.append_nil, List.map_replicate] at chars
  exact chars.trans (List.append_nil _)

theorem sourceChars_append_closers (source : List UInt8) (k : Nat) :
    Lexer.sourceChars (source ++ List.replicate k 0x29) =
      Lexer.sourceChars source ++ List.replicate k ')' := by
  cases k with
  | zero => simp
  | succ k =>
    rw [List.replicate_succ, Lexer.sourceChars_append (by decide), decode_closers]
    rfl

/-- Whatever the tokens leave open is all that a text lacks, if they are in their places. -/
theorem feed_of_lacking {start : Position} {cs : List Char} {body : List Token} {eof : Token}
    (read : (⟨start, cs⟩ : Cursor).tokens = .ok (body ++ [eof]))
    (lacking : ∀ e, readFrom start cs = .error e → e.isIncomplete = true) :
    ∃ s, Parser.State.start.feed body = .ok s := by
  obtain ⟨noEnd, heof⟩ := Lexer.tokens_ok_cases read
  cases fed : Parser.State.start.feed body with
  | ok s => exact ⟨s, rfl⟩
  | error t =>
    have wrong : readFrom start cs = .error (.grammatical (.unexpectedToken t)) := by
      rw [readFrom_of_tokens noEnd (by rw [heof]) read, fed]
      rfl
    cases lacking _ wrong

/-- Where the trees lack something that more text could give, the tokens leave lists open. -/
theorem exists_open_lists {source : List UInt8} {e : SyntaxError}
    (h : parse source = .error (.grammatical e))
    (lacking : (ReadError.grammatical e).isIncomplete = true) :
    ∃ body eof s, tokenize source = .ok (body ++ [eof]) ∧
      Parser.State.start.feed body = .ok s ∧ 1 ≤ s.stack.length := by
  rw [parse_eq_readFrom] at h
  obtain ⟨body, noEnd, read⟩ | ⟨l, read⟩ := Lexer.tokens_cases .start (Lexer.sourceChars source)
  · have only : ∀ e', readFrom .start (Lexer.sourceChars source) = .error e' →
        e'.isIncomplete = true := by
      intro e' failed
      rw [h] at failed
      cases failed
      exact lacking
    obtain ⟨s, fed⟩ := feed_of_lacking read only
    refine ⟨body, _, s, read, fed, ?_⟩
    obtain ⟨trees, _ | ⟨f, fs⟩⟩ := s
    · rw [readFrom_of_tokens noEnd rfl read, fed] at h
      cases h
    · exact Nat.le_add_left _ _
  · rw [readFrom_of_error read] at h
    cases h

/-- What a source that leaves lists open becomes with parentheses behind it. -/
theorem parse_append_closers {source : List UInt8} {body : List Token} {eof : Token}
    {s : Parser.State} (read : tokenize source = .ok (body ++ [eof]))
    (fed : Parser.State.start.feed body = .ok s) (k : Nat) :
    (k < s.stack.length → ∃ t,
      parse (source ++ List.replicate k 0x29) = .error (.grammatical (.missingClose t))) ∧
    (k = s.stack.length → ∃ trees, parse (source ++ List.replicate k 0x29) = .ok trees) ∧
    (s.stack.length < k → ∃ t,
      parse (source ++ List.replicate k 0x29) = .error (.grammatical (.unexpectedToken t))) := by
  rw [parse_eq_readFrom, sourceChars_append_closers]
  exact readFrom_closers fed (Lexer.tokens_append_closers read k)

theorem exists_completion_of_lists {source : List UInt8} {e : SyntaxError}
    (h : parse source = .error (.grammatical e))
    (lacking : (ReadError.grammatical e).isIncomplete = true) :
    ∃ text trees, parse (source ++ text) = .ok trees := by
  obtain ⟨body, eof, s, read, fed, -⟩ := exists_open_lists h lacking
  exact ⟨_, (parse_append_closers read fed s.stack.length).2.1 rfl⟩

theorem exists_completion_of_string {source : List UInt8} {l : LexicalError}
    (h : parse source = .error (.lexical l))
    (lacking : (ReadError.lexical l).isIncomplete = true)
    (inFront : ∀ e, parse (beforeLast 0x22 source) = .error e → e.isIncomplete = true) :
    ∃ text trees, parse (source ++ text) = .ok trees := by
  have read : (⟨.start, Lexer.sourceChars source⟩ : Cursor).tokens = .error l := by
    rw [parse_eq_readFrom] at h
    obtain ⟨body, noEnd, read⟩ | ⟨l', read⟩ := Lexer.tokens_cases .start (Lexer.sourceChars source)
    · rw [readFrom_of_tokens noEnd rfl read] at h
      cases ho : Parser.outcome (Parser.State.start.feed body) <;> rw [ho] at h <;> cases h
    · rw [readFrom_of_error read] at h
      cases h
      exact read
  have unterminated : l.cause = .unterminatedString := by
    obtain ⟨cause, place⟩ := l
    cases cause with
    | unterminatedString => rfl
    | unexpectedCharacter | malformedNumber => cases lacking
  obtain ⟨front, inside, split, noQuote, body, eof, words⟩ :=
    Lexer.unterminated_split read unterminated
  rw [parse_eq_readFrom, sourceChars_beforeLast split noQuote] at inFront
  obtain ⟨s, fed⟩ := feed_of_lacking words inFront
  refine ⟨0x22 :: List.replicate s.stack.length 0x29, ?_⟩
  rw [parse_eq_readFrom, Lexer.sourceChars_append (by decide), decode_closers, split]
  exact readFrom_quote words noQuote fed

/-- A source that lacks text can be completed, unless the text in front of its last quote is wrong
already: the string that is open there keeps the error from being noticed. -/
theorem exists_completion_iff (source : List UInt8) (e : ReadError) (h : parse source = .error e)
    (lacking : e.isIncomplete = true) :
    (∃ text trees, parse (source ++ text) = .ok trees) ↔
      ∀ e', parse (beforeLast 0x22 source) = .error e' → e'.isIncomplete = true := by
  constructor
  · rintro ⟨text, trees, parsed⟩ e' failed
    cases final : e'.isIncomplete with
    | true => rfl
    | false =>
      by_cases quote : (0x22 : UInt8) ∈ source
      · obtain ⟨front, inside, rfl, last⟩ := exists_last quote
        rw [beforeLast_append last] at failed
        obtain ⟨e'', failed', -⟩ := parse_append_of_error (b := 0x22) (by decide) rfl front
          (inside ++ text) failed final
        rw [List.append_assoc, List.cons_append, failed'] at parsed
        cases parsed
      · rw [beforeLast_of_notMem quote, parse_nil] at failed
        cases failed
  · intro inFront
    cases e with
    | grammatical e => exact exists_completion_of_lists h lacking
    | lexical l => exact exists_completion_of_string h lacking inFront

/-- A string with a parenthesis in it, two open lists, and a string that ends inside a character. -/
def openSource : List UInt8 := Text.Utf8.bytes "(f \")\" (g \"b" ++ [0xC3]

theorem exists_completion_openSource :
    ∃ e, parse openSource = .error e ∧ e.isIncomplete = true ∧
      ∃ text trees, parse (openSource ++ text) = .ok trees := by
  have failed : parse openSource = .error (.lexical ⟨.unterminatedString, ⟨1, 11⟩⟩) :=
    Fallible.map_eq_error (f := List.length) (by decide +kernel)
  have inFront : parse (beforeLast 0x22 openSource) =
      .error (.grammatical (.missingClose ⟨.openParen, "(", none, ⟨1, 8⟩⟩)) :=
    Fallible.map_eq_error (f := List.length) (by decide +kernel)
  refine ⟨_, failed, rfl, (exists_completion_iff openSource _ failed rfl).mpr ?_⟩
  intro e' h
  rw [inFront] at h
  cases h
  rfl

/-- Behind a parenthesis that closes nothing, an open string is still taken for a lack of text. -/
theorem not_exists_completion_strayClose :
    ∃ e, parse [0x29, 0x22] = .error e ∧ e.isIncomplete = true ∧
      ¬∃ text trees, parse ([0x29, 0x22] ++ text) = .ok trees := by
  have failed : parse [0x29, 0x22] = .error (.lexical ⟨.unterminatedString, ⟨1, 2⟩⟩) :=
    Fallible.map_eq_error (f := List.length) (by decide +kernel)
  have inFront : parse [0x29] =
      .error (.grammatical (.unexpectedToken ⟨.closeParen, ")", none, ⟨1, 1⟩⟩)) :=
    Fallible.map_eq_error (f := List.length) (by decide +kernel)
  refine ⟨_, failed, rfl, ?_⟩
  rintro ⟨text, trees, parsed⟩
  obtain ⟨e', failed', -⟩ :=
    parse_append_of_error (b := 0x22) (by decide) rfl [0x29] text inFront rfl
  change parse ([0x29] ++ 0x22 :: text) = .ok trees at parsed
  rw [failed'] at parsed
  cases parsed

/-! ## Counting the parentheses that are missing -/

/-- The parentheses that a source lacks are counted: with just so many it is complete, with fewer it
still lacks some, and with more one is out of place. -/
theorem parse_closers_count (source : List UInt8) (t : Token)
    (h : parse source = .error (.grammatical (.missingClose t))) :
    ∃ k, 1 ≤ k ∧
      (∀ n, (∃ trees, parse (source ++ List.replicate n 0x29) = .ok trees) ↔ n = k) ∧
      (∀ n, n < k → ∃ u, parse (source ++ List.replicate n 0x29) =
        .error (.grammatical (.missingClose u))) ∧
      ∀ n, k < n → ∃ u, parse (source ++ List.replicate n 0x29) =
        .error (.grammatical (.unexpectedToken u)) := by
  obtain ⟨body, eof, s, read, fed, lists⟩ := exists_open_lists h rfl
  have closed (n : Nat) := parse_append_closers read fed n
  refine ⟨s.stack.length, lists, fun n => ⟨?_, (closed n).2.1⟩, fun n => (closed n).1,
    fun n => (closed n).2.2⟩
  rintro ⟨trees, parsed⟩
  obtain fewer | all | more := Nat.lt_trichotomy n s.stack.length
  · obtain ⟨u, failed⟩ := (closed n).1 fewer
    rw [failed] at parsed
    cases parsed
  · exact all
  · obtain ⟨u, failed⟩ := (closed n).2.2 more
    rw [failed] at parsed
    cases parsed

/-- Two open lists, and behind a number with a point a name that ends inside a character. -/
def unclosedSource : List UInt8 := Text.Utf8.bytes "(f (g 1. b" ++ [0xC3]

theorem parse_closers_count_unclosedSource :
    (∃ t, parse unclosedSource = .error (.grammatical (.missingClose t))) ∧
      (∀ n, (∃ trees, parse (unclosedSource ++ List.replicate n 0x29) = .ok trees) ↔ n = 2) ∧
      (∀ n, n < 2 → ∃ u, parse (unclosedSource ++ List.replicate n 0x29) =
        .error (.grammatical (.missingClose u))) ∧
      ∀ n, 2 < n → ∃ u, parse (unclosedSource ++ List.replicate n 0x29) =
        .error (.grammatical (.unexpectedToken u)) := by
  have failed : parse unclosedSource =
      .error (.grammatical (.missingClose ⟨.openParen, "(", none, ⟨1, 4⟩⟩)) :=
    Fallible.map_eq_error (f := List.length) (by decide +kernel)
  obtain ⟨k, -, complete, fewer, more⟩ := parse_closers_count unclosedSource _ failed
  have two : (parse (unclosedSource ++ List.replicate 2 0x29)).toOption.isSome = true := by
    decide +kernel
  obtain rfl : 2 = k := by
    apply (complete 2).mp
    cases h : parse (unclosedSource ++ List.replicate 2 0x29) with
    | error e =>
      rw [h] at two
      cases two
    | ok trees => exact ⟨trees, rfl⟩
  exact ⟨⟨_, failed⟩, complete, fewer, more⟩

end Lisplet
