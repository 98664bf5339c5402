import Lisplet.Proofs.Reading
import Lisplet.Session

/-! A session (§6.1) fed with the lines of a program does what evaluating the program as a whole
does. The session decides line by line whether it has a complete text; that it never decides too
early or too late is what the lemmas on putting texts behind each other say. -/
namespace Lisplet

/-! ## Texts on several lines -/

/-- Of a text that can be read, the lines behind a complete part can be read by themselves. -/
theorem parse_newline_of_ok {source text : List UInt8} {front trees : List Tree}
    (h : parse source = .ok front) (hw : parse (source ++ 0x0A :: text) = .ok trees) :
    ∃ back, parse text = .ok back ∧ List.Forall₂ Tree.Alike trees (front ++ back) := by
  rw [parse_append_of_ok (b := 0x0A) (by decide) rfl source text h] at hw
  obtain ⟨rest, hr, rfl⟩ := Fallible.map_eq_ok hw
  change readFrom _ ('\n' :: Text.Utf8.decode text) = .ok rest at hr
  rw [readFrom_blank rfl] at hr
  obtain ⟨back, hb, alike⟩ := parse_of_readFrom hr
  exact ⟨back, hb, List.rel_append (List.forall₂_same.mpr fun t _ => .refl t) alike⟩

/-- A text that can be read has no part on its first lines that is wrong. -/
theorem parse_newline_of_error {source text : List UInt8} {trees : List Tree} {e : ReadError}
    (h : parse source = .error e) (hw : parse (source ++ 0x0A :: text) = .ok trees) :
    e.isIncomplete = true := by
  cases hi : e.isIncomplete with
  | true => rfl
  | false =>
    obtain ⟨e', he, -⟩ := parse_append_of_error (b := 0x0A) (by decide) rfl source text h hi
    rw [hw] at he
    cases he

/-! ## Blank lines -/

namespace Text

theorem isSpace_of_trim {cs : List Char} (h : trim cs = []) : ∀ c ∈ cs, isSpace c = true := by
  have back : ∀ c ∈ cs.dropWhile isSpace, isSpace c = true := by
    have inner := List.dropWhile_eq_nil_iff.mp (List.reverse_eq_nil_iff.mp h)
    exact fun c hc => inner c (List.mem_reverse.mpr hc)
  have none : cs.dropWhile isSpace = [] := by
    cases hd : cs.dropWhile isSpace with
    | nil => rfl
    | cons c rest =>
      rw [hd] at back
      have stop := Lexer.dropWhile_stop isSpace cs c (by rw [hd]; rfl)
      rw [back c List.mem_cons_self] at stop
      cases stop
  exact List.dropWhile_eq_nil_iff.mp none

end Text

/-- White space starts no word. -/
theorem Lexer.cut_of_isSpace {c : Char} (h : Text.isSpace c = true) (cs : List Char) :
    cut c cs = .error (.unexpectedCharacter c) := by
  have other {d : Char} (hd : Text.isSpace d = false) : c ≠ d := by
    rintro rfl
    rw [hd] at h
    cases h
  have noMark : punctuation? c = none := by
    unfold punctuation?
    split
    case h_6 => rfl
    all_goals cases h
  have noDigit : Decimal.isDigit c = false := by
    have apart := Text.inRanges_apart Text.spaceRanges [(48, 57)] (by decide) h
    cases hd : Decimal.isDigit c with
    | false => rfl
    | true => simp [Text.inRanges, toNat_of_isDigit hd] at apart
  have noLetter : Text.isLetter c = false :=
    Text.inRanges_apart Text.spaceRanges Text.letterRanges (by decide +kernel) h
  have noSymbol : isSymbolStart c = false := by
    simp only [isSymbolStart, noLetter, Bool.or_eq_false_iff, decide_eq_false_iff_not]
    exact ⟨⟨⟨⟨⟨⟨trivial, other rfl⟩, other rfl⟩, other rfl⟩, other rfl⟩, other rfl⟩, other rfl⟩
  have noQuote : c ≠ '"' := other rfl
  have noMinus : c ≠ '-' := other rfl
  simp [cut, noMark, noQuote, noDigit, noMinus, noSymbol]

/-- White space is either nothing between words or wrong in a source. -/
theorem readFrom_of_isSpace {cs : List Char} (h : ∀ c ∈ cs, Text.isSpace c = true)
    (start : Position) :
    readFrom start cs = .ok [] ∨ ∃ e, readFrom start cs = .error e ∧ e.isIncomplete = false := by
  induction cs generalizing start with
  | nil =>
    have noEnd : ∀ t ∈ ([] : List Token), t.kind ≠ .eof := nofun
    exact .inl (readFrom_of_tokens noEnd rfl (Lexer.Cursor.tokens_nil start))
  | cons c cs ih =>
    obtain ⟨hc, hcs⟩ := List.forall_mem_cons.mp h
    cases hb : Lexer.isBlank c with
    | true =>
      rw [readFrom_blank hb]
      exact ih hcs _
    | false =>
      have stuck := Lexer.Cursor.tokens_cut_error hb (Lexer.cut_of_isSpace hc cs) start
      exact .inr ⟨_, readFrom_of_error stuck, rfl⟩

namespace Session

theorem parse_of_isBlankLine {line : List UInt8} (h : isBlankLine line = true) :
    parse line = .ok [] ∨ ∃ e, parse line = .error e ∧ e.isIncomplete = false := by
  have spaces := Text.isSpace_of_trim (List.isEmpty_iff.mp h)
  have part := (Lexer.sourceChars_suffix line).subset
  exact readFrom_of_isSpace (fun c hc => spaces c (part hc)) .start

/-! ## Joined lines -/

theorem joinLines_singleton (line : List UInt8) : joinLines [line] = line :=
  List.intercalate_singleton

theorem joinLines_cons {line : List UInt8} {lines : List (List UInt8)} (h : lines ≠ []) :
    joinLines (line :: lines) = line ++ 0x0A :: joinLines lines := by
  cases lines with
  | nil => exact absurd rfl h
  | cons next lines => simp [joinLines, List.intercalate_cons_cons]

theorem joinLines_append {front back : List (List UInt8)} (hf : front ≠ []) (hb : back ≠ []) :
    joinLines (front ++ back) = joinLines front ++ 0x0A :: joinLines back := by
  induction front with
  | nil => exact absurd rfl hf
  | cons line lines ih =>
    cases lines with
    | nil =>
      rw [List.singleton_append, joinLines_cons hb, joinLines_singleton]
    | cons next lines =>
      have more := ih (List.cons_ne_nil _ _)
      rw [List.cons_append, joinLines_cons (List.cons_ne_nil _ _),
        joinLines_cons (by simp), more, List.append_assoc, List.cons_append]

section
variable {read rest : List (List UInt8)} (hr : read ≠ []) {trees : List Tree}
  (hw : parse (joinLines (read ++ rest)) = .ok trees)
include hr hw

/-- If the lines read make a complete text, the other lines make one too. -/
theorem parse_rest {front : List Tree} (h : parse (joinLines read) = .ok front) :
    ∃ back, parse (joinLines rest) = .ok back ∧ List.Forall₂ Tree.Alike trees (front ++ back) := by
  by_cases none : rest = []
  · subst none
    rw [List.append_nil, h] at hw
    cases hw
    refine ⟨[], parse_nil, ?_⟩
    rw [List.append_nil, List.forall₂_same]
    exact fun t _ => .refl t
  · rw [joinLines_append hr none] at hw
    exact parse_newline_of_ok h hw

/-- If the lines read make no complete text, they only lack the others. -/
theorem isIncomplete_read {e : ReadError} (h : parse (joinLines read) = .error e) :
    e.isIncomplete = true := by
  by_cases none : rest = []
  · subst none
    rw [List.append_nil, h] at hw
    cases hw
  · rw [joinLines_append hr none] at hw
    exact parse_newline_of_error h hw

end

/-- A blank line in front of a program is nothing, though it could be wrong as a text. -/
theorem parse_blank_of_ok {line : List UInt8} {rest : List (List UInt8)} {trees : List Tree}
    (hb : isBlankLine line = true) (hw : parse (joinLines ([line] ++ rest)) = .ok trees) :
    parse (joinLines [line]) = .ok [] := by
  have own := parse_of_isBlankLine hb
  rw [← joinLines_singleton line] at own
  obtain h | ⟨e, he, hi⟩ := own
  · exact h
  · have later := isIncomplete_read (List.cons_ne_nil _ _) hw he
    rw [hi] at later
    cases later

/-! ## What a session prints -/

/-- Values as they are printed, one a line. -/
def valueLines (vs : List (Value Tree)) : String := String.join (vs.map fun v => v.shown ++ "\n")

theorem valueLines_append (vs ws : List (Value Tree)) :
    valueLines (vs ++ ws) = valueLines vs ++ valueLines ws := by
  rw [valueLines, List.map_append, String.join_append]
  rfl

theorem valueLines_alike {vs ws : List (Value Tree)} (h : List.Forall₂ Value.Alike vs ws) :
    valueLines vs = valueLines ws := by
  induction h with
  | nil => rfl
  | cons hv _ ih =>
    simp only [valueLines, List.map_cons, String.join_cons] at ih ⊢
    rw [ih, hv.shown]

theorem transcript_evalAll (i : Interpreter) (ts : List Tree) :
    transcript false ts (i.evalAll ts).values = valueLines (i.evalAll ts).values := by
  induction ts generalizing i with
  | nil => rfl
  | cons t ts ih =>
    simp only [Interpreter.evalAll]
    generalize i.evalTree t = r
    obtain ⟨e | v, events, j⟩ := r
    · rfl
    · simp only [transcript, valueLines, List.map_cons, String.join_cons, ih j]
      simp

/-- A session that read so many inputs, went to its end and did what a report says. -/
structure Follows (settings : Settings) (inputs : Nat) (o : Outcome) (r : Report) : Prop where
  read : o.read = inputs
  ending : o.ending = .finished
  out : String.join (o.responses.map Response.out) = valueLines r.values ++ farewell
  err : settings.trace = false → String.join (o.responses.map Response.err) = ""
  interpreter : r.interpreter.Alike o.final.interpreter

theorem run_cons {s s' : Session} {input : Input} {response : Response}
    (hs : s.step input = (s', response, none)) (inputs : List Input) :
    s.run (input :: inputs) = { s'.run inputs with
      responses := response :: (s'.run inputs).responses, read := (s'.run inputs).read + 1 } := by
  rw [run, hs]

theorem Follows.cons {settings : Settings} {s s' : Session} {input : Input} {inputs : List Input}
    {response : Response} {r r' : Report} (vs : List (Value Tree))
    (hs : s.step input = (s', response, none)) (out : response.out = valueLines vs)
    (err : settings.trace = false → response.err = "") (values : r.values = vs ++ r'.values)
    (interpreter : r.interpreter = r'.interpreter)
    (h : Follows settings inputs.length (s'.run inputs) r') :
    Follows settings (inputs.length + 1) (s.run (input :: inputs)) r := by
  rw [run_cons hs]
  refine ⟨congrArg (· + 1) h.read, h.ending, ?_, fun quiet => ?_, ?_⟩
  · rw [List.map_cons, String.join_cons, h.out, out, values, valueLines_append,
      String.append_assoc]
  · rw [List.map_cons, String.join_cons, h.err quiet, err quiet]
    rfl
  · rw [interpreter]
    exact h.interpreter

theorem step_blank {s : Session} {line : List UInt8} (hp : s.pending = [])
    (hb : isBlankLine line = true) : s.step (.line line) = (s, .silent, none) := by
  simp [step, hp, hb]

theorem step_accept {s : Session} {line : List UInt8}
    (hb : ¬(s.pending = [] ∧ isBlankLine line = true)) (hx : isExit line = false) :
    s.step (.line line) = s.accept line := by
  have noSkip : (s.pending.isEmpty && isBlankLine line) = false := by
    simpa using hb
  simp [step, noSkip, hx]

theorem accept_incomplete {s : Session} {line : List UInt8} {e : ReadError}
    (h : parse (joinLines (s.pending ++ [line])) = .error e) (hi : e.isIncomplete = true) :
    s.accept line =
      ({ s with pending := s.pending ++ [line] }, ⟨"", "", [.continuation]⟩, none) := by
  simp only [accept, h, hi, if_true]

theorem accept_complete {s : Session} {line : List UInt8} {trees : List Tree}
    (h : parse (joinLines (s.pending ++ [line])) = .ok trees)
    (hh : (s.interpreter.evalAll trees).halt = none) :
    s.accept line =
      ({ s with interpreter := (s.interpreter.evalAll trees).interpreter, pending := [] },
        ⟨transcript s.settings.listing trees (s.interpreter.evalAll trees).values,
          s.settings.log (s.interpreter.evalAll trees), [.fresh]⟩, none) := by
  simp only [accept, h, evaluate, hh]

/-- The lines read and not yet acted on make no complete text. -/
def Held (pending : List (List UInt8)) : Prop :=
  pending = [] ∨ ∃ e, parse (joinLines pending) = .error e

/-- From any point on, a session does what is left of the program. -/
theorem run_follows {settings : Settings} (noListing : settings.listing = false)
    {lines pending : List (List UInt8)} (noExit : ∀ line ∈ lines, isExit line = false)
    (held : Held pending) {i j : Interpreter} (hij : i.Alike j) {program trees : List Tree}
    (hp : parse (joinLines (pending ++ lines)) = .ok trees)
    (alike : List.Forall₂ Tree.Alike program trees) (hh : (i.evalAll program).halt = none) :
    Follows settings (lines.map Input.line).length (run ⟨settings, j, pending⟩ (lines.map .line))
      (i.evalAll program) := by
  -- On the lines still to come. The next one is skipped, held back, or completes a part of the
  -- program; the invariant is that pending and coming lines together are what is left of it.
  induction lines generalizing pending i j program trees with
  | nil =>
    rw [List.append_nil] at hp
    rcases held with rfl | ⟨e, he⟩
    · change parse [] = .ok trees at hp
      rw [parse_nil] at hp
      cases hp
      cases alike
      refine ⟨rfl, rfl, ?_, fun _ => ?_, hij⟩
      · simp [valueLines, run, step, Interpreter.evalAll]
      · simp [run, step]
    · rw [he] at hp
      cases hp
  | cons line lines ih =>
    obtain ⟨hx, noExit⟩ := List.forall_mem_cons.mp noExit
    have whole : pending ++ line :: lines = (pending ++ [line]) ++ lines := by simp
    have some : pending ++ [line] ≠ [] := by simp
    rw [whole] at hp
    by_cases skip : pending = [] ∧ isBlankLine line = true
    · obtain ⟨rfl, hb⟩ := skip
      obtain ⟨back, hback, rest⟩ := parse_rest some hp (parse_blank_of_ok hb hp)
      have next := ih noExit (.inl rfl) hij hback (Tree.alikeAll_trans alike rest) hh
      exact next.cons [] (step_blank rfl hb) rfl (fun _ => rfl) rfl rfl
    · have accepts := step_accept (s := ⟨settings, j, pending⟩) skip hx
      cases hread : parse (joinLines (pending ++ [line])) with
      | error e =>
        have more := isIncomplete_read some hp hread
        have next := ih noExit (.inr ⟨e, hread⟩) hij hp alike hh
        have step := accepts.trans (accept_incomplete hread more)
        exact next.cons [] step rfl (fun _ => rfl) rfl rfl
      | ok front =>
        obtain ⟨back, hback, rest⟩ := parse_rest some hp hread
        obtain ⟨r, later, now, halt, alike', hh', values, interpreter⟩ :=
          hij.evalAll_split (Tree.alikeAll_trans alike rest) hh
        have next := ih noExit (.inl rfl) now.interpreter hback alike' hh'
        have step := accepts.trans (accept_complete hread (now.halt_eq_none halt))
        refine next.cons r.values step ?_ (fun quiet => ?_) values interpreter
        · change transcript settings.listing front (j.evalAll front).values = _
          rw [noListing, transcript_evalAll]
          exact (valueLines_alike now.values).symm
        · simp [Settings.log, quiet]

/-- A program that evaluates without error does in a session, fed with its lines, what it does as a
whole: the session prints its values and leaves the interpreter as it does. -/
theorem run_agrees (settings : Settings) (i : Interpreter) (lines : List (List UInt8))
    (report : Report) (noListing : settings.listing = false)
    (noExit : ∀ line ∈ lines, isExit line = false)
    (h : i.evalSource (joinLines lines) = .ok report) (hh : report.halt = none) :
    Follows settings lines.length (run ⟨settings, i, []⟩ (lines.map .line)) report := by
  obtain ⟨trees, hp, rfl⟩ := Fallible.map_eq_ok h
  have same : List.Forall₂ Tree.Alike trees trees := List.forall₂_same.mpr fun t _ => .refl t
  have ran := run_follows noListing noExit (.inl rfl) (.refl i) hp same hh
  rwa [List.length_map] at ran

/-- A definition on three lines, the second one blank, a name behind it, and a string on two. -/
def sampleLines : List (List UInt8) :=
  ["(define x", "", "  2) x", "\"a", "b\""].map Text.Utf8.bytes

theorem run_agrees_sampleLines :
    ∃ report, (Interpreter.new 0).evalSource (joinLines sampleLines) = .ok report ∧
      report.halt = none ∧ report.values.map Value.shown = ["2", "2", "a\nb"] ∧
      Follows ⟨0, false, false⟩ 5
        (run ⟨⟨0, false, false⟩, .new 0, []⟩ (sampleLines.map .line)) report := by
  have shown : ((Interpreter.new 0).evalSource (joinLines sampleLines)).toOption.map
      (fun r => (r.halt.isNone, r.values.map Value.shown)) = some (true, ["2", "2", "a\nb"]) := by
    decide +kernel
  have noExit : ∀ line ∈ sampleLines, isExit line = false := by decide +kernel
  cases h : (Interpreter.new 0).evalSource (joinLines sampleLines) with
  | error e =>
    rw [h] at shown
    cases shown
  | ok report =>
    rw [h] at shown
    obtain ⟨halt, values⟩ := Prod.mk.inj (Option.some.inj shown)
    have hh := Option.isNone_iff_eq_none.mp halt
    exact ⟨report, rfl, hh, values, run_agrees _ _ _ report rfl noExit h hh⟩

end Session

end Lisplet
