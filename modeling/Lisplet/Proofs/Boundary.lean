import Lisplet.Proofs.Grammar

/-! Putting one text behind another. A byte that is a character by itself, and ends every word,
keeps the texts on its two sides apart: the lexer reads each of them as if it stood alone. -/
namespace Lisplet

namespace Text.Utf8

variable {b : UInt8}

theorem tail?_eq_none (hb : b < 0x80) : tail? b = none := by
  have low : ¬0x80 ≤ b := UInt8.not_le.mpr hb
  simp [tail?, low]

/-- No character is encoded across a byte that is a character by itself. -/
theorem first_append (hb : b < 0x80) (a : UInt8) (bs cs : List UInt8) :
    first a (bs ++ b :: cs) = first a bs := by
  have stop := tail?_eq_none hb
  have two : two? a (bs ++ b :: cs) = two? a bs := by
    match bs with
    | [] => simp [two?, stop]
    | _ :: _ => rfl
  have three : three? a (bs ++ b :: cs) = three? a bs := by
    match bs with
    | [] => cases cs <;> simp [three?, stop]
    | [x] => simp [three?, stop]
    | _ :: _ :: _ => rfl
  have four : four? a (bs ++ b :: cs) = four? a bs := by
    match bs with
    | [] => rcases cs with _ | ⟨_, _ | ⟨_, _⟩⟩ <;> simp [four?, stop]
    | [x] => cases cs <;> simp [four?, stop]
    | [x, y] => simp [four?, stop]
    | _ :: _ :: _ :: _ => rfl
  simp only [first, two, three, four]

/-- A character is read only where all its bytes are there. -/
theorem first_length_le (a : UInt8) (bs : List UInt8) : (first a bs).2 ≤ bs.length := by
  have found {k : Nat} {x : Option Char} (h : bs.length < k → x = none) :
      ((x.map (·, k)).getD (replacement, 0)).2 ≤ bs.length := by
    cases x with
    | none => exact Nat.zero_le _
    | some c => exact Nat.le_of_not_lt fun lt => by cases h lt
  have two : bs.length < 1 → two? a bs = none := by
    match bs with
    | [] => exact fun _ => rfl
    | _ :: _ => simp
  have three : bs.length < 2 → three? a bs = none := by
    match bs with
    | [] | [_] => exact fun _ => rfl
    | _ :: _ :: _ => simp
  have four : bs.length < 3 → four? a bs = none := by
    match bs with
    | [] | [_] | [_, _] => exact fun _ => rfl
    | _ :: _ :: _ :: _ => simp
  unfold first
  split
  · exact Nat.zero_le _
  · split
    · exact Nat.zero_le _
    · split
      · exact found two
      · split
        · exact found three
        · split
          · exact found four
          · exact Nat.zero_le _

theorem decodeAfter_append (hb : b < 0x80) (bs cs : List UInt8) {n : Nat} (hn : n ≤ bs.length) :
    decodeAfter n (bs ++ b :: cs) = decodeAfter n bs ++ Char.ofNat b.toNat :: decode cs := by
  induction bs generalizing n with
  | nil =>
    obtain rfl : n = 0 := by simpa using hn
    simp [decodeAfter, first, hb, decode]
  | cons a bs ih =>
    cases n with
    | zero =>
      simp only [List.cons_append, decodeAfter, first_append hb, ih (first_length_le a bs)]
    | succ n => exact ih (Nat.le_of_succ_le_succ hn)

theorem decode_append (hb : b < 0x80) (bs cs : List UInt8) :
    decode (bs ++ b :: cs) = decode bs ++ Char.ofNat b.toNat :: decode cs :=
  decodeAfter_append hb bs cs (Nat.zero_le _)

theorem decode_ascii_append {front : List UInt8} (low : ∀ b ∈ front, b < 0x80)
    (bs : List UInt8) :
    decode (front ++ bs) = front.map (fun b => Char.ofNat b.toNat) ++ decode bs := by
  induction front with
  | nil => rfl
  | cons b front ih =>
    obtain ⟨hb, low⟩ := List.forall_mem_cons.mp low
    have first := decode_append hb [] (front ++ bs)
    rw [ih low] at first
    exact first

end Text.Utf8

namespace Lexer

/-- What follows a text that has ended in a boundary keeps meeting what is asked of it. -/
theorem head_append {q : Char → Prop} {b : Char} {rest more : List Char} (hb : q b)
    (h : ∀ c ∈ rest.head?, q c) : ∀ c ∈ (rest ++ b :: more).head?, q c := by
  cases rest with
  | nil => simpa using hb
  | cons c cs => exact h

theorem sourceChars_of_mark {source : List UInt8} {cs : List Char}
    (h : Text.Utf8.decode source = '\uFEFF' :: cs) : sourceChars source = cs := by
  simp only [sourceChars, h]

theorem sourceChars_of_noMark {source : List UInt8}
    (h : ∀ c ∈ (Text.Utf8.decode source).head?, c ≠ '\uFEFF') :
    sourceChars source = Text.Utf8.decode source := by
  unfold sourceChars
  split
  · rename_i cs hd
    rw [hd] at h
    exact absurd rfl (h '\uFEFF' rfl)
  · rfl

theorem sourceChars_suffix (source : List UInt8) :
    sourceChars source <:+ Text.Utf8.decode source := by
  unfold sourceChars
  split
  · rename_i cs hd
    rw [hd]
    exact List.suffix_cons _ _
  · exact List.suffix_refl _

theorem sourceChars_append {b : UInt8} (hb : b < 0x80) (source text : List UInt8) :
    sourceChars (source ++ b :: text) =
      sourceChars source ++ Char.ofNat b.toNat :: Text.Utf8.decode text := by
  have whole := Text.Utf8.decode_append hb source text
  by_cases marked : (Text.Utf8.decode source).head? = some '\uFEFF'
  · obtain ⟨cs, hd⟩ := List.head?_eq_some_iff.mp marked
    rw [hd, List.cons_append] at whole
    rw [sourceChars_of_mark hd, sourceChars_of_mark whole]
  · have noMark : Char.ofNat b.toNat ≠ '\uFEFF' := by
      intro h
      have code : (Char.ofNat b.toNat).toNat = 0xFEFF := by rw [h]; rfl
      have low : b.toNat < 0x80 := UInt8.lt_iff_toNat_lt.mp hb
      rw [Char.ofNat, dif_pos (Or.inl (by omega))] at code
      change b.toNat = 0xFEFF at code
      omega
    have noMarkSource : ∀ c ∈ (Text.Utf8.decode source).head?, c ≠ '\uFEFF' :=
      fun c hc he => marked (he ▸ hc)
    rw [sourceChars_of_noMark noMarkSource, ← whole, sourceChars_of_noMark]
    rw [whole]
    exact head_append noMark noMarkSource

section
variable {b : Char} {rest more : List Char} {p : Piece}

theorem endsSymbol_cases (hb : endsSymbol b = true) :
    b = ' ' ∨ b = '\t' ∨ b = '\r' ∨ b = '\n' ∨ b = '(' ∨ b = ')' ∨ b = '"' := by
  simpa [endsSymbol, isBlank, or_assoc] using hb

theorem isNumeral_of_endsSymbol (hb : endsSymbol b = true) : isNumeral b = false := by
  rcases endsSymbol_cases hb with rfl | rfl | rfl | rfl | rfl | rfl | rfl <;> rfl

theorem Word.append (hb : endsSymbol b = true) (h : Word rest p) : Word (rest ++ b :: more) p := by
  have noNumeral := isNumeral_of_endsSymbol hb
  have noDigit : Decimal.isDigit b = false := (Bool.or_eq_false_iff.mp noNumeral).1
  cases h with
  | mark hk => exact .mark hk
  | minus stop => exact .minus (head_append noDigit stop)
  | number sign hsign hd inside stop numeral =>
    exact .number sign hsign hd inside (head_append noNumeral stop) numeral
  | string noQuote => exact .string noQuote
  | symbol hc inside stop => exact .symbol hc inside (head_append hb stop)

/-- A word stays one where the text is cut off behind it. -/
theorem Word.shorten (h : Word (rest ++ more) p) : Word rest p := by
  have stays {q : Char → Prop} (stop : ∀ c ∈ (rest ++ more).head?, q c) :
      ∀ c ∈ rest.head?, q c := by
    cases rest with
    | nil => exact nofun
    | cons c cs => exact stop
  cases h with
  | mark hk => exact .mark hk
  | minus stop => exact .minus (stays stop)
  | number sign hsign hd inside stop numeral =>
    exact .number sign hsign hd inside (stays stop) numeral
  | string noQuote => exact .string noQuote
  | symbol hc inside stop => exact .symbol hc inside (stays stop)

theorem Word.alone (h : Word rest p) : Word [] p := by
  rw [← List.nil_append rest] at h
  exact h.shorten

theorem cut_ok_append (hb : endsSymbol b = true) {c : Char} {cs : List Char}
    (h : cut c cs = .ok (p, rest)) : cut c (cs ++ b :: more) = .ok (p, rest ++ b :: more) := by
  obtain ⟨hw, hs⟩ := cut_ok_iff.mp h
  refine cut_ok_iff.mpr ⟨hw.append hb, ?_⟩
  rw [← List.append_assoc, ← hs, List.cons_append]

theorem startsWithDigit_append (hb : endsSymbol b = true) (cs : List Char) :
    startsWithDigit (cs ++ b :: more) = startsWithDigit cs := by
  cases cs with
  | nil => exact (Bool.or_eq_false_iff.mp (isNumeral_of_endsSymbol hb)).1
  | cons c cs => rfl

theorem cutNumber_error_append (hb : endsSymbol b = true) {c : Char} {cs : List Char}
    {cause : LexicalError.Cause} (h : cutNumber c cs = .error cause) :
    cutNumber c (cs ++ b :: more) = .error cause := by
  have lexeme : (cs ++ b :: more).takeWhile isNumeral = cs.takeWhile isNumeral := by
    have stop : ∀ d ∈ (cs.dropWhile isNumeral ++ b :: more).head?, isNumeral d = false :=
      head_append (isNumeral_of_endsSymbol hb) (dropWhile_stop isNumeral cs)
    have inside : ∀ d ∈ cs.takeWhile isNumeral, isNumeral d = true :=
      fun d hd => List.mem_takeWhile_imp hd
    have run := takeWhile_run inside stop
    rwa [← List.append_assoc, List.takeWhile_append_dropWhile] at run
  unfold cutNumber at h ⊢
  simp only [lexeme] at h ⊢
  split at h
  · cases h
  · exact h

/-- Only the end of an open string is looked for behind the text. -/
theorem cut_error_append (hb : endsSymbol b = true) {c : Char} {cs : List Char}
    {cause : LexicalError.Cause} (h : cut c cs = .error cause)
    (hc : cause ≠ .unterminatedString) : cut c (cs ++ b :: more) = .error cause := by
  unfold cut at h ⊢
  rw [startsWithDigit_append hb]
  split at h
  · cases h
  · split at h
    · unfold cutString at h
      dsimp only at h
      split at h
      · cases h
        exact absurd rfl hc
      · cases h
    · rename_i hq
      rw [if_neg hq]
      split at h
      · rename_i hn
        rw [if_pos hn]
        exact cutNumber_error_append hb h
      · rename_i hn
        rw [if_neg hn]
        split at h
        · cases h
        · split at h
          · cases h
          · rename_i hm hs
            rw [if_neg hm, if_neg hs]
            exact h

end

/-- A text is read as far as a boundary behind it in the same way whatever stands behind that,
unless it ends inside a string. -/
theorem tokens_append {b : Char} (hb : endsSymbol b = true) (start : Position)
    (cs more : List Char) :
    (∃ body, (∀ t ∈ body, t.kind ≠ .eof) ∧
      (⟨start, cs⟩ : Cursor).tokens = .ok (body ++ [⟨.eof, "", none, start.advance cs⟩]) ∧
      (⟨start, cs ++ b :: more⟩ : Cursor).tokens =
        (⟨start.advance cs, b :: more⟩ : Cursor).tokens.map (body ++ ·)) ∨
    ∃ e, (⟨start, cs⟩ : Cursor).tokens = .error e ∧
      (e.cause ≠ .unterminatedString → (⟨start, cs ++ b :: more⟩ : Cursor).tokens = .error e) := by
  -- Words stay words in front of a boundary, so the two runs part only where the text ends.
  induction cs using scan_induction generalizing start with
  | nil =>
    refine .inl ⟨[], nofun, Cursor.tokens_nil start, ?_⟩
    change (⟨start, b :: more⟩ : Cursor).tokens = (⟨start, b :: more⟩ : Cursor).tokens.map id
    cases (⟨start, b :: more⟩ : Cursor).tokens <;> rfl
  | blank c cs hc ih =>
    simp only [List.cons_append, Cursor.tokens_blank hc]
    exact ih (start.next c)
  | word c cs p rest hc ih =>
    obtain ⟨hw, hs⟩ := word_of_cut hc
    have place : start.advance (c :: cs) = (start.advance p.span).advance rest := by
      rw [hs, Position.advance, Position.advance, Position.advance, List.foldl_append]
    simp only [List.cons_append, Cursor.tokens_cut_ok hc,
      Cursor.tokens_cut_ok (cut_ok_append hb hc), place]
    obtain ⟨body, noEnd, alone, whole⟩ | ⟨e, alone, whole⟩ := ih (start.advance p.span)
    · refine .inl ⟨p.token start :: body, ?_, by rw [alone]; rfl, ?_⟩
      · exact List.forall_mem_cons.mpr ⟨hw.kind_ne_eof, noEnd⟩
      · rw [whole]
        cases (⟨(start.advance p.span).advance rest, b :: more⟩ : Cursor).tokens <;> rfl
    · refine .inr ⟨e, by rw [alone]; rfl, fun he => ?_⟩
      rw [whole he]
      rfl
  | stuck c cs cause hc hcut =>
    refine .inr ⟨⟨cause, start⟩, Cursor.tokens_cut_error hc hcut start, fun he => ?_⟩
    exact Cursor.tokens_cut_error hc (cut_error_append hb hcut he) start

theorem tokens_cases (start : Position) (cs : List Char) :
    (∃ body, (∀ t ∈ body, t.kind ≠ .eof) ∧
      (⟨start, cs⟩ : Cursor).tokens = .ok (body ++ [⟨.eof, "", none, start.advance cs⟩])) ∨
    ∃ e, (⟨start, cs⟩ : Cursor).tokens = .error e := by
  have newline : endsSymbol '\n' = true := rfl
  obtain ⟨body, noEnd, alone, -⟩ | ⟨e, alone, -⟩ := tokens_append newline start cs []
  · exact .inl ⟨body, noEnd, alone⟩
  · exact .inr ⟨e, alone⟩

theorem tokens_ok_cases {start : Position} {cs : List Char} {body : List Token} {eof : Token}
    (h : (⟨start, cs⟩ : Cursor).tokens = .ok (body ++ [eof])) :
    (∀ t ∈ body, t.kind ≠ .eof) ∧ eof = ⟨.eof, "", none, start.advance cs⟩ := by
  obtain ⟨body', noEnd, h'⟩ | ⟨e, h'⟩ := tokens_cases start cs
  · obtain ⟨rfl, last⟩ := List.append_inj' (Except.ok.inj (h.symm.trans h')) rfl
    exact ⟨noEnd, List.singleton_inj.mp last⟩
  · rw [h] at h'
    cases h'

/-- The tokens of a text stay in front of those that follow it. -/
theorem tokens_append_of_ok {b : Char} (hb : endsSymbol b = true) {start : Position}
    {cs : List Char} {body : List Token} {eof : Token}
    (h : (⟨start, cs⟩ : Cursor).tokens = .ok (body ++ [eof])) (more : List Char) :
    (⟨start, cs ++ b :: more⟩ : Cursor).tokens =
      (⟨start.advance cs, b :: more⟩ : Cursor).tokens.map (body ++ ·) := by
  obtain ⟨body', -, h', whole⟩ | ⟨e, h', -⟩ := tokens_append hb start cs more
  · obtain ⟨rfl, -⟩ := List.append_inj' (Except.ok.inj (h.symm.trans h')) rfl
    exact whole
  · rw [h] at h'
    cases h'

end Lexer

end Lisplet
