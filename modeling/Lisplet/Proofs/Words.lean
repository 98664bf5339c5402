import Lisplet.Proofs.Numeral

/-! The words of the lexical grammar: of which characters each is made, and what may stand behind
it. The lexer cuts off a word wherever one stands, and nothing else. -/
namespace Lisplet

theorem Text.inRanges_apart (rs ss : List (Nat × Nat))
    (apart : ∀ r ∈ rs, ∀ s ∈ ss, r.2 < s.1 ∨ s.2 < r.1) {c : Char} (hc : inRanges rs c = true) :
    inRanges ss c = false := by
  cases h : inRanges ss c with
  | false => rfl
  | true =>
    obtain ⟨r, hr, hcr⟩ := List.any_eq_true.mp hc
    obtain ⟨s, hs, hcs⟩ := List.any_eq_true.mp h
    simp only [Bool.and_eq_true, decide_eq_true_eq] at hcr hcs
    rcases apart r hr s hs with lt | lt <;> omega

namespace Lexer

/-- The piece for a string with this content. -/
def Piece.quoted (content : List Char) : Piece :=
  ⟨.string, content, some (.text (String.ofList content)), '"' :: content ++ ['"']⟩

/-- What the lexer makes one token of, where `rest` follows. -/
inductive Word (rest : List Char) : Piece → Prop
  | mark {c : Char} {kind : Token.Kind} :
      (c, kind) ∈ [('(', .openParen), (')', .closeParen), ('+', .plus), ('*', .star),
        ('/', .slash)] →
      Word rest (.plain kind [c] none)
  | minus : (∀ c ∈ rest.head?, Decimal.isDigit c = false) → Word rest (.plain .minus ['-'] none)
  | number (sign : List Char) {d : Char} {ds : List Char} : sign = [] ∨ sign = ['-'] →
      Decimal.isDigit d = true → (∀ c ∈ ds, isNumeral c = true) →
      (∀ c ∈ rest.head?, isNumeral c = false) → Decimal.Numeral (d :: ds) →
      Word rest (.plain .number (sign ++ d :: ds)
        ((Decimal.numeral? (sign ++ d :: ds)).map .number))
  | string {content : List Char} : '"' ∉ content →
      Word rest (.quoted content)
  | symbol {c : Char} {cs : List Char} : isSymbolStart c = true →
      (∀ d ∈ cs, endsSymbol d = false) → (∀ d ∈ rest.head?, endsSymbol d = true) →
      Word rest (.plain .symbol (c :: cs) none)

/-! ## The lexer cuts as the grammar says -/

theorem cutString_ok_iff {cs rest : List Char} {p : Piece} :
    cutString cs = .ok (p, rest) ↔
      ∃ content, '"' ∉ content ∧ cs = content ++ '"' :: rest ∧ p = .quoted content := by
  have run {content : List Char} (h : '"' ∉ content) : ∀ c ∈ content, decide (c ≠ '"') = true :=
    fun c hc => decide_eq_true fun e => h (e ▸ hc)
  unfold cutString
  dsimp only
  constructor
  · intro h
    split at h
    · cases h
    · rename_i q tail hd
      cases h
      have whole := List.takeWhile_append_dropWhile (p := (· ≠ '"')) (l := cs)
      have stop := dropWhile_stop (· ≠ '"') cs
      rw [hd] at whole stop
      obtain rfl : q = '"' := by simpa using stop q rfl
      exact ⟨_, fun hq => by simpa using List.mem_takeWhile_imp hq, whole.symm, rfl⟩
  · rintro ⟨content, hq, rfl, rfl⟩
    rw [takeWhile_run (run hq) (by simp), dropWhile_run (run hq) (by simp)]
    rfl

theorem cutNumber_ok_iff {c : Char} {cs rest : List Char} {p : Piece} :
    cutNumber c cs = .ok (p, rest) ↔
      ∃ digits, (∀ d ∈ digits, isNumeral d = true) ∧ (∀ d ∈ rest.head?, isNumeral d = false) ∧
        cs = digits ++ rest ∧ (Decimal.numeral? (c :: digits)).isSome = true ∧
        p = .plain .number (c :: digits) ((Decimal.numeral? (c :: digits)).map .number) := by
  unfold cutNumber
  dsimp only
  constructor
  · intro h
    split at h
    · rename_i x hx
      cases h
      exact ⟨_, fun d hd => List.mem_takeWhile_imp hd, dropWhile_stop _ _,
        List.takeWhile_append_dropWhile.symm, by rw [hx]; rfl, by rw [hx]; rfl⟩
    · cases h
  · rintro ⟨digits, inside, stop, rfl, known, rfl⟩
    obtain ⟨x, hx⟩ := Option.isSome_iff_exists.mp known
    simp only [takeWhile_run inside stop, dropWhile_run inside stop, hx, Option.map_some]

theorem punctuation?_iff {c : Char} {kind : Token.Kind} :
    punctuation? c = some kind ↔ (c, kind) ∈ [('(', .openParen), (')', .closeParen), ('+', .plus),
      ('*', .star), ('/', .slash)] := by
  unfold punctuation?
  split <;> simp_all [eq_comm]

theorem startsWithDigit_eq_false_iff {cs : List Char} :
    startsWithDigit cs = false ↔ ∀ c ∈ cs.head?, Decimal.isDigit c = false := by
  cases cs <;> simp [startsWithDigit]

theorem splitSign_minus (cs : List Char) : Decimal.splitSign ('-' :: cs) = (true, cs) := rfl

theorem splitSign_digit {c : Char} (hc : Decimal.isDigit c = true) (cs : List Char) :
    Decimal.splitSign (c :: cs) = (false, c :: cs) := by
  unfold Decimal.splitSign
  split
  · rename_i h; cases h; exact absurd rfl (Decimal.isDigit_ne_minus hc)
  · rfl

theorem isNumeral_of_isDigit {c : Char} (h : Decimal.isDigit c = true) : isNumeral c = true := by
  simp only [isNumeral, h, Bool.true_or]

theorem word_of_cutNumber {c : Char} {cs rest : List Char} {p : Piece}
    (first : Decimal.isDigit c = true ∨ c = '-' ∧ startsWithDigit cs = true)
    (h : cutNumber c cs = .ok (p, rest)) : Word rest p ∧ c :: cs = p.span ++ rest := by
  obtain ⟨digits, inside, stop, rfl, known, rfl⟩ := cutNumber_ok_iff.mp h
  refine ⟨?_, rfl⟩
  rcases first with hc | ⟨rfl, hd⟩
  · have numeral := (numeral?_isSome_iff (splitSign_digit hc digits)
      (List.forall_mem_cons.mpr ⟨isNumeral_of_isDigit hc, inside⟩)).mp known
    exact .number [] (.inl rfl) hc inside stop numeral
  · -- The digit behind the sign belongs to the run, since nothing behind the run is one.
    cases digits with
    | nil =>
      have none := startsWithDigit_eq_false_iff.mpr fun d hd => by
        simpa [isNumeral] using (Bool.or_eq_false_iff.mp (stop d hd)).1
      rw [List.nil_append, none] at hd
      cases hd
    | cons d ds =>
      exact .number ['-'] (.inr rfl) hd (fun c hc => inside c (.tail _ hc)) stop
        ((numeral?_isSome_iff (splitSign_minus _) inside).mp known)

/-- Whatever the lexer cuts off is a word of the grammar, and nothing of the text is lost. -/
theorem word_of_cut {c : Char} {cs rest : List Char} {p : Piece} (h : cut c cs = .ok (p, rest)) :
    Word rest p ∧ c :: cs = p.span ++ rest := by
  unfold cut at h
  split at h
  · rename_i kind hk
    cases h
    exact ⟨.mark (punctuation?_iff.mp hk), rfl⟩
  · split at h
    · rename_i hq
      obtain ⟨content, noQuote, rfl, rfl⟩ := cutString_ok_iff.mp h
      exact ⟨.string noQuote, by simp [Piece.quoted, hq]⟩
    · split at h
      · rename_i hn
        exact word_of_cutNumber (by simpa using hn) h
      · rename_i hn
        split at h
        · rename_i hm
          cases h
          subst hm
          have hd : Decimal.isDigit '-' = false ∧ startsWithDigit cs = false := by simpa using hn
          exact ⟨.minus (startsWithDigit_eq_false_iff.mp hd.2), rfl⟩
        · split at h
          · rename_i hs
            cases h
            refine ⟨.symbol hs (fun d hd => ?_) (fun d hd => ?_), ?_⟩
            · simpa using List.mem_takeWhile_imp hd
            · simpa using dropWhile_stop _ _ d hd
            · simp [Piece.plain]
          · cases h

/-- No symbol starts with a character that starts another word. -/
theorem not_isSymbolStart {c : Char} (low : c.toNat < 0x41)
    (other : c ∉ ['=', '!', '<', '>', '?', '.']) : isSymbolStart c = false := by
  have below : Text.inRanges [(0, 0x40)] c = true := by
    simpa [Text.inRanges] using Nat.le_of_lt_succ low
  have noLetter : Text.isLetter c = false :=
    Text.inRanges_apart [(0, 0x40)] Text.letterRanges (by decide +kernel) below
  simpa [isSymbolStart, noLetter, and_assoc] using other

theorem toNat_of_isDigit {c : Char} (h : Decimal.isDigit c = true) :
    48 ≤ c.toNat ∧ c.toNat ≤ 57 := by
  simp only [Decimal.isDigit, Bool.and_eq_true, decide_eq_true_eq] at h
  exact h

theorem punctuation?_of_isDigit {c : Char} (h : Decimal.isDigit c = true) :
    punctuation? c = none := by
  unfold punctuation?
  split
  case h_6 => rfl
  all_goals exact absurd h (by decide)

theorem cut_of_isDigit {c : Char} (h : Decimal.isDigit c = true) (cs : List Char) :
    cut c cs = cutNumber c cs := by
  have noQuote : c ≠ '"' := by rintro rfl; revert h; decide
  simp only [cut, punctuation?_of_isDigit h, noQuote, h, Bool.true_or, if_false, if_true]

theorem ne_of_isSymbolStart {c d : Char} (h : isSymbolStart c = true) (low : d.toNat < 0x41)
    (other : d ∉ ['=', '!', '<', '>', '?', '.']) : c ≠ d := by
  rintro rfl
  rw [not_isSymbolStart low other] at h
  cases h

theorem isDigit_of_isSymbolStart {c : Char} (h : isSymbolStart c = true) :
    Decimal.isDigit c = false := by
  cases hd : Decimal.isDigit c with
  | false => rfl
  | true =>
    have range := toNat_of_isDigit hd
    have other : c ∉ ['=', '!', '<', '>', '?', '.'] := by
      intro hm
      simp only [List.mem_cons, List.not_mem_nil, or_false] at hm
      rcases hm with rfl | rfl | rfl | rfl | rfl | rfl <;> revert hd <;> decide
    rw [not_isSymbolStart (by omega) other] at h
    cases h

theorem cut_of_isSymbolStart {c : Char} (h : isSymbolStart c = true) (cs : List Char) :
    cut c cs = .ok (cutSymbol c cs) := by
  have noMark : punctuation? c = none := by
    unfold punctuation?
    split
    case h_6 => rfl
    all_goals exact absurd rfl (ne_of_isSymbolStart h (by decide) (by decide))
  have noQuote : c ≠ '"' := ne_of_isSymbolStart h (by decide) (by decide)
  have noMinus : c ≠ '-' := ne_of_isSymbolStart h (by decide) (by decide)
  simp [cut, noMark, isDigit_of_isSymbolStart h, noQuote, noMinus, h]

theorem cut_minus {cs : List Char} (h : startsWithDigit cs = true) :
    cut '-' cs = cutNumber '-' cs := by
  simp [cut, punctuation?, h]

/-- Every word of the grammar is cut off where it stands. -/
theorem cut_of_word {c : Char} {cs rest : List Char} {p : Piece} (hw : Word rest p)
    (h : c :: cs = p.span ++ rest) : cut c cs = .ok (p, rest) := by
  cases hw with
  | mark hk =>
    cases h
    simp only [cut, punctuation?_iff.mpr hk]
    rfl
  | minus stop =>
    cases h
    simp [cut, punctuation?, startsWithDigit_eq_false_iff.mpr stop, Decimal.isDigit]
  | @number sign d ds hsign hd inside stop numeral =>
    have inside' : ∀ c ∈ d :: ds, isNumeral c = true :=
      List.forall_mem_cons.mpr ⟨isNumeral_of_isDigit hd, inside⟩
    rcases hsign with rfl | rfl
    · cases h
      rw [cut_of_isDigit hd, cutNumber_ok_iff]
      exact ⟨ds, inside, stop, rfl,
        (numeral?_isSome_iff (splitSign_digit hd ds) inside').mpr numeral, rfl⟩
    · obtain ⟨rfl, rfl⟩ : c = '-' ∧ cs = d :: ds ++ rest := List.cons.inj h
      have digit : startsWithDigit (d :: ds ++ rest) = true := hd
      rw [cut_minus digit, cutNumber_ok_iff]
      exact ⟨d :: ds, inside', stop, rfl,
        (numeral?_isSome_iff (splitSign_minus _) inside').mpr numeral, rfl⟩
  | string noQuote =>
    cases h
    simp only [cut, punctuation?, if_true]
    exact cutString_ok_iff.mpr ⟨_, noQuote, by simp, rfl⟩
  | @symbol first word hc inside stop =>
    obtain ⟨rfl, rfl⟩ : c = first ∧ cs = word ++ rest := List.cons.inj h
    have run : ∀ d ∈ word, (!endsSymbol d) = true := fun d hd => by rw [inside d hd]; rfl
    have stop' : ∀ d ∈ rest.head?, (!endsSymbol d) = false := fun d hd => by rw [stop d hd]; rfl
    rw [cut_of_isSymbolStart hc, cutSymbol, takeWhile_run run stop', dropWhile_run run stop']

theorem cut_ok_iff {c : Char} {cs rest : List Char} {p : Piece} :
    cut c cs = .ok (p, rest) ↔ Word rest p ∧ c :: cs = p.span ++ rest :=
  ⟨word_of_cut, fun h => cut_of_word h.1 h.2⟩

theorem isBlank_of_cut {c : Char} {cs : List Char} {r : Piece × List Char} (h : cut c cs = .ok r) :
    isBlank c = false := by
  cases hb : isBlank c with
  | false => rfl
  | true =>
    simp only [isBlank, Bool.or_eq_true, decide_eq_true_eq, or_assoc] at hb
    rcases hb with rfl | rfl | rfl | rfl <;>
      simp [cut, punctuation?, Decimal.isDigit, not_isSymbolStart] at h

theorem Word.span_eq_cons {rest : List Char} {p : Piece} (hw : Word rest p) :
    ∃ c cs, p.span = c :: cs := by
  cases hw with
  | number sign hsign => rcases hsign with rfl | rfl <;> exact ⟨_, _, rfl⟩
  | mark | minus | string | symbol => exact ⟨_, _, rfl⟩

theorem Word.kind_ne_eof {rest : List Char} {p : Piece} (hw : Word rest p) : p.kind ≠ .eof := by
  cases hw with
  | mark hk =>
    rintro rfl
    simp at hk
  | minus | number | string | symbol => exact nofun

end Lexer

end Lisplet
