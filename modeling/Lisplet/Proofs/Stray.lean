import Lisplet.Proofs.Reading
import Lisplet.Proofs.Utf8

/-! Bytes that are no text. Each is read as a replacement character, for which the lexer has no rule
of its own: where a word has to start it is refused, and where any character is taken it is taken
too, inside a string and behind the first character of a symbol. A text is accepted just if all its
replacement characters stand in such places and it is accepted without them. -/
namespace Lisplet

open Text.Utf8 (replacement)

namespace Lexer

/-- What the lexer is at, between two characters. -/
inductive Mode where
  | between
  | number
  | symbol
  | string
  deriving DecidableEq, Repr

namespace Mode

/-- What a character begins that does not go on with a word. -/
def start (c : Char) : Mode :=
  if c = '"' then string
  else if Decimal.isDigit c then number
  else if isSymbolStart c then symbol
  else between

def next : Mode → Char → Mode
  | between, c => start c
  | number, c => if isNumeral c then number else start c
  | symbol, c => if endsSymbol c then start c else symbol
  | string, c => if c = '"' then between else string

def after (cs : List Char) : Mode := cs.foldl next between

/-- Whether a character is taken here that no word starts with. -/
def shelters : Mode → Bool
  | symbol | string => true
  | between | number => false

/-- From here on every replacement character stands where it is taken. -/
def Keeps : Mode → List Char → Prop
  | _, [] => True
  | m, c :: cs => (c = replacement → m.shelters = true) ∧ (m.next c).Keeps cs

theorem keeps_iff {m : Mode} {cs : List Char} : m.Keeps cs ↔
    ∀ front back, cs = front ++ replacement :: back → (front.foldl next m).shelters = true := by
  induction cs generalizing m with
  | nil => simp [Keeps]
  | cons c cs ih =>
    rw [Keeps, ih]
    constructor
    · rintro ⟨head, tail⟩ front back split
      cases front with
      | nil => exact head (List.cons.inj split).1
      | cons d front =>
        obtain ⟨rfl, later⟩ := List.cons.inj split
        exact tail front back later
    · intro every
      refine ⟨fun here => every [] cs (by rw [here]; rfl), fun front back split => ?_⟩
      exact every (c :: front) back (by rw [split]; rfl)

theorem keeps_append {m : Mode} {cs ds : List Char} :
    m.Keeps (cs ++ ds) ↔ m.Keeps cs ∧ (cs.foldl next m).Keeps ds := by
  induction cs generalizing m with
  | nil => simp [Keeps]
  | cons c cs ih => simp [Keeps, ih, and_assoc]

theorem keeps_of_ne {m : Mode} {cs : List Char} (h : ∀ c ∈ cs, c ≠ replacement) : m.Keeps cs := by
  induction cs generalizing m with
  | nil => trivial
  | cons c cs ih =>
    obtain ⟨head, tail⟩ := List.forall_mem_cons.mp h
    exact ⟨fun here => absurd here head, ih tail⟩

theorem start_eq_between {c : Char} (noQuote : c ≠ '"') (noDigit : Decimal.isDigit c = false)
    (low : c.toNat < 0x41) (other : c ∉ ['=', '!', '<', '>', '?', '.']) : start c = between := by
  simp [start, noQuote, noDigit, not_isSymbolStart low other]

theorem start_of_isBlank {c : Char} (h : isBlank c = true) : start c = between := by
  simp only [isBlank, Bool.or_eq_true, decide_eq_true_eq, or_assoc] at h
  rcases h with rfl | rfl | rfl | rfl <;>
    exact start_eq_between (by decide) (by decide) (by decide) (by decide)

theorem start_of_isDigit {c : Char} (h : Decimal.isDigit c = true) : start c = number := by
  have noQuote : c ≠ '"' := by rintro rfl; revert h; decide
  simp [start, noQuote, h]

theorem start_of_isSymbolStart {c : Char} (h : isSymbolStart c = true) : start c = symbol := by
  have noQuote : c ≠ '"' := ne_of_isSymbolStart h (by decide) (by decide)
  simp [start, noQuote, isDigit_of_isSymbolStart h, h]

theorem foldl_number {cs : List Char} (h : ∀ c ∈ cs, isNumeral c = true) :
    cs.foldl next number = number := by
  induction cs with
  | nil => rfl
  | cons c cs ih =>
    obtain ⟨head, tail⟩ := List.forall_mem_cons.mp h
    rw [List.foldl_cons, next, if_pos head, ih tail]

/-- Any characters that do not end it are taken into a symbol. -/
theorem symbol_keeps {cs : List Char} (h : ∀ c ∈ cs, endsSymbol c = false) :
    symbol.Keeps cs ∧ cs.foldl next symbol = symbol := by
  induction cs with
  | nil => exact ⟨trivial, rfl⟩
  | cons c cs ih =>
    obtain ⟨head, tail⟩ := List.forall_mem_cons.mp h
    have stays : symbol.next c = symbol := by simp [next, head]
    rw [Keeps, List.foldl_cons, stays]
    exact ⟨⟨fun _ => rfl, (ih tail).1⟩, (ih tail).2⟩

theorem string_keeps {cs : List Char} (h : '"' ∉ cs) :
    string.Keeps cs ∧ cs.foldl next string = string := by
  induction cs with
  | nil => exact ⟨trivial, rfl⟩
  | cons c cs ih =>
    obtain ⟨head, tail⟩ := not_or.mp (mt List.mem_cons.mpr h)
    have stays : string.next c = string := by simp [next, Ne.symm head]
    rw [Keeps, List.foldl_cons, stays]
    exact ⟨⟨fun _ => rfl, (ih tail).1⟩, (ih tail).2⟩

end Mode

/-! ## The replacement character -/

theorem isNumeral_replacement : isNumeral replacement = false := by decide

theorem endsSymbol_replacement : endsSymbol replacement = false := by decide

theorem isSymbolStart_replacement : isSymbolStart replacement = false := by decide +kernel

theorem cut_replacement (cs : List Char) :
    cut replacement cs = .error (.unexpectedCharacter replacement) := by
  have noStart : isSymbolStart '\uFFFD' = false := isSymbolStart_replacement
  simp [replacement, cut, punctuation?, Decimal.isDigit, noStart]

theorem ne_replacement_of_isNumeral {c : Char} (h : isNumeral c = true) : c ≠ replacement := by
  rintro rfl
  rw [isNumeral_replacement] at h
  cases h

/-! ## Words -/

namespace Mode

/-- A word is over: what follows does not go on with it. -/
def Over (m : Mode) (rest : List Char) : Prop :=
  ∀ c ∈ rest.head?, m.next c = start c ∧ (m.shelters = true → c ≠ replacement)

theorem over_between (rest : List Char) : between.Over rest :=
  fun _ _ => ⟨rfl, nofun⟩

theorem Over.keeps_iff {m : Mode} {rest : List Char} (h : m.Over rest) :
    m.Keeps rest ↔ between.Keeps rest := by
  cases rest with
  | nil => exact Iff.rfl
  | cons c cs =>
    obtain ⟨begins, taken⟩ := h c rfl
    have unsheltered : (c = replacement → m.shelters = true) ↔
        (c = replacement → between.shelters = true) := by
      constructor
      · intro sheltered here
        exact absurd here (taken (sheltered here))
      · intro sheltered here
        cases sheltered here
    rw [Keeps, Keeps, begins, unsheltered]
    rfl

theorem keeps_single {c : Char} (h : c ≠ replacement) (begins : start c = between) :
    between.Keeps [c] ∧ after [c] = between :=
  ⟨keeps_of_ne (List.forall_mem_singleton.mpr h), begins⟩

theorem start_minus : start '-' = between :=
  start_eq_between (by decide) (by decide) (by decide) (by decide)

theorem keeps_number {sign : List Char} {d : Char} {ds : List Char}
    (hsign : sign = [] ∨ sign = ['-']) (hd : Decimal.isDigit d = true)
    (inside : ∀ c ∈ ds, isNumeral c = true) :
    between.Keeps (sign ++ d :: ds) ∧ after (sign ++ d :: ds) = number := by
  have signs : ∀ c ∈ sign, c ≠ replacement := by
    rcases hsign with rfl | rfl
    · exact fun c hc => absurd hc List.not_mem_nil
    · exact List.forall_mem_singleton.mpr (by decide)
  have digits : ∀ c ∈ d :: ds, c ≠ replacement := by
    refine List.forall_mem_cons.mpr ⟨?_, fun c hc => ne_replacement_of_isNumeral (inside c hc)⟩
    exact ne_replacement_of_isNumeral (isNumeral_of_isDigit hd)
  have begins : sign.foldl next between = between := by
    rcases hsign with rfl | rfl
    · rfl
    · exact (keeps_single (by decide) start_minus).2
  refine ⟨keeps_of_ne (List.forall_mem_append.mpr ⟨signs, digits⟩), ?_⟩
  rw [after, List.foldl_append, begins, List.foldl_cons, next, start_of_isDigit hd,
    foldl_number inside]

theorem keeps_quoted {content : List Char} (h : '"' ∉ content) :
    between.Keeps ('"' :: content ++ ['"']) ∧ after ('"' :: content ++ ['"']) = between := by
  obtain ⟨kept, stays⟩ := string_keeps h
  have begins : between.next '"' = string := rfl
  constructor
  · refine ⟨fun here => absurd here (by decide), ?_⟩
    rw [begins]
    exact keeps_append.mpr ⟨kept, fun _ => by rw [stays]; rfl, trivial⟩
  · rw [after, List.cons_append, List.foldl_cons, begins, List.foldl_append, stays]
    rfl

theorem keeps_symbol {c : Char} {cs : List Char} (hc : isSymbolStart c = true)
    (inside : ∀ d ∈ cs, endsSymbol d = false) :
    between.Keeps (c :: cs) ∧ after (c :: cs) = symbol := by
  obtain ⟨kept, stays⟩ := symbol_keeps inside
  have begins : between.next c = symbol := start_of_isSymbolStart hc
  have first : c ≠ replacement := by
    rintro rfl
    rw [isSymbolStart_replacement] at hc
    cases hc
  constructor
  · refine ⟨fun here => absurd here first, ?_⟩
    rw [begins]
    exact kept
  · rw [after, List.foldl_cons, begins, stays]

/-- A word takes in the replacement characters that stand in it, and is over where it ends. -/
theorem keeps_word {rest : List Char} {p : Piece} (h : Word rest p) :
    between.Keeps p.span ∧ (after p.span).Over rest := by
  have from_between {span : List Char} (h : between.Keeps span ∧ after span = between) :
      between.Keeps span ∧ (after span).Over rest := by
    refine ⟨h.1, ?_⟩
    rw [h.2]
    exact over_between rest
  cases h with
  | mark hk =>
    simp only [List.mem_cons, Prod.mk.injEq, List.not_mem_nil, or_false] at hk
    rcases hk with ⟨rfl, -⟩ | ⟨rfl, -⟩ | ⟨rfl, -⟩ | ⟨rfl, -⟩ | ⟨rfl, -⟩ <;>
      exact from_between (keeps_single (by decide)
        (start_eq_between (by decide) (by decide) (by decide) (by decide)))
  | minus _ => exact from_between (keeps_single (by decide) start_minus)
  | string noQuote => exact from_between (keeps_quoted noQuote)
  | number sign hsign hd inside stop _ =>
    obtain ⟨kept, ends⟩ := keeps_number hsign hd inside
    refine ⟨kept, fun c hc => ?_⟩
    simp only [Piece.plain, ends, next, stop c hc]
    refine ⟨rfl, fun sheltered => ?_⟩
    cases sheltered
  | symbol hc inside stop =>
    obtain ⟨kept, ends⟩ := keeps_symbol hc inside
    refine ⟨kept, fun c hc => ?_⟩
    have ended := stop c hc
    simp only [Piece.plain, ends, next, ended]
    refine ⟨rfl, fun _ here => ?_⟩
    rw [here, endsSymbol_replacement] at ended
    cases ended

end Mode

open Mode

/-- Where a text can be cut, its replacement characters stand inside of strings and symbols. -/
theorem Cuts.keeps {cs : List Char} {segments : List Segment} (h : Cuts cs segments) :
    between.Keeps cs := by
  induction h with
  | nil => trivial
  | @blank c rest segments hb _ ih =>
    have other : c ≠ replacement := by
      rintro rfl
      exact absurd hb (by decide)
    refine ⟨fun here => absurd here other, ?_⟩
    rw [Mode.next, start_of_isBlank hb]
    exact ih
  | word hw _ ih =>
    obtain ⟨inside, ended⟩ := keeps_word hw
    exact keeps_append.mpr ⟨inside, ended.keeps_iff.mpr ih⟩

/-! ## Leaving replacement characters out -/

/-- The text without its replacement characters. -/
def mend (cs : List Char) : List Char := cs.filter (· ≠ replacement)

theorem mend_cons {c : Char} (h : c ≠ replacement) (cs : List Char) :
    mend (c :: cs) = c :: mend cs := by
  rw [mend, List.filter_cons_of_pos (by simpa using h)]
  rfl

theorem mend_append (cs ds : List Char) : mend (cs ++ ds) = mend cs ++ mend ds :=
  List.filter_append ..

theorem mend_of_ne {cs : List Char} (h : ∀ c ∈ cs, c ≠ replacement) : mend cs = cs :=
  List.filter_eq_self.mpr fun c hc => by simpa using h c hc

/-- A run that takes replacement characters ends at the same place without them. -/
theorem dropWhile_mend {q : Char → Bool} (h : q replacement = true) (cs : List Char) :
    (mend cs).dropWhile q = mend (cs.dropWhile q) := by
  induction cs with
  | nil => rfl
  | cons c cs ih =>
    by_cases here : c = replacement
    · subst here
      rw [List.dropWhile_cons_of_pos h, ← ih]
      rfl
    · rw [mend_cons here]
      cases hq : q c with
      | true => rw [List.dropWhile_cons_of_pos hq, List.dropWhile_cons_of_pos hq, ih]
      | false =>
        rw [List.dropWhile_cons_of_neg (by simp [hq]), List.dropWhile_cons_of_neg (by simp [hq]),
          mend_cons here]

theorem head?_mend {cs : List Char} (h : ∀ c ∈ cs.head?, c ≠ replacement) :
    (mend cs).head? = cs.head? := by
  cases cs with
  | nil => rfl
  | cons c cs => rw [mend_cons (h c rfl)]; rfl

theorem head_ne_of_keeps {m : Mode} {cs : List Char} (h : m.Keeps cs) (hm : m.shelters = false) :
    ∀ c ∈ cs.head?, c ≠ replacement := by
  cases cs with
  | nil => exact fun c hc => by cases hc
  | cons c cs =>
    rintro d ⟨⟩ here
    rw [h.1 here] at hm
    cases hm

theorem cutString_mend (cs : List Char) :
    (cutString (mend cs)).map Prod.snd = (cutString cs).map (mend ∘ Prod.snd) := by
  have stop := dropWhile_stop (· ≠ '"') cs
  unfold cutString
  dsimp only
  rw [dropWhile_mend (by decide)]
  cases hd : cs.dropWhile (· ≠ '"') with
  | nil => rfl
  | cons q rest =>
    rw [hd] at stop
    obtain rfl : q = '"' := by simpa using stop q rfl
    rw [mend_cons (by decide)]
    rfl

theorem cutSymbol_mend (c : Char) (cs : List Char) :
    (cutSymbol c (mend cs)).2 = mend (cutSymbol c cs).2 :=
  dropWhile_mend (by decide) cs

/-- Behind a number no replacement character is left out, so the number stays as long as it is. -/
theorem cutNumber_mend {c : Char} {cs : List Char}
    (stop : ∀ d ∈ (cs.dropWhile isNumeral).head?, d ≠ replacement) :
    (cutNumber c (mend cs)).map Prod.snd = (cutNumber c cs).map (mend ∘ Prod.snd) := by
  have inside : ∀ d ∈ cs.takeWhile isNumeral, isNumeral d = true :=
    fun d hd => List.mem_takeWhile_imp hd
  have behind : ∀ d ∈ (mend (cs.dropWhile isNumeral)).head?, isNumeral d = false := by
    rw [head?_mend stop]
    exact dropWhile_stop _ _
  have run : mend cs = cs.takeWhile isNumeral ++ mend (cs.dropWhile isNumeral) := by
    have same : mend (cs.takeWhile isNumeral) = cs.takeWhile isNumeral :=
      mend_of_ne fun d hd => ne_replacement_of_isNumeral (inside d hd)
    rw [← same, ← mend_append, List.takeWhile_append_dropWhile]
  unfold cutNumber
  dsimp only
  rw [run, takeWhile_run inside behind, dropWhile_run inside behind]
  cases Decimal.numeral? (c :: cs.takeWhile isNumeral) <;> rfl

theorem startsWithDigit_mend {cs : List Char} (h : ∀ c ∈ cs.head?, c ≠ replacement) :
    startsWithDigit (mend cs) = startsWithDigit cs := by
  cases cs with
  | nil => rfl
  | cons c cs => rw [mend_cons (h c rfl)]; rfl

/-- Behind the digits of a number the lexer takes nothing that no word starts with. -/
theorem number_stop {c : Char} {cs : List Char}
    (first : Decimal.isDigit c = true ∨ c = '-' ∧ startsWithDigit cs = true)
    (h : between.Keeps (c :: cs)) :
    ∀ d ∈ (cs.dropWhile isNumeral).head?, d ≠ replacement := by
  have inside : ∀ d ∈ cs.takeWhile isNumeral, isNumeral d = true :=
    fun d hd => List.mem_takeWhile_imp hd
  have mode : (c :: cs.takeWhile isNumeral).foldl next between = number := by
    rcases first with hc | ⟨rfl, hd⟩
    · rw [List.foldl_cons, Mode.next, start_of_isDigit hc, foldl_number inside]
    · cases cs with
      | nil => cases hd
      | cons d ds =>
        have digit : Decimal.isDigit d = true := hd
        rw [List.takeWhile_cons_of_pos (isNumeral_of_isDigit digit)] at inside ⊢
        exact (keeps_number (.inr rfl) digit fun e he => inside e (.tail _ he)).2
  have whole : c :: cs = (c :: cs.takeWhile isNumeral) ++ cs.dropWhile isNumeral := by
    rw [List.cons_append, List.takeWhile_append_dropWhile]
  rw [whole, keeps_append, mode] at h
  exact head_ne_of_keeps h.2 rfl

/-- Cutting off a word goes the same way without the replacement characters that are taken. -/
theorem cut_mend {c : Char} {cs : List Char} (h : between.Keeps (c :: cs)) :
    (cut c (mend cs)).map Prod.snd = (cut c cs).map (mend ∘ Prod.snd) := by
  have sign : (c = '-' && startsWithDigit (mend cs)) = (c = '-' && startsWithDigit cs) := by
    by_cases minus : c = '-'
    · subst minus
      have later : between.Keeps cs := start_minus ▸ h.2
      rw [startsWithDigit_mend (head_ne_of_keeps later rfl)]
    · simp [minus]
  unfold cut
  cases punctuation? c with
  | some kind => rfl
  | none =>
    simp only [sign]
    split
    · exact cutString_mend cs
    · split
      · rename_i first
        exact cutNumber_mend (number_stop (by simpa using first) h)
      · split
        · rfl
        · split
          · exact congrArg Except.ok (cutSymbol_mend c cs)
          · rfl

/-! ## Texts that are accepted -/

/-- The lexer makes tokens of the whole text. -/
def Accepted (cs : List Char) : Prop := ∃ tokens, (⟨.start, cs⟩ : Cursor).tokens = .ok tokens

theorem accepted_iff {cs : List Char} : Accepted cs ↔ ∃ segments, Cuts cs segments := by
  constructor
  · rintro ⟨tokens, h⟩
    obtain ⟨segments, cuts, -⟩ := (tokens_iff cs []).mp h
    exact ⟨segments, cuts⟩
  · rintro ⟨segments, cuts⟩
    exact ⟨_, (tokens_iff cs []).mpr ⟨segments, cuts, rfl⟩⟩

theorem accepted_blank_iff {c : Char} (hb : isBlank c = true) (cs : List Char) :
    Accepted (c :: cs) ↔ Accepted cs := by
  simp only [accepted_iff, cuts_blank_iff hb]
  constructor
  · rintro ⟨_, later, -, cuts⟩
    exact ⟨later, cuts⟩
  · rintro ⟨later, cuts⟩
    exact ⟨_, later, rfl, cuts⟩

theorem accepted_word_iff {c : Char} {cs rest : List Char} {p : Piece}
    (hc : cut c cs = .ok (p, rest)) : Accepted (c :: cs) ↔ Accepted rest := by
  simp only [accepted_iff, cuts_word_iff hc]
  constructor
  · rintro ⟨_, later, -, cuts⟩
    exact ⟨later, cuts⟩
  · rintro ⟨later, cuts⟩
    exact ⟨_, later, rfl, cuts⟩

theorem not_accepted {c : Char} {cs : List Char} {cause : LexicalError.Cause}
    (hb : isBlank c = false) (hc : cut c cs = .error cause) : ¬Accepted (c :: cs) := by
  rw [accepted_iff]
  rintro ⟨segments, cuts⟩
  exact not_cuts hb hc cuts

theorem Accepted.keeps {cs : List Char} (h : Accepted cs) : between.Keeps cs := by
  obtain ⟨segments, cuts⟩ := accepted_iff.mp h
  exact cuts.keeps

/-- Replacement characters that are taken do not decide whether a text is accepted. -/
theorem accepted_mend_iff {cs : List Char} (h : between.Keeps cs) :
    Accepted (mend cs) ↔ Accepted cs := by
  induction cs using scan_induction with
  | nil => exact Iff.rfl
  | blank c cs hb ih =>
    have later : between.Keeps cs := start_of_isBlank hb ▸ h.2
    rw [mend_cons (head_ne_of_keeps h rfl c rfl), accepted_blank_iff hb, accepted_blank_iff hb,
      ih later]
  | word c cs p rest hc ih =>
    obtain ⟨hw, whole⟩ := word_of_cut hc
    have later : between.Keeps rest := by
      rw [whole, keeps_append] at h
      exact (keeps_word hw).2.keeps_iff.mp h.2
    have mended := cut_mend h
    rw [hc] at mended
    obtain ⟨⟨p', rest'⟩, hc', rfl⟩ := Fallible.map_eq_ok mended
    rw [mend_cons (head_ne_of_keeps h rfl c rfl), accepted_word_iff hc', accepted_word_iff hc]
    exact ih later
  | stuck c cs cause hb hc =>
    have mended := cut_mend h
    rw [hc] at mended
    rw [mend_cons (head_ne_of_keeps h rfl c rfl)]
    exact iff_of_false (not_accepted hb (Fallible.map_eq_error mended)) (not_accepted hb hc)

/-- A text is accepted just if its replacement characters are taken and it is accepted without
them. -/
theorem accepted_iff_mend {cs : List Char} :
    Accepted cs ↔ between.Keeps cs ∧ Accepted (mend cs) := by
  constructor
  · intro h
    exact ⟨h.keeps, (accepted_mend_iff h.keeps).mpr h⟩
  · rintro ⟨kept, mended⟩
    exact (accepted_mend_iff kept).mp mended

/-- A replacement character changes nothing about a word in front of it that does not take it. -/
theorem Word.before_replacement {rest : List Char} {p : Piece} (h : Word rest p)
    (apart : rest = [] → (after p.span).shelters = false) (back : List Char) :
    Word (rest ++ replacement :: back) p := by
  cases h with
  | mark hk => exact .mark hk
  | minus stop => exact .minus (head_append (by decide) stop)
  | number sign hsign hd inside stop numeral =>
    exact .number sign hsign hd inside (head_append isNumeral_replacement stop) numeral
  | string noQuote => exact .string noQuote
  | @symbol c cs hc inside stop =>
    cases rest with
    | nil =>
      have taken := apart rfl
      change (after (c :: cs)).shelters = false at taken
      rw [(keeps_symbol hc inside).2] at taken
      cases taken
    | cons d rest => exact .symbol hc inside stop

/-- Behind a word that is over, what the lexer is at depends on the later text only. -/
theorem after_append {span rest : List Char} (ended : (after span).Over rest) (some : rest ≠ []) :
    after (span ++ rest) = after rest := by
  obtain ⟨c, cs, rfl⟩ := List.exists_cons_of_ne_nil some
  rw [after, List.foldl_append, List.foldl_cons]
  change cs.foldl next ((after span).next c) = _
  rw [(ended c rfl).1]
  rfl

/-- Where a replacement character is not taken it is refused, at its place. -/
theorem tokens_refused {front : List Char} (h : Accepted front)
    (bare : (after front).shelters = false) (start : Position) (back : List Char) :
    (⟨start, front ++ replacement :: back⟩ : Cursor).tokens =
      .error ⟨.unexpectedCharacter replacement, start.advance front⟩ := by
  obtain ⟨segments, cuts⟩ := accepted_iff.mp h
  clear h
  induction cuts generalizing start with
  | nil => exact Cursor.tokens_cut_error (by decide) (cut_replacement back) start
  | @blank c rest segments hb _ ih =>
    have later : (after rest).shelters = false := by
      rw [after, List.foldl_cons, Mode.next, start_of_isBlank hb] at bare
      exact bare
    rw [List.cons_append, Cursor.tokens_blank hb]
    exact ih later (start.next c)
  | @word p rest segments hw _ ih =>
    have later : (after rest).shelters = false := by
      by_cases none : rest = []
      · rw [none]
        rfl
      · rwa [after_append (keeps_word hw).2 none] at bare
    have apart : rest = [] → (after p.span).shelters = false := by
      rintro rfl
      rwa [List.append_nil] at bare
    have place : (start.advance p.span).advance rest = start.advance (p.span ++ rest) :=
      List.foldl_append.symm
    rw [List.append_assoc, Cursor.tokens_word (hw.before_replacement apart back),
      ih later (start.advance p.span), place]
    rfl

theorem replacement_mem_sourceChars {source : List UInt8}
    (h : ∀ s, source ≠ Text.Utf8.bytes s) : replacement ∈ sourceChars source := by
  have among := Text.Utf8.replacement_mem_decode h
  unfold sourceChars
  split
  · rename_i cs hd
    rw [hd] at among
    exact List.mem_of_ne_of_mem (by decide) among
  · exact among

end Lexer

open Lexer in
/-- Bytes that encode no text show as replacement characters, and these are refused only where no
string or symbol takes them. A source of such bytes is accepted just if every replacement character
stands inside a string or behind the first character of a symbol, and the text without them is
accepted. One that stands elsewhere, behind a text that is accepted, is what the error names, with
its place. -/
theorem tokenize_malformed (source : List UInt8)
    (malformed : ∀ s, source ≠ Text.Utf8.bytes s) :
    replacement ∈ sourceChars source ∧
    ((∃ tokens, tokenize source = .ok tokens) ↔
      (∀ front back, sourceChars source = front ++ replacement :: back →
        (Mode.after front).shelters = true) ∧
      Accepted ((sourceChars source).filter (· ≠ replacement))) ∧
    ∀ front back, sourceChars source = front ++ replacement :: back →
      (Mode.after front).shelters = false → Accepted front →
      tokenize source = .error ⟨.unexpectedCharacter replacement, placeAfter front⟩ := by
  refine ⟨replacement_mem_sourceChars malformed, ?_, fun front back split bare accepted => ?_⟩
  · exact accepted_iff_mend.trans (and_congr_left' Mode.keeps_iff)
  · rw [tokenize, Cursor.ofSource, split, tokens_refused accepted bare, placeAfter_eq_advance]

/-- A name with a byte behind it that starts no character, and the same byte by itself. -/
def strayBytes : List UInt8 := [0x61, 0xFF, 0x20, 0xFF]

theorem ne_bytes_of_decode {source : List UInt8} {s : String}
    (decoded : Text.Utf8.decode source = s.toList) (other : source ≠ Text.Utf8.bytes s) :
    ∀ t, source ≠ Text.Utf8.bytes t := by
  rintro t rfl
  rw [Text.Utf8.decode_bytes] at decoded
  exact other (congrArg Text.Utf8.bytes (String.toList_inj.mp decoded))

open Lexer in
theorem tokenize_malformed_strayBytes :
    (∀ s, strayBytes ≠ Text.Utf8.bytes s) ∧
    tokenize strayBytes = .error ⟨.unexpectedCharacter '\uFFFD', ⟨1, 4⟩⟩ := by
  have malformed : ∀ s, strayBytes ≠ Text.Utf8.bytes s :=
    ne_bytes_of_decode (s := "a\uFFFD \uFFFD") (by decide +kernel) (by decide +kernel)
  have split : sourceChars strayBytes = ['a', '\uFFFD', ' '] ++ replacement :: [] := by
    decide +kernel
  have bare : (Mode.after ['a', '\uFFFD', ' ']).shelters = false := by decide +kernel
  have accepted : Accepted ['a', '\uFFFD', ' '] :=
    ⟨[⟨.symbol, "a\uFFFD", none, ⟨1, 1⟩⟩, ⟨.eof, "", none, ⟨1, 4⟩⟩], by decide +kernel⟩
  exact ⟨malformed, (tokenize_malformed strayBytes malformed).2.2 _ _ split bare accepted⟩

/-- Not all bytes that encode no text are refused: neither behind the first character of a symbol
nor in a string. -/
theorem tokenize_ok_strayByte :
    ((∀ s, [0x61, 0xFF] ≠ Text.Utf8.bytes s) ∧
      tokenize [0x61, 0xFF] = .ok [⟨.symbol, "a\uFFFD", none, ⟨1, 1⟩⟩, ⟨.eof, "", none, ⟨1, 3⟩⟩]) ∧
    (∀ s, [0x22, 0xFF, 0x22] ≠ Text.Utf8.bytes s) ∧
      tokenize [0x22, 0xFF, 0x22] = .ok [⟨.string, "\uFFFD", some (.text "\uFFFD"), ⟨1, 1⟩⟩,
        ⟨.eof, "", none, ⟨1, 4⟩⟩] := by
  refine ⟨⟨?_, by decide +kernel⟩, ?_, by decide +kernel⟩
  · exact ne_bytes_of_decode (s := "a\uFFFD") (by decide +kernel) (by decide +kernel)
  · exact ne_bytes_of_decode (s := "\"\uFFFD\"") (by decide +kernel) (by decide +kernel)

end Lisplet
