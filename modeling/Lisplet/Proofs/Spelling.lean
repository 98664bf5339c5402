import Lisplet.Proofs.Arithmetic
import Lisplet.Proofs.RoundTrip
import Lisplet.Proofs.Soundness

/-! How integers are spelled. The text of an integer is one word of a source, and it stands for the
integer again unless it is bound to something else. What a text stands for that is bound nowhere is
told from its characters: an integer if it is a sign or none and digits, and small enough; else an
operator if it names one; else the text itself. -/
namespace Lisplet

variable {ν : Type}

namespace Decimal

theorem isDigit_of_mem_toDigits {n : Nat} {c : Char} (h : c ∈ Nat.toDigits 10 n) :
    isDigit c = true := by
  have digit := Nat.isDigit_of_mem_toDigits (by decide) (by decide) h
  simpa [isDigit, Char.isDigit, UInt32.le_iff_toNat_le, Char.le_def] using digit

/-- The digits that are written for a number are read as the number. -/
theorem digitsValue_toDigits (n : Nat) : digitsValue (Nat.toDigits 10 n) = n :=
  Nat.ofDigitChars_ten_toDigits

theorem signedValue_of_isDigit {digits : List Char} (h : ∀ c ∈ digits, isDigit c = true) :
    signedValue digits = (digitsValue digits : Nat) := by
  rw [digitsValue_eq]
  unfold signedValue
  split
  · exact absurd (h '+' List.mem_cons_self) (by decide)
  · exact absurd (h '-' List.mem_cons_self) (by decide)
  · rfl

/-- Digits of a number below the threshold are a numeral. -/
theorem numeral_toDigits {n : Nat} (h : n < Binary64.overflow) : Numeral (Nat.toDigits 10 n) := by
  refine ⟨Nat.toDigits 10 n, [], ?_, .inl ⟨rfl, rfl⟩, ?_⟩
  · rw [List.append_nil]
    exact fun c hc => isDigit_of_mem_toDigits hc
  · rw [← below_overflow_iff, List.append_nil, digitsValue_toDigits]
    simpa using h

end Decimal

/-! ## The text of an integer -/

/-- A minus sign in front of negative integers, and the digits of the magnitude. -/
theorem toList_intText (n : Int32) : ∃ sign,
    (intText n).toList = sign ++ Nat.toDigits 10 n.toInt.natAbs ∧
    (sign = [] ∧ n.toInt = n.toInt.natAbs ∨ sign = ['-'] ∧ n.toInt = -n.toInt.natAbs) := by
  rw [intText, Int.toString_eq_repr, Int.repr_eq_if]
  split
  · rename_i nonneg
    have magnitude : n.toInt.toNat = n.toInt.natAbs := by omega
    refine ⟨[], ?_, .inl ⟨rfl, by omega⟩⟩
    rw [Nat.toList_repr, magnitude, List.nil_append]
  · rename_i negative
    have magnitude : (-n.toInt).toNat = n.toInt.natAbs := by omega
    refine ⟨['-'], ?_, .inr ⟨rfl, by omega⟩⟩
    rw [String.toList_append, Nat.toList_repr, magnitude]
    rfl

/-- The text of an integer is read as that integer. -/
theorem integer?_intText (n : Int32) : integer? (intText n) = some n := by
  rw [integer?_eq_some_iff]
  obtain ⟨sign, text, which⟩ := toList_intText n
  have digits : ∀ c ∈ Nat.toDigits 10 n.toInt.natAbs, Decimal.isDigit c = true :=
    fun c hc => Decimal.isDigit_of_mem_toDigits hc
  rw [text]
  rcases which with ⟨rfl, value⟩ | ⟨rfl, value⟩
  · refine ⟨⟨_, Nat.toDigits_ne_nil, digits, .inl rfl⟩, ?_⟩
    rw [List.nil_append, Decimal.signedValue_of_isDigit digits, Decimal.digitsValue_toDigits,
      ← value]
  · refine ⟨⟨_, Nat.toDigits_ne_nil, digits, .inr (.inr rfl)⟩, ?_⟩
    rw [List.singleton_append, Decimal.signedValue, ← Decimal.digitsValue_eq,
      Decimal.digitsValue_toDigits, ← value]

theorem natAbs_toInt_lt (n : Int32) : n.toInt.natAbs < Decimal.Binary64.overflow := by
  have low := n.minValue_le_toInt
  have high := n.toInt_le
  have bound : 2 ^ 31 < Decimal.Binary64.overflow := by decide +kernel
  have lowest : Int32.minValue.toInt = -2 ^ 31 := by decide
  have highest : Int32.maxValue.toInt = 2 ^ 31 - 1 := by decide
  omega

/-- The lexer takes the text of an integer for one number. -/
theorem plainWord_intText (n : Int32) : PlainWord (intText n) := by
  obtain ⟨sign, text, which⟩ := toList_intText n
  obtain ⟨d, ds, digits⟩ := List.exists_cons_of_ne_nil
    (Nat.toDigits_ne_nil : Nat.toDigits 10 n.toInt.natAbs ≠ [])
  have each : ∀ c ∈ d :: ds, Decimal.isDigit c = true := by
    rw [← digits]
    exact fun c hc => Decimal.isDigit_of_mem_toDigits hc
  have numeral := Decimal.numeral_toDigits (natAbs_toInt_lt n)
  rw [digits] at numeral text
  obtain ⟨first, later⟩ := List.forall_mem_cons.mp each
  have signed : sign = [] ∨ sign = ['-'] := which.imp And.left And.left
  have word : Lexer.Word [] (.plain .number (sign ++ d :: ds) _) :=
    .number sign signed first (fun c hc => Lexer.isNumeral_of_isDigit (later c hc)) nofun numeral
  have plain := Lexer.plainWord_of_word word (.inl rfl)
  change PlainWord (String.ofList (sign ++ d :: ds)) at plain
  rwa [← text, String.ofList_toList] at plain

theorem Tree.Alike.atom {t : Tree} {token : Option Token} {text : String}
    (h : t.Alike (.atom token text)) : ∃ own, t = .atom own text := by
  cases t with
  | atom own text' =>
    have same : text' = text := of_decide_eq_true h
    exact ⟨own, by rw [same]⟩
  | absent | blank | list => cases h

/-- A source that is one plain word is read as one atom. -/
theorem parse_of_plainWord {text : String} (h : PlainWord text) :
    ∃ token, parse (Text.Utf8.bytes text) = .ok [.atom token text] := by
  have legible : ∀ t ∈ [Tree.atom none text], t.Legible := List.forall_mem_singleton.mpr (.atom h)
  obtain ⟨written, again, encoded, parsed, alike⟩ := exists_parse_of_legible legible
  have own : written = text := by
    rw [Tree.encodeAll_of_legible legible] at encoded
    rw [← Except.ok.inj encoded, Tree.charsAll, Tree.chars, String.ofList_toList]
  subst own
  cases alike with
  | cons head tail =>
    cases tail
    obtain ⟨token, rfl⟩ := head.atom
    exact ⟨token, parsed⟩

/-! ## What a text stands for -/

theorem effectiveLimit_pos (limit : Int) : 0 < effectiveLimit limit := by
  unfold effectiveLimit
  split
  · decide
  · omega

theorem run_unbound {view : ν → Form ν} {node : ν} {text : String} {st : Store ν}
    {scope : Option ScopeId} (ha : (view node).shape = .atom text)
    (unbound : st.lookup scope text = none) (limit : Int) :
    run view limit scope node st = (.ok (.ofText text), ⟨st, #[]⟩) := by
  obtain ⟨depth, enough⟩ := Nat.exists_eq_succ_of_ne_zero (effectiveLimit_pos limit).ne'
  rw [run, enough]
  exact Eval.exec_unbound _ depth ha unbound

theorem Value.ofText_eq_ofInt_iff {text : String} {n : Int32} :
    (Value.ofText text : Value ν) = .ofInt n ↔ integer? text = some n := by
  unfold Value.ofText
  split
  · rename_i m _ integer
    rw [integer]
    constructor
    · rintro ⟨⟩
      rfl
    · rintro ⟨⟩
      rfl
  · rename_i integer _
    rw [integer]
    exact ⟨nofun, nofun⟩
  · rename_i integer _
    rw [integer]
    exact ⟨nofun, nofun⟩

/-- Texts of numbers that 32 bits do not hold, and of what is no number, are no integers. -/
theorem integer?_eq_none {text : String}
    (h : ¬(Decimal.IsInteger text.toList ∧ -2 ^ 31 ≤ Decimal.signedValue text.toList ∧
      Decimal.signedValue text.toList ≤ 2 ^ 31 - 1)) : integer? text = none := by
  cases integer : integer? text with
  | none => rfl
  | some n =>
    obtain ⟨spelled, value⟩ := integer?_eq_some_iff.mp integer
    exact absurd ⟨spelled, value ▸ n.minValue_le_toInt, value ▸ n.toInt_le⟩ h

theorem Value.ofText_of_integer?_eq_none {text : String} (h : integer? text = none) :
    (Value.ofText text : Value ν) =
      if text ∈ Operator.names then .ofOperator text else .ofString text := by
  unfold Value.ofText
  rw [h]
  cases known : Operator.ofName? text with
  | some op =>
    have named : text ∈ Operator.names := Operator.mem_names_iff.mpr (by rw [known]; rfl)
    rw [if_pos named]
  | none =>
    have unnamed : text ∉ Operator.names := fun hm => by
      have some := Operator.mem_names_iff.mp hm
      rw [known] at some
      cases some
    rw [if_neg unnamed]

/-- The text of an integer, unless it is bound, evaluates to the integer and to nothing else. An
atom whose text is bound nowhere has a value whatever the limit, and nothing is changed: an integer
just if the text spells it with a sign or none and digits; and if it spells none that 32 bits hold,
the operator that it names, or else the text as it is. -/
theorem eval_spelled :
    (∀ (i : Interpreter) (n : Int32), ∃ text, (Value.ofInt n : Value Tree).render? = some text ∧
      (i.store.lookup (some i.root) text = none →
        i.evalSource (Text.Utf8.bytes text) = .ok ⟨[.ofInt n], none, [], i⟩)) ∧
    ∀ (ν : Type) (view : ν → Form ν) (limit : Int) (scope : Option ScopeId) (st : Store ν)
      (node : ν) (text : String), (view node).shape = .atom text →
      st.lookup scope text = none →
      ∃ v, run view limit scope node st = (.ok v, ⟨st, #[]⟩) ∧
        (∀ n : Int32, v = .ofInt n ↔
          Decimal.IsInteger text.toList ∧ Decimal.signedValue text.toList = n.toInt) ∧
        (¬(Decimal.IsInteger text.toList ∧ -2 ^ 31 ≤ Decimal.signedValue text.toList ∧
            Decimal.signedValue text.toList ≤ 2 ^ 31 - 1) →
          v = if text ∈ Operator.names then .ofOperator text else .ofString text) := by
  constructor
  · intro i n
    refine ⟨intText n, rfl, fun unbound => ?_⟩
    obtain ⟨token, parsed⟩ := parse_of_plainWord (plainWord_intText n)
    have value : (Value.ofText (intText n) : Value Tree) = .ofInt n :=
      Value.ofText_eq_ofInt_iff.mpr (integer?_intText n)
    have atom : (Tree.atom token (intText n)).form.shape = .atom (intText n) := rfl
    have once := run_unbound atom unbound i.limit
    rw [value] at once
    have report : i.evalAll [.atom token (intText n)] = ⟨[.ofInt n], none, [], i⟩ := by
      rw [Interpreter.evalAll, Interpreter.evalTree, once]
      rfl
    rw [Interpreter.evalSource, parsed, ← report]
    rfl
  · intro ν view limit scope st node text ha unbound
    refine ⟨.ofText text, run_unbound ha unbound limit, fun n => ?_, fun other => ?_⟩
    · rw [Value.ofText_eq_ofInt_iff, integer?_eq_some_iff]
    · exact Value.ofText_of_integer?_eq_none (integer?_eq_none other)

/-- The least integer where nothing is bound, a number with a sign and zeros in front, and the texts
next to the integers: one above the greatest, and an operator. -/
theorem eval_spelled_extremes :
    (Interpreter.new 1).evalSource (Text.Utf8.bytes "-2147483648") =
      .ok ⟨[.ofInt Int32.minValue], none, [], .new 1⟩ ∧
    run Tree.form 1 none (.atom none "+007") .empty = (.ok (.ofInt 7), ⟨.empty, #[]⟩) ∧
    run Tree.form 1 none (.atom none "2147483648") .empty =
      (.ok (.ofString "2147483648"), ⟨.empty, #[]⟩) ∧
    run Tree.form 1 none (.atom none "-") .empty = (.ok (.ofOperator "-"), ⟨.empty, #[]⟩) := by
  obtain ⟨whole, each⟩ := eval_spelled
  have free (text : String) : (Interpreter.new 1).store.lookup (some 0) text = none := by
    change (Interpreter.new 1).store.lookupFrom text 0 = none
    rw [Store.lookupFrom]
    rfl
  refine ⟨?_, ?_, ?_, ?_⟩
  · obtain ⟨text, own, evaluated⟩ := whole (.new 1) Int32.minValue
    have spelled : text = "-2147483648" := (Option.some.inj own).symm.trans (by decide +kernel)
    rw [← spelled]
    exact evaluated (free text)
  · obtain ⟨v, ends, integer, -⟩ := each Tree Tree.form 1 none .empty (.atom none "+007") _ rfl rfl
    have spelled : integer? "+007" = some 7 := by decide
    rw [ends, (integer 7).mpr (integer?_eq_some_iff.mp spelled)]
  · obtain ⟨v, ends, -, other⟩ :=
      each Tree Tree.form 1 none .empty (.atom none "2147483648") _ rfl rfl
    have large : 2 ^ 31 - 1 < Decimal.signedValue "2147483648".toList := by decide +kernel
    rw [ends, other fun small => absurd small.2.2 (Int.not_le.mpr large), if_neg (by decide)]
  · obtain ⟨v, ends, -, other⟩ := each Tree Tree.form 1 none .empty (.atom none "-") _ rfl rfl
    have noDigits : ¬Decimal.IsInteger "-".toList := by
      intro spelled
      exact ((Decimal.isInteger_cons (.inr rfl)).mp spelled).1 rfl
    rw [ends, other fun spelled => absurd spelled.1 noDigits, if_pos (by decide)]

end Lisplet
