import Lisplet.Text.Utf8
import Mathlib.Data.List.Basic

/-! Text and its bytes. What is written as UTF-8 is read as the same characters. Whatever bytes are
read, a character below 0x80 is among them as a byte by itself. Bytes that encode no text are read
with a replacement character among the others. -/
namespace Lisplet.Text.Utf8

theorem first_eq (a : UInt8) (bs : List UInt8) : first a bs =
    if a.toNat < 0x80 then (Char.ofNat a.toNat, 0)
    else if a.toNat < 0xC0 then (replacement, 0)
    else if a.toNat < 0xE0 then ((two? a bs).map (·, 1)).getD (replacement, 0)
    else if a.toNat < 0xF0 then ((three? a bs).map (·, 2)).getD (replacement, 0)
    else if a.toNat < 0xF8 then ((four? a bs).map (·, 3)).getD (replacement, 0)
    else (replacement, 0) := by
  simp only [first, UInt8.lt_iff_toNat_lt]
  rfl

/-! ## Characters that are written and read -/

theorem tail?_ofNat {n : Nat} (h : n < 0x40) : tail? (UInt8.ofNat (n + 0x80)) = some n := by
  have code : (UInt8.ofNat (n + 0x80)).toNat = n + 0x80 := by rw [UInt8.toNat_ofNat']; omega
  have low : (0x80 : UInt8) ≤ UInt8.ofNat (n + 0x80) := by
    rw [UInt8.le_iff_toNat_le, code]
    exact Nat.le_add_left _ _
  have high : UInt8.ofNat (n + 0x80) < 0xC0 := by
    rw [UInt8.lt_iff_toNat_lt, code]
    exact Nat.add_lt_add_right h 0x80
  rw [tail?, if_pos ⟨low, high⟩, code, Nat.add_sub_cancel]

theorem scalar?_toNat {least : Nat} {c : Char} (h : least ≤ c.toNat) :
    scalar? least c.toNat = some c := by
  rw [scalar?, if_pos ⟨h, c.valid⟩, Char.ofNat_toNat]

section
variable {c : Char} (rest : List UInt8)

theorem first_one (h : c.toNat ≤ 0x7F) : first (UInt8.ofNat c.toNat) rest = (c, 0) := by
  have code : (UInt8.ofNat c.toNat).toNat = c.toNat := by rw [UInt8.toNat_ofNat']; omega
  rw [first_eq, code, if_pos (by omega), Char.ofNat_toNat]

theorem first_two (low : 0x7F < c.toNat) (high : c.toNat ≤ 0x7FF) :
    first (UInt8.ofNat (c.toNat / 64 % 32 + 192)) (UInt8.ofNat (c.toNat % 64 + 128) :: rest) =
      (c, 1) := by
  have six : c.toNat % 64 < 0x40 := Nat.mod_lt _ (by decide)
  have code : (UInt8.ofNat (c.toNat / 64 % 32 + 192)).toNat = c.toNat / 64 + 192 := by
    rw [UInt8.toNat_ofNat']
    omega
  have sum : (c.toNat / 64 + 192 - 0xC0) * 0x40 + c.toNat % 64 = c.toNat := by omega
  rw [first_eq, code, if_neg (by omega), if_neg (by omega), if_pos (by omega)]
  simp only [two?, tail?_ofNat six, code, sum, Option.bind_eq_bind, Option.bind_some]
  rw [scalar?_toNat low]
  rfl

theorem first_three (low : 0x7FF < c.toNat) (high : c.toNat ≤ 0xFFFF) :
    first (UInt8.ofNat (c.toNat / 4096 % 16 + 224)) (UInt8.ofNat (c.toNat / 64 % 64 + 128) ::
      UInt8.ofNat (c.toNat % 64 + 128) :: rest) = (c, 2) := by
  have six : c.toNat % 64 < 0x40 := Nat.mod_lt _ (by decide)
  have twelve : c.toNat / 64 % 64 < 0x40 := Nat.mod_lt _ (by decide)
  have code : (UInt8.ofNat (c.toNat / 4096 % 16 + 224)).toNat = c.toNat / 4096 + 224 := by
    rw [UInt8.toNat_ofNat']
    omega
  have sum : ((c.toNat / 4096 + 224 - 0xE0) * 0x40 + c.toNat / 64 % 64) * 0x40 +
      c.toNat % 64 = c.toNat := by omega
  rw [first_eq, code, if_neg (by omega), if_neg (by omega), if_neg (by omega), if_pos (by omega)]
  simp only [three?, tail?_ofNat six, tail?_ofNat twelve, code, sum, Option.bind_eq_bind,
    Option.bind_some]
  rw [scalar?_toNat low]
  rfl

theorem first_four (low : 0xFFFF < c.toNat) :
    first (UInt8.ofNat (c.toNat / 262144 % 8 + 240)) (UInt8.ofNat (c.toNat / 4096 % 64 + 128) ::
      UInt8.ofNat (c.toNat / 64 % 64 + 128) :: UInt8.ofNat (c.toNat % 64 + 128) :: rest) =
      (c, 3) := by
  have high : c.toNat < 0x110000 := by
    rcases c.valid with h | ⟨-, h⟩
    · exact Nat.lt_trans h (by decide)
    · exact h
  have six : c.toNat % 64 < 0x40 := Nat.mod_lt _ (by decide)
  have twelve : c.toNat / 64 % 64 < 0x40 := Nat.mod_lt _ (by decide)
  have eighteen : c.toNat / 4096 % 64 < 0x40 := Nat.mod_lt _ (by decide)
  have code : (UInt8.ofNat (c.toNat / 262144 % 8 + 240)).toNat = c.toNat / 262144 + 240 := by
    rw [UInt8.toNat_ofNat']
    omega
  have sum : (((c.toNat / 262144 + 240 - 0xF0) * 0x40 + c.toNat / 4096 % 64) * 0x40 +
      c.toNat / 64 % 64) * 0x40 + c.toNat % 64 = c.toNat := by omega
  rw [first_eq, code, if_neg (by omega), if_neg (by omega), if_neg (by omega), if_neg (by omega),
    if_pos (by omega)]
  simp only [four?, tail?_ofNat six, tail?_ofNat twelve, tail?_ofNat eighteen, code, sum,
    Option.bind_eq_bind, Option.bind_some]
  rw [scalar?_toNat low]
  rfl

end

/-- The first byte of an encoded character announces the others, and they give its code. -/
theorem first_utf8EncodeChar (c : Char) (rest : List UInt8) :
    ∃ a bs, String.utf8EncodeChar c = a :: bs ∧ first a (bs ++ rest) = (c, bs.length) := by
  by_cases one : c.toNat ≤ 0x7F
  · exact ⟨_, _, if_pos one, first_one rest one⟩
  · by_cases two : c.toNat ≤ 0x7FF
    · exact ⟨_, _, (if_neg one).trans (if_pos two), first_two rest (Nat.lt_of_not_le one) two⟩
    · by_cases three : c.toNat ≤ 0xFFFF
      · exact ⟨_, _, (if_neg one).trans ((if_neg two).trans (if_pos three)),
          first_three rest (Nat.lt_of_not_le two) three⟩
      · exact ⟨_, _, (if_neg one).trans ((if_neg two).trans (if_neg three)),
          first_four rest (Nat.lt_of_not_le three)⟩

theorem decodeAfter_length_append (bs rest : List UInt8) :
    decodeAfter bs.length (bs ++ rest) = decode rest := by
  induction bs with
  | nil => rfl
  | cons b bs ih => exact ih

theorem decode_flatMap_utf8EncodeChar (cs : List Char) :
    decode (cs.flatMap String.utf8EncodeChar) = cs := by
  induction cs with
  | nil => rfl
  | cons c cs ih =>
    obtain ⟨a, bs, encoded, read⟩ := first_utf8EncodeChar c (cs.flatMap String.utf8EncodeChar)
    rw [List.flatMap_cons, encoded, List.cons_append, decode, decodeAfter, read]
    dsimp only
    rw [decodeAfter_length_append, ih]

theorem toList_loop (bytes : ByteArray) (i : Nat) (front : List UInt8) :
    ByteArray.toList.loop bytes i front = front.reverse ++ bytes.data.toList.drop i := by
  fun_induction ByteArray.toList.loop bytes i front with
  | case1 i front h ih =>
    have inside : i < bytes.data.toList.length := by simpa using h
    rw [ih, List.drop_eq_getElem_cons inside]
    simp [ByteArray.get!, h]
  | case2 i front h =>
    have past : bytes.data.toList.drop i = [] :=
      List.drop_eq_nil_of_le (by simpa using Nat.le_of_not_lt h)
    rw [past, List.append_nil]

theorem bytes_eq_flatMap (s : String) : bytes s = s.toList.flatMap String.utf8EncodeChar := by
  have encoded : s.toByteArray = s.toList.utf8Encode := by
    rw [← String.toByteArray_ofList, String.ofList_toList]
  rw [bytes, String.toUTF8_eq_toByteArray, encoded, ByteArray.toList, toList_loop]
  exact List.toList_data_toByteArray

/-- Text that is written is read as it was. -/
theorem decode_bytes (s : String) : decode (bytes s) = s.toList := by
  rw [bytes_eq_flatMap, decode_flatMap_utf8EncodeChar]

/-! ## Characters that are one byte -/

theorem scalar?_eq_some {least n : Nat} {c : Char} (h : scalar? least n = some c) :
    least ≤ n ∧ c.toNat = n := by
  unfold scalar? at h
  split at h
  · rename_i bounds
    cases h
    rw [Char.ofNat, dif_pos bounds.2]
    exact ⟨bounds.1, rfl⟩
  · cases h

theorem le_of_scalar? {least n : Nat} {c : Char} (h : scalar? least n = some c) :
    least ≤ c.toNat := by
  obtain ⟨bound, code⟩ := scalar?_eq_some h
  rwa [code]

theorem le_of_two? {a : UInt8} {bs : List UInt8} {c : Char} (h : two? a bs = some c) :
    0x80 ≤ c.toNat := by
  unfold two? at h
  split at h
  · obtain ⟨y, -, h⟩ := Option.bind_eq_some_iff.mp h
    exact le_of_scalar? h
  · cases h

theorem le_of_three? {a : UInt8} {bs : List UInt8} {c : Char} (h : three? a bs = some c) :
    0x80 ≤ c.toNat := by
  unfold three? at h
  split at h
  · obtain ⟨y, -, h⟩ := Option.bind_eq_some_iff.mp h
    obtain ⟨z, -, h⟩ := Option.bind_eq_some_iff.mp h
    exact Nat.le_trans (by decide) (le_of_scalar? h)
  · cases h

theorem le_of_four? {a : UInt8} {bs : List UInt8} {c : Char} (h : four? a bs = some c) :
    0x80 ≤ c.toNat := by
  unfold four? at h
  split at h
  · obtain ⟨x, -, h⟩ := Option.bind_eq_some_iff.mp h
    obtain ⟨y, -, h⟩ := Option.bind_eq_some_iff.mp h
    obtain ⟨z, -, h⟩ := Option.bind_eq_some_iff.mp h
    exact Nat.le_trans (by decide) (le_of_scalar? h)
  · cases h

/-- Longer encodings, and bytes outside of any, give no character below 0x80. -/
theorem toNat_first {a : UInt8} {bs : List UInt8} (h : (first a bs).1.toNat < 0x80) :
    (first a bs).1.toNat = a.toNat := by
  have stray : ¬replacement.toNat < 0x80 := by decide
  have none (k : Nat) {x : Option Char} (least : ∀ c, x = some c → 0x80 ≤ c.toNat) :
      ¬((x.map (·, k)).getD (replacement, 0)).1.toNat < 0x80 := by
    cases x with
    | none => exact stray
    | some c => exact Nat.not_lt.mpr (least c rfl)
  rw [first_eq] at h ⊢
  split at h
  · rename_i low
    rw [if_pos low, Char.ofNat, dif_pos (Or.inl (Nat.lt_trans low (by decide)))]
    rfl
  · split at h
    · exact absurd h stray
    · split at h
      · exact absurd h (none 1 fun c => le_of_two?)
      · split at h
        · exact absurd h (none 2 fun c => le_of_three?)
        · split at h
          · exact absurd h (none 3 fun c => le_of_four?)
          · exact absurd h stray

theorem mem_of_mem_decodeAfter {n : Nat} {bs : List UInt8} {c : Char} (h : c ∈ decodeAfter n bs)
    (low : c.toNat < 0x80) : UInt8.ofNat c.toNat ∈ bs := by
  induction bs generalizing n with
  | nil =>
    rw [decodeAfter] at h
    cases h
  | cons b bs ih =>
    cases n with
    | succ n => exact .tail _ (ih h)
    | zero =>
      rw [decodeAfter] at h
      rcases List.mem_cons.mp h with hc | h
      · have code : c.toNat = b.toNat := by
          rw [hc] at low ⊢
          exact toNat_first low
        rw [code, UInt8.ofNat_toNat]
        exact List.mem_cons_self
      · exact .tail _ (ih h)

theorem mem_of_mem_decode {bs : List UInt8} {c : Char} (h : c ∈ decode bs)
    (low : c.toNat < 0x80) : UInt8.ofNat c.toNat ∈ bs :=
  mem_of_mem_decodeAfter h low

/-! ## Bytes that are text -/

theorem tail?_eq_some {b : UInt8} {n : Nat} (h : tail? b = some n) :
    b.toNat = n + 0x80 ∧ n < 0x40 := by
  unfold tail? at h
  split at h
  · rename_i bounds
    have low : 0x80 ≤ b.toNat := UInt8.le_iff_toNat_le.mp bounds.1
    have high : b.toNat < 0xC0 := UInt8.lt_iff_toNat_lt.mp bounds.2
    have six := Option.some.inj h
    omega
  · cases h

theorem eq_ofNat {b : UInt8} {n : Nat} (h : b.toNat = n) : b = UInt8.ofNat n := by
  rw [← h, UInt8.ofNat_toNat]

section
variable {a : UInt8} {bs : List UInt8} {c : Char}

theorem encode_two (low : 0xC0 ≤ a.toNat) (high : a.toNat < 0xE0) (h : two? a bs = some c) :
    String.utf8EncodeChar c = a :: bs.take 1 := by
  unfold two? at h
  split at h
  · rename_i b _
    obtain ⟨y, hy, h⟩ := Option.bind_eq_some_iff.mp h
    obtain ⟨least, code⟩ := scalar?_eq_some h
    obtain ⟨byte, six⟩ := tail?_eq_some hy
    have above : ¬c.toNat ≤ 0x7F := by omega
    have below : c.toNat ≤ 0x7FF := by omega
    have lead : a = .ofNat (c.toNat / 64 % 32 + 192) := eq_ofNat (by omega)
    have last : b = .ofNat (c.toNat % 64 + 128) := eq_ofNat (by omega)
    rw [lead, last]
    exact (if_neg above).trans (if_pos below)
  · cases h

theorem encode_three (low : 0xE0 ≤ a.toNat) (high : a.toNat < 0xF0) (h : three? a bs = some c) :
    String.utf8EncodeChar c = a :: bs.take 2 := by
  unfold three? at h
  split at h
  · rename_i b b' _
    obtain ⟨y, hy, h⟩ := Option.bind_eq_some_iff.mp h
    obtain ⟨z, hz, h⟩ := Option.bind_eq_some_iff.mp h
    obtain ⟨least, code⟩ := scalar?_eq_some h
    obtain ⟨byte, six⟩ := tail?_eq_some hy
    obtain ⟨byte', six'⟩ := tail?_eq_some hz
    have above : ¬c.toNat ≤ 0x7F := by omega
    have above' : ¬c.toNat ≤ 0x7FF := by omega
    have below : c.toNat ≤ 0xFFFF := by omega
    have lead : a = .ofNat (c.toNat / 4096 % 16 + 224) := eq_ofNat (by omega)
    have second : b = .ofNat (c.toNat / 64 % 64 + 128) := eq_ofNat (by omega)
    have last : b' = .ofNat (c.toNat % 64 + 128) := eq_ofNat (by omega)
    rw [lead, second, last]
    exact (if_neg above).trans ((if_neg above').trans (if_pos below))
  · cases h

theorem encode_four (low : 0xF0 ≤ a.toNat) (high : a.toNat < 0xF8) (h : four? a bs = some c) :
    String.utf8EncodeChar c = a :: bs.take 3 := by
  unfold four? at h
  split at h
  · rename_i b b' b'' _
    obtain ⟨x, hx, h⟩ := Option.bind_eq_some_iff.mp h
    obtain ⟨y, hy, h⟩ := Option.bind_eq_some_iff.mp h
    obtain ⟨z, hz, h⟩ := Option.bind_eq_some_iff.mp h
    obtain ⟨least, code⟩ := scalar?_eq_some h
    obtain ⟨byte, six⟩ := tail?_eq_some hx
    obtain ⟨byte', six'⟩ := tail?_eq_some hy
    obtain ⟨byte'', six''⟩ := tail?_eq_some hz
    have above : ¬c.toNat ≤ 0x7F := by omega
    have above' : ¬c.toNat ≤ 0x7FF := by omega
    have above'' : ¬c.toNat ≤ 0xFFFF := by omega
    have lead : a = .ofNat (c.toNat / 262144 % 8 + 240) := eq_ofNat (by omega)
    have second : b = .ofNat (c.toNat / 4096 % 64 + 128) := eq_ofNat (by omega)
    have third : b' = .ofNat (c.toNat / 64 % 64 + 128) := eq_ofNat (by omega)
    have last : b'' = .ofNat (c.toNat % 64 + 128) := eq_ofNat (by omega)
    rw [lead, second, third, last]
    exact (if_neg above).trans ((if_neg above').trans (if_neg above''))
  · cases h

/-- A character that is read stands there in its one encoding, unless it is the replacement. -/
theorem encode_first (h : (first a bs).1 ≠ replacement) :
    String.utf8EncodeChar (first a bs).1 = a :: bs.take (first a bs).2 := by
  have found (k : Nat) {x : Option Char} (encoded : ∀ c, x = some c →
      String.utf8EncodeChar c = a :: bs.take k) :
      ((x.map (·, k)).getD (replacement, 0)).1 ≠ replacement →
      String.utf8EncodeChar ((x.map (·, k)).getD (replacement, 0)).1 =
        a :: bs.take ((x.map (·, k)).getD (replacement, 0)).2 := by
    cases x with
    | none => exact fun stray => absurd rfl stray
    | some c => exact fun _ => encoded c rfl
  rw [first_eq] at h ⊢
  by_cases one : a.toNat < 0x80
  · have code : (Char.ofNat a.toNat).toNat = a.toNat := by
      rw [Char.ofNat, dif_pos (Or.inl (Nat.lt_trans one (by decide)))]
      rfl
    have ascii : (Char.ofNat a.toNat).toNat ≤ 0x7F := by omega
    have encoded : String.utf8EncodeChar (Char.ofNat a.toNat) =
        [UInt8.ofNat (Char.ofNat a.toNat).toNat] := if_pos ascii
    rw [if_pos one, encoded, code, UInt8.ofNat_toNat]
    rfl
  · rw [if_neg one] at h ⊢
    by_cases stray : a.toNat < 0xC0
    · rw [if_pos stray] at h
      exact absurd rfl h
    · rw [if_neg stray] at h ⊢
      by_cases two : a.toNat < 0xE0
      · rw [if_pos two] at h ⊢
        exact found 1 (fun c => encode_two (by omega) two) h
      · rw [if_neg two] at h ⊢
        by_cases three : a.toNat < 0xF0
        · rw [if_pos three] at h ⊢
          exact found 2 (fun c => encode_three (by omega) three) h
        · rw [if_neg three] at h ⊢
          by_cases four : a.toNat < 0xF8
          · rw [if_pos four] at h ⊢
            exact found 3 (fun c => encode_four (by omega) four) h
          · rw [if_neg four] at h
            exact absurd rfl h

end

theorem flatMap_decodeAfter {n : Nat} {bs : List UInt8} (h : replacement ∉ decodeAfter n bs) :
    (decodeAfter n bs).flatMap String.utf8EncodeChar = bs.drop n := by
  induction bs generalizing n with
  | nil => rw [decodeAfter, List.drop_nil, List.flatMap_nil]
  | cons b bs ih =>
    cases n with
    | succ n => exact ih h
    | zero =>
      rw [decodeAfter] at h ⊢
      dsimp only at h ⊢
      rw [List.mem_cons, not_or] at h
      rw [List.flatMap_cons, encode_first (Ne.symm h.1), ih h.2, List.cons_append,
        List.take_append_drop]
      rfl

/-- Bytes that are not the encoding of any text show: a replacement character is read. -/
theorem replacement_mem_decode {bs : List UInt8} (h : ∀ s, bs ≠ bytes s) :
    replacement ∈ decode bs := by
  by_contra none
  apply h (String.ofList (decode bs))
  rw [bytes_eq_flatMap, String.toList_ofList, decode, flatMap_decodeAfter none]
  rfl

end Lisplet.Text.Utf8
