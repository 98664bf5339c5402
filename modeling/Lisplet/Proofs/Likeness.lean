import Lisplet.Proofs.RoundTrip

/-! Trees that are alike, and their texts. Being alike is an equivalence, and trees that are alike
are written the same. Trees that were read from sources without strings can be told from what is
written for them: they are alike just if their texts are the same. -/
namespace Lisplet

namespace Tree

theorem alike_comm (a b : Tree) : a.alike b = b.alike a := by
  rw [Bool.eq_iff_iff, alike_iff_bare, alike_iff_bare]
  exact eq_comm

theorem Alike.trans {a b c : Tree} (h : a.Alike b) (h' : b.Alike c) : a.Alike c := by
  unfold Alike at *
  rw [alike_iff_bare] at *
  exact h.trans h'

/-- Trees without a node that cannot be written have a text, and trees like them have the same. -/
theorem Alike.encode {a b : Tree} (h : a.Alike b) (printable : a.hasBlank = false) :
    ∃ text, a.encode = .ok text ∧ b.encode = .ok text := by
  have whole : anyBlank [a] = false :=
    anyBlank_eq_false (List.forall_mem_singleton.mpr printable)
  have written : a.encode = .ok (String.ofList (charsAll [a])) := by
    rw [Tree.encode, encodeAll, whole]
    rfl
  have same : encodeAll [a] = encodeAll [b] := encodeAll_alike (.cons h .nil)
  exact ⟨_, written, same.symm.trans written⟩

/-- Trees of plain words that are written the same are read again from one text, so as trees like
the ones and like the others. -/
theorem alike_of_encodeAll {xs ys : List Tree} (hx : ∀ t ∈ xs, t.Legible)
    (hy : ∀ t ∈ ys, t.Legible) (h : encodeAll xs = encodeAll ys) : List.Forall₂ Alike xs ys := by
  obtain ⟨text, again, written, parsed, alike⟩ := exists_parse_of_legible hx
  obtain ⟨text', again', written', parsed', alike'⟩ := exists_parse_of_legible hy
  have one : text = text' := Except.ok.inj (written.symm.trans (h.trans written'))
  subst one
  have same : again = again' := Except.ok.inj (parsed.symm.trans parsed')
  subst same
  exact alikeAll_trans (alikeAll_symm alike) alike'

/-- The tree was read, among others, from a source without strings. -/
def ReadPlain (t : Tree) : Prop :=
  ∃ source tokens trees, tokenize source = .ok tokens ∧ (∀ u ∈ tokens, u.kind ≠ .string) ∧
    parse source = .ok trees ∧ t ∈ trees

theorem ReadPlain.legible {t : Tree} (h : t.ReadPlain) : t.Legible := by
  obtain ⟨source, tokens, trees, cut, noString, parsed, among⟩ := h
  exact legible_of_parse cut noString parsed t among

/-- Being alike is reflexive, symmetric and transitive, whatever nodes are missing or cannot be
written. Where all can be written, trees that are alike have one text. Of trees that were read from
sources without strings, whichever these were, the texts are the same only if there are as many and
each is like the other. -/
theorem alike_agrees_encode :
    (∀ t : Tree, t.alike t = true) ∧
    (∀ a b : Tree, a.alike b = b.alike a) ∧
    (∀ a b c : Tree, a.alike b = true → b.alike c = true → a.alike c = true) ∧
    (∀ a b : Tree, a.hasBlank = false → a.alike b = true →
      ∃ text, a.encode = .ok text ∧ b.encode = .ok text) ∧
    ∀ xs ys : List Tree, (∀ t ∈ xs, t.ReadPlain) → (∀ t ∈ ys, t.ReadPlain) →
      ∃ text text', encodeAll xs = .ok text ∧ encodeAll ys = .ok text' ∧
        (text = text' ↔ List.Forall₂ Alike xs ys) := by
  refine ⟨alike_refl, alike_comm, fun a b c => Alike.trans, fun a b printable h => ?_, ?_⟩
  · exact Alike.encode h printable
  · intro xs ys hx hy
    have legible : ∀ t ∈ xs, t.Legible := fun t ht => (hx t ht).legible
    have legible' : ∀ t ∈ ys, t.Legible := fun t ht => (hy t ht).legible
    have written := encodeAll_of_legible legible
    have written' := encodeAll_of_legible legible'
    refine ⟨_, _, written, written', fun same => ?_, fun alike => ?_⟩
    · rw [← same] at written'
      exact alike_of_encodeAll legible legible' (written.trans written'.symm)
    · have same := encodeAll_alike alike
      rw [written, written'] at same
      exact Except.ok.inj same

/-- What a source without strings is read as and written as again. -/
theorem exists_readPlain (source : List UInt8) (text : String)
    (words : (tokenize source).toOption.map (·.all (·.kind ≠ .string)) = some true)
    (written : (parse source).toOption.bind (fun ts => (encodeAll ts).toOption) = some text) :
    ∃ trees, parse source = .ok trees ∧ (∀ t ∈ trees, t.ReadPlain) ∧
      encodeAll trees = .ok text := by
  obtain ⟨tokens, cut, all⟩ := Option.map_eq_some_iff.mp words
  obtain ⟨trees, parsed, encoded⟩ := Option.bind_eq_some_iff.mp written
  have noString : ∀ t ∈ tokens, t.kind ≠ .string := by
    simpa using List.all_eq_true.mp all
  have cut := Fallible.eq_ok_of_toOption cut
  have parsed := Fallible.eq_ok_of_toOption parsed
  have encoded := Fallible.eq_ok_of_toOption encoded
  exact ⟨trees, parsed, fun t among => ⟨source, tokens, trees, cut, noString, parsed, among⟩,
    encoded⟩

end Tree

/-- An expression and a number, with no more space than it takes. -/
def tightSource : List UInt8 := Text.Utf8.bytes "(a()-1)2"

/-- The same words on three lines. -/
def looseSource : List UInt8 := Text.Utf8.bytes "( a\n( ) -1\t)\n 2"

theorem Tree.alike_agrees_encode_tightSource :
    ∃ xs ys, parse tightSource = .ok xs ∧ parse looseSource = .ok ys ∧
      (∀ t ∈ xs, t.ReadPlain) ∧ (∀ t ∈ ys, t.ReadPlain) ∧
      encodeAll xs = .ok "(a () -1) 2" ∧ encodeAll ys = .ok "(a () -1) 2" ∧
      List.Forall₂ Alike xs ys := by
  obtain ⟨xs, hx, plain, written⟩ := exists_readPlain tightSource "(a () -1) 2"
    (by decide +kernel) (by decide +kernel)
  obtain ⟨ys, hy, plain', written'⟩ := exists_readPlain looseSource "(a () -1) 2"
    (by decide +kernel) (by decide +kernel)
  obtain ⟨text, text', encoded, encoded', iff⟩ := alike_agrees_encode.2.2.2.2 xs ys plain plain'
  have same : text = text' := by
    rw [written] at encoded
    rw [written'] at encoded'
    exact (Except.ok.inj encoded).symm.trans (Except.ok.inj encoded')
  exact ⟨xs, ys, hx, hy, plain, plain', written, written', iff.mp same⟩

end Lisplet
