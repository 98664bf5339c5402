import Lisplet.Proofs.Alike
import Lisplet.Proofs.Soundness

/-! Layout does not matter. Trees that differ in their tokens only, so in places, in spacing or in
how an atom was written, evaluate to the same: what shows of the difference is the place that an
error ends with. -/
namespace Lisplet

namespace EvalError

/-- The end of a message, which tells the place. -/
def place (e : EvalError) : String :=
  if 0 < e.position.line then " at " ++ e.position.text else ""

theorem message_eq (e : EvalError) : e.message = e.cause.text ++ e.place := by
  unfold message place
  split
  · rw [String.append_assoc]
  · rw [String.append_empty]

end EvalError

/-- Evaluation depends on trees only up to their tokens, and on stores only up to those of function
bodies. Two runs end alike: with values that are alike and print the same, with one error whose
messages differ at most in the place at their end, or with one fault. A fault is out of the question
where the tree is whole and the scope leads to proper values. The stores at the end are alike. -/
theorem run_alike (a b : Tree) (st st' : Store Tree) (h : a.Alike b) (hst : st.Alike st')
    (scope : Option ScopeId) (limit : Int) :
    let r := run Tree.form limit scope a st
    let r' := run Tree.form limit scope b st'
    ((∃ v w, r.1 = .ok v ∧ r'.1 = .ok w ∧ v.Alike w ∧ v.kind = w.kind ∧
          v.render? = w.render?) ∨
      (∃ e f text, r.1 = .error (.error e) ∧ r'.1 = .error (.error f) ∧ e.cause = f.cause ∧
          e.message = text ++ e.place ∧ f.message = text ++ f.place) ∨
      ∃ f, r.1 = .error (.fault f) ∧ r'.1 = .error (.fault f)) ∧
    (∀ root, scope = some root → a.Whole → st.Proper root → ∀ f, r.1 ≠ .error (.fault f)) ∧
    r.2.store.Alike r'.2.store := by
  have ends : Eval.Matches Value.Alike (run Tree.form limit scope a st)
      (run Tree.form limit scope b st') :=
    Eval.eval_agree _ _ scope h ⟨st, #[]⟩ ⟨st', #[]⟩ hst
  have sound : ∀ root, scope = some root → a.Whole → st.Proper root →
      ∀ f, (run Tree.form limit scope a st).1 ≠ .error (.fault f) := by
    rintro root rfl whole proper
    exact proper.run limit whole
  generalize run Tree.form limit scope a st = r at ends sound ⊢
  generalize run Tree.form limit scope b st' = r' at ends ⊢
  cases ends with
  | @ok v w _ _ hv stores =>
    exact ⟨.inl ⟨v, w, rfl, rfl, hv, hv.kind, hv.render?⟩, sound, stores⟩
  | error reason stores =>
    refine ⟨.inr ?_, sound, stores⟩
    cases reason with
    | fault f => exact .inr ⟨f, rfl, rfl⟩
    | @error e f same =>
      refine .inl ⟨e, f, e.cause.text, rfl, rfl, same, e.message_eq, ?_⟩
      rw [same]
      exact f.message_eq

/-- The call `(f 1)` on a line, with the operand written as a token of the kind. -/
def Tree.callOn (line : Int) (kind : Token.Kind) : Tree :=
  .list (some ⟨.openParen, "(", none, ⟨line, 1⟩⟩)
    [.atom (some ⟨.symbol, "f", none, ⟨line, 2⟩⟩) "f",
      .atom (some ⟨kind, "1", none, ⟨line, 4⟩⟩) "1"]

/-- A function that calls its argument, defined on a line. -/
def Store.callerOn (line : Int) : Store Tree :=
  ⟨#[⟨"root", none, [("f", .ofClosure ⟨"f", ["x"],
    .list (some ⟨.openParen, "(", none, ⟨line, 1⟩⟩) [.atom none "x"], some 0⟩)]⟩]⟩

theorem run_alike_callOn :
    (Tree.callOn 3 .string).Alike (.callOn 9 .number) ∧
    (Store.callerOn 2).Alike (.callerOn 7) ∧
    ∃ e f text,
      (run Tree.form 10 (some 0) (.callOn 3 .string) (.callerOn 2)).1 = .error (.error e) ∧
      (run Tree.form 10 (some 0) (.callOn 9 .number) (.callerOn 7)).1 = .error (.error f) ∧
      e.cause = f.cause ∧ e.message = text ++ e.place ∧ f.message = text ++ f.place ∧
      e.place = " at 2:1" ∧ f.place = " at 7:1" := by
  have trees : (Tree.callOn 3 .string).Alike (.callOn 9 .number) := rfl
  have stores : (Store.callerOn 2).Alike (.callerOn 7) := by
    refine ⟨rfl, fun id => ?_⟩
    match id with
    | 0 => exact .some ⟨rfl, rfl, .cons ⟨rfl, rfl, .closure ⟨rfl, rfl, rfl, rfl⟩⟩ .nil⟩
    | _ + 1 => exact .none
  have first : (run Tree.form 10 (some 0) (.callOn 3 .string) (.callerOn 2)).1 =
      .error (.error ⟨.notCallable .int "1", ⟨2, 1⟩⟩) := by
    with_unfolding_all rfl
  have second : (run Tree.form 10 (some 0) (.callOn 9 .number) (.callerOn 7)).1 =
      .error (.error ⟨.notCallable .int "1", ⟨7, 1⟩⟩) := by
    with_unfolding_all rfl
  refine ⟨trees, stores, ?_⟩
  obtain ⟨ends, -⟩ := run_alike _ _ _ _ trees stores (some 0) 10
  rw [first, second] at ends ⊢
  rcases ends with ⟨_, _, value, -⟩ | ⟨e, f, text, he, hf, same⟩ | ⟨_, fault, -⟩
  · cases value
  · cases he
    cases hf
    exact ⟨_, _, text, rfl, rfl, same.1, same.2.1, same.2.2, by decide +kernel, by decide +kernel⟩
  · cases fault

end Lisplet
