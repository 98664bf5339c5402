import Lisplet.Proofs.Arithmetic
import Lisplet.Proofs.History

/-! Division. A number divided by several, one after the other, is divided by their product, though
each quotient is cut off towards zero. The one quotient that 32 bits do not hold wraps around, and a
zero among the divisors ends the evaluation where it is come upon. -/
namespace Lisplet

variable {ν : Type}

/-! ## Quotients -/

/-- Cutting off twice is cutting off once. -/
theorem tdiv_tdiv (a b c : Int) : (a.tdiv b).tdiv c = a.tdiv (b * c) := by
  obtain ⟨a, rfl | rfl⟩ := Int.eq_nat_or_neg a <;> obtain ⟨b, rfl | rfl⟩ := Int.eq_nat_or_neg b <;>
    obtain ⟨c, rfl | rfl⟩ := Int.eq_nat_or_neg c <;>
    simp only [Int.neg_tdiv, Int.tdiv_neg, Int.neg_mul, Int.mul_neg, Int.neg_neg,
      ← Int.ofNat_tdiv, ← Int.natCast_mul, Nat.div_div_eq_div_mul]

/-- One step of a division. The least integer has no negative of 32 bits and stays as it is. -/
def quotient (a b : Int) : Int := if a = -2 ^ 31 ∧ b = -1 then -2 ^ 31 else a.tdiv b

/-- In dividing `a` by one number after the other there is a step that divides the least integer
by minus one. -/
def Wraps : Int → List Int → Prop
  | _, [] => False
  | a, b :: bs => (a = -2 ^ 31 ∧ b = -1) ∨ Wraps (quotient a b) bs

theorem toInt_div (a b : Int32) : (a / b).toInt = quotient a.toInt b.toInt := by
  unfold quotient
  split
  · rename_i least
    obtain rfl : a = Int32.minValue := Int32.toInt_inj.mp least.1
    obtain rfl : b = -1 := Int32.toInt_inj.mp least.2
    rfl
  · rename_i fits
    by_cases ha : a = Int32.minValue
    · have hb : b ≠ -1 := by
        rintro rfl
        subst ha
        exact fits ⟨rfl, rfl⟩
      exact Int32.toInt_div_of_ne_right a b hb
    · exact Int32.toInt_div_of_ne_left a b ha

theorem toInt_foldl_div (a : Int32) (bs : List Int32) :
    (bs.foldl (· / ·) a).toInt = (bs.map Int32.toInt).foldl quotient a.toInt := by
  induction bs generalizing a with
  | nil => rfl
  | cons b bs ih => rw [List.foldl_cons, ih, toInt_div, List.map_cons, List.foldl_cons]

theorem foldl_quotient_eq_tdiv {a : Int} {bs : List Int} (h : ¬Wraps a bs) :
    bs.foldl quotient a = a.tdiv bs.prod := by
  induction bs generalizing a with
  | nil => simp
  | cons b bs ih =>
    obtain ⟨fits, later⟩ := not_or.mp h
    have step : quotient a b = a.tdiv b := if_neg fits
    rw [List.foldl_cons, ih later, step, tdiv_tdiv, List.prod_cons]

/-! ## Operands -/

namespace Eval

/-- Operands are evaluated from left to right, each in the state that the one before it left, and
give these integers. -/
inductive Yields (ev : Evaluator ν) (s : Option ScopeId) :
    Machine ν → List ν → List Int32 → Machine ν → Prop
  | nil (m : Machine ν) : Yields ev s m [] [] m
  | cons {m m₁ m' : Machine ν} {a : ν} {args : List ν} {n : Int32} {ns : List Int32} :
      (ev s a).exec m = (.ok (.ofInt n), m₁) → Yields ev s m₁ args ns m' →
      Yields ev s m (a :: args) (n :: ns) m'

section
variable {view : ν → Form ν} {ev : Evaluator ν} {s : Option ScopeId} {m m' m₁ : Machine ν}

theorem exec_accumulate_div (view : ν → Form ν) {front : List ν} {bs : List Int32}
    (h : Yields ev s m front bs m₁) (nonzero : ∀ b ∈ bs, b ≠ 0) (a : Int32) (rest : List ν) :
    (accumulate view ev s .div a (front ++ rest)).exec m =
      (accumulate view ev s .div (bs.foldl (· / ·) a) rest).exec m₁ := by
  induction h generalizing a with
  | nil => rfl
  | @cons m m₁ m' arg args b bs first _ ih =>
    obtain ⟨hb, nonzero⟩ := List.forall_mem_cons.mp nonzero
    have step : Arithmetic.div.apply? a b = some (a / b) := if_neg hb
    rw [List.cons_append, accumulate, exec_bind_of_ok (exec_integer first), step]
    exact ih nonzero (a / b)

/-- A divisor that is zero ends the evaluation before what stands behind it is evaluated. -/
theorem exec_accumulate_zero {zero : ν} (h : (ev s zero).exec m = (.ok (.ofInt 0), m')) (a : Int32)
    (rest : List ν) :
    (accumulate view ev s .div a (zero :: rest)).exec m =
      (.error (.error ⟨.divisionByZero, (view zero).position⟩), m') := by
  have step : Arithmetic.div.apply? a 0 = none := rfl
  rw [accumulate, exec_bind_of_ok (exec_integer h), step]
  rfl

theorem exec_arithmetic {first : ν} {args : List ν} {a : Int32}
    (h : (ev s first).exec m = (.ok (.ofInt a), m₁)) (p : Position) (name : String)
    (op : Arithmetic) :
    (arithmetic view ev s p name op (first :: args)).exec m =
      (accumulate view ev s op a args >>= fun n => pure (.ofInt n)).exec m₁ :=
  exec_bind_of_ok (exec_integer h)

/-- Without a level left nothing has a value. -/
theorem exec_zero_ne_ok (limit : Nat) (node : ν) (v : Value ν) :
    (eval view limit 0 s node).exec m ≠ (.ok v, m') := by
  intro h
  simp only [eval] at h
  split at h <;> cases h

theorem exec_symbol (limit depth : Nat) (op : Arithmetic) {node head : ν} {args : List ν}
    (hnode : (view node).shape = .list (head :: args)) (hhead : (view head).shape = .atom op.symbol)
    (unbound : m.store.lookup s op.symbol = none) :
    (eval view limit (depth + 2) s node).exec m =
      (arithmetic view (eval view limit (depth + 1)) s (view node).position op.symbol op args).exec
        m := by
  rw [eval, hnode]
  dsimp only [list]
  rw [exec_bind_of_ok (exec_unbound limit depth hhead unbound), op.ofText_symbol, call_symbol]

end

end Eval

/-- A chain of divisions whose operands give integers, at least up to the first divisor that is
zero. If none is, it gives what its steps make, which is the quotient by the product of all divisors
unless a step divides the least integer by minus one. At a zero it fails, in the state in which this
operand left the machine. -/
theorem eval_quotient (view : ν → Form ν) (limit depth : Nat) (s : Option ScopeId) (m : Machine ν)
    (node head first : ν) (args : List ν)
    (hnode : (view node).shape = .list (head :: first :: args))
    (hhead : (view head).shape = .atom "/") (unbound : m.store.lookup s "/" = none) :
    let ev := eval view limit depth
    let outcome := (eval view limit (depth + 1) s node).exec m
    (∀ a bs m', Eval.Yields ev s m (first :: args) (a :: bs) m' → (∀ b ∈ bs, b ≠ 0) →
      ∃ q : Int32, outcome = (.ok (.ofInt q), m') ∧
        q.toInt = (bs.map Int32.toInt).foldl quotient a.toInt ∧
        (¬Wraps a.toInt (bs.map Int32.toInt) →
          q.toInt = a.toInt.tdiv (bs.map Int32.toInt).prod)) ∧
    ∀ front zero rest a bs m₁ m₂, args = front ++ zero :: rest →
      Eval.Yields ev s m (first :: front) (a :: bs) m₁ → (∀ b ∈ bs, b ≠ 0) →
      (ev s zero).exec m₁ = (.ok (.ofInt 0), m₂) →
      outcome = (.error (.error ⟨.divisionByZero, (view zero).position⟩), m₂) := by
  intro ev outcome
  -- The first operand has a value, so there is a level left and the head has one too.
  have opened {a : Int32} {m₁ : Machine ν} (h : (ev s first).exec m = (.ok (.ofInt a), m₁)) :
      outcome = (Eval.accumulate view ev s .div a args >>= fun n => pure (.ofInt n)).exec m₁ := by
    cases depth with
    | zero => exact absurd h (Eval.exec_zero_ne_ok limit first _)
    | succ depth =>
      have listed : outcome = _ := Eval.exec_symbol limit depth .div hnode hhead unbound
      rw [listed, Eval.exec_arithmetic h]
  constructor
  · intro a bs m' yields nonzero
    cases yields with
    | cons hfirst yields =>
      have steps := Eval.exec_accumulate_div view yields nonzero a []
      rw [List.append_nil] at steps
      refine ⟨bs.foldl (· / ·) a, ?_, toInt_foldl_div a bs, fun fits => ?_⟩
      · rw [opened hfirst, Eval.exec_bind_of_ok steps]
        rfl
      · rw [toInt_foldl_div, foldl_quotient_eq_tdiv fits]
  · rintro front zero rest a bs m₁ m₂ rfl yields nonzero hzero
    cases yields with
    | cons hfirst yields =>
      have steps := Eval.exec_accumulate_div view yields nonzero a (zero :: rest)
      rw [Eval.exec_accumulate_zero hzero] at steps
      rw [opened hfirst]
      exact Eval.exec_bind_of_error steps

/-- `(/ (define a -7) 2 0 (define w 1))`, with the place of the zero told. -/
def Tree.zeroDivisor : Tree :=
  .list none [.atom none "/", .list none [.atom none "define", .atom none "a", .atom none "-7"],
    .atom none "2", .atom (some ⟨.number, "0", none, ⟨1, 20⟩⟩) "0",
    .list none [.atom none "define", .atom none "w", .atom none "1"]]

/-- `(/ -2147483648 -1 3)`, of which the first step wraps around. -/
def Tree.leastQuotient : Tree :=
  .list none [.atom none "/", .atom none "-2147483648", .atom none "-1", .atom none "3"]

theorem eval_quotient_zeroDivisor :
    let m : Machine Tree := ⟨Store.empty.create none "root", #[]⟩
    (∃ m₂, (eval Tree.form 9 9 (some 0) .zeroDivisor).exec m =
        (.error (.error ⟨.divisionByZero, ⟨1, 20⟩⟩), m₂) ∧
      m₂.trace.toList = [.define 0 "a" (.ofInt (-7))]) ∧
    ∃ q : Int32, (eval Tree.form 9 9 (some 0) .leastQuotient).exec m = (.ok (.ofInt q), m) ∧
      q.toInt = -715827882 := by
  intro m
  have unbound : m.store.lookup (some 0) "/" = none := by with_unfolding_all rfl
  constructor
  · refine ⟨m.bind 0 "a" (.ofInt (-7)), ?_, rfl⟩
    refine (eval_quotient Tree.form 9 8 (some 0) m .zeroDivisor _ _ _ rfl rfl unbound).2
      [.atom none "2"] _ _ (-7) [2] (m.bind 0 "a" (.ofInt (-7))) _ rfl ?_ (by simp) ?_
    · exact .cons (by with_unfolding_all rfl) (.cons (by with_unfolding_all rfl) (.nil _))
    · with_unfolding_all rfl
  · have yields : Eval.Yields (eval Tree.form 9 8) (some 0) m
        [.atom none "-2147483648", .atom none "-1", .atom none "3"] [-2147483648, -1, 3] m :=
      .cons (by with_unfolding_all rfl)
        (.cons (by with_unfolding_all rfl) (.cons (by with_unfolding_all rfl) (.nil _)))
    obtain ⟨q, ran, steps, -⟩ := (eval_quotient Tree.form 9 8 (some 0) m .leastQuotient _ _ _ rfl
      rfl unbound).1 _ _ m yields (by simp)
    exact ⟨q, ran, steps.trans (by decide)⟩

end Lisplet
