import Lisplet.Proofs.Congruence
import Lisplet.Proofs.Integer

/-! Sums, differences and products. Each step of an evaluation wraps around at 32 bits, yet the
result is the exact one, wrapped around once. The levels that an expression takes are counted
exactly: with as many as its height it has a value, and with fewer it is cut off. -/
namespace Lisplet

variable {ν : Type}

namespace Arithmetic

def symbol : Arithmetic → String
  | add => "+"
  | sub => "-"
  | mul => "*"
  | div => "/"

/-- The operation on integers of any size. -/
def exact : Arithmetic → Int → Int → Int
  | add, a, b => a + b
  | sub, a, b => a - b
  | mul, a, b => a * b
  | div, a, b => a.tdiv b

theorem ofText_symbol (op : Arithmetic) :
    (Value.ofText op.symbol : Value ν) = .ofOperator op.symbol := by
  cases op <;> rfl

/-- Reducing to 32 bits respects all operations but division. -/
theorem apply_ofInt {op : Arithmetic} (h : op ≠ .div) (a b : Int) :
    op.apply? (Int32.ofInt a) (Int32.ofInt b) = some (Int32.ofInt (op.exact a b)) := by
  cases op with
  | add => exact congrArg some (Int32.ofInt_add a b).symm
  | sub => exact congrArg some (Int32.ofInt_sub a b).symm
  | mul => exact congrArg some (Int32.ofInt_mul a b).symm
  | div => exact absurd rfl h

end Arithmetic

namespace Eval

section
variable {view : ν → Form ν} {ev : Evaluator ν} {s : Option ScopeId} {m m' : Machine ν}

theorem exec_integer {a : ν} {n : Int32} (h : (ev s a).exec m = (.ok (.ofInt n), m')) :
    (integer view ev s a).exec m = (.ok n, m') := by
  rw [integer, exec_bind_of_ok h]
  rfl

theorem call_symbol (p : Position) (op : Arithmetic) (args : List ν) :
    call view ev s p (.ofOperator op.symbol) args = arithmetic view ev s p op.symbol op args := by
  cases op <;> rfl

/-- An atom that is bound nowhere stands for its text. -/
theorem exec_unbound (limit depth : Nat) {a : ν} {text : String}
    (ha : (view a).shape = .atom text) (unbound : m.store.lookup s text = none) :
    (eval view limit (depth + 1) s a).exec m = (.ok (.ofText text), m) := by
  simp only [eval, ha]
  change ((Except.ok ((m.store.lookup s text).getD (.ofText text)), m) :
    Except Halt (Value ν) × Machine ν) = _
  rw [unbound]
  rfl

end

/-! ## Levels -/

variable {α β : Type}

/-- Of the `depth` levels left `x` takes `height`. If there are so many, it gives `a`; if not, the
limit cuts it off. In either case nothing is changed. -/
structure Takes (limit depth height : Nat) (x : Eval ν α) (m : Machine ν) (a : α) : Prop where
  enough : height ≤ depth → x.exec m = (.ok a, m)
  short : depth < height → ∃ p, x.exec m = (.error (.error ⟨.depthExceeded limit, p⟩), m)

namespace Takes

variable {limit depth h h' : Nat} {m : Machine ν} {a : α} {b : β}

theorem pure (a : α) : Takes limit depth 0 (Pure.pure a : Eval ν α) m a :=
  ⟨fun _ => rfl, fun none => absurd none (Nat.not_lt_zero _)⟩

/-- Both parts start from the same level. -/
theorem bind {x : Eval ν α} {f : α → Eval ν β} (hx : Takes limit depth h x m a)
    (hf : Takes limit depth h' (f a) m b) : Takes limit depth (max h h') (x >>= f) m b := by
  constructor
  · intro enough
    rw [exec_bind_of_ok (hx.enough (by omega))]
    exact hf.enough (by omega)
  · intro short
    by_cases first : h ≤ depth
    · rw [exec_bind_of_ok (hx.enough first)]
      exact hf.short (by omega)
    · obtain ⟨p, cut⟩ := hx.short (by omega)
      exact ⟨p, exec_bind_of_error cut⟩

theorem map {x : Eval ν α} (hx : Takes limit depth h x m a) (f : α → β) :
    Takes limit depth h (x >>= fun a => Pure.pure (f a)) m (f a) := by
  have both := hx.bind (f := fun a => Pure.pure (f a)) (.pure (f a))
  rwa [Nat.max_zero] at both

theorem integer {view : ν → Form ν} {ev : Evaluator ν} {s : Option ScopeId} {node : ν} {n : Int32}
    (hv : Takes limit depth h (ev s node) m (.ofInt n)) :
    Takes limit depth h (Eval.integer view ev s node) m n := by
  constructor
  · exact fun enough => exec_integer (hv.enough enough)
  · intro short
    obtain ⟨p, cut⟩ := hv.short short
    exact ⟨p, exec_bind_of_error cut⟩

section
variable {view : ν → Form ν} {s : Option ScopeId} {node : ν} {v : Value ν}

/-- The outermost level is the expression's own. -/
theorem level (there : (view node).shape ≠ .absent)
    (inner : ∀ depth, Takes limit depth h (eval view limit (depth + 1) s node) m v) (depth : Nat) :
    Takes limit depth (h + 1) (eval view limit depth s node) m v := by
  cases depth with
  | zero =>
    refine ⟨fun enough => absurd enough (Nat.not_succ_le_zero _), fun _ => ?_⟩
    refine ⟨(view node).position, ?_⟩
    simp only [eval]
    rfl
  | succ depth =>
    refine ⟨fun enough => ?_, fun short => ?_⟩
    · exact (inner depth).enough (by omega)
    · exact (inner depth).short (by omega)

theorem unbound {text : String} (ha : (view node).shape = .atom text)
    (free : m.store.lookup s text = none) (depth : Nat) :
    Takes limit depth 1 (eval view limit depth s node) m (.ofText text) := by
  refine level (by simp [ha]) (fun depth => ⟨fun _ => ?_, fun none => ?_⟩) depth
  · exact exec_unbound limit depth ha free
  · exact absurd none (Nat.not_lt_zero _)

end

end Takes

end Eval

/-! ## Expressions of integers -/

namespace Tree

mutual

/-- An atom has height one. -/
def height : Tree → Nat
  | list _ items => heightAll items + 1
  | absent | blank | atom .. => 1

def heightAll : List Tree → Nat
  | [] => 0
  | t :: ts => max (height t) (heightAll ts)

end

/-- What an operator makes of numbers, from left to right. One by itself is left as it is. -/
def combine (symbol : String) : List Int → Int
  | [] => 0
  | a :: bs =>
    match symbol with
    | "+" => bs.foldl (· + ·) a
    | "-" => bs.foldl (· - ·) a
    | "*" => bs.foldl (· * ·) a
    | _ => a

mutual

/-- The number that an expression denotes, whatever its size. -/
def amount : Tree → Int
  | atom _ text => Decimal.signedValue text.toList
  | list _ (head :: args) => combine head.text (amounts args)
  | list _ [] | absent | blank => 0

def amounts : List Tree → List Int
  | [] => []
  | t :: ts => amount t :: amounts ts

end

/-- A numeral of 32 bits, or a list of an operator other than division and one or more such
expressions. -/
inductive Integral : Tree → Prop
  | numeral (token : Option Token) {text : String} : Decimal.IsInteger text.toList →
      -2 ^ 31 ≤ Decimal.signedValue text.toList → Decimal.signedValue text.toList < 2 ^ 31 →
      Integral (.atom token text)
  | list (token token' : Option Token) {symbol : String} {first : Tree} {rest : List Tree} :
      symbol ∈ ["+", "-", "*"] → Integral first → (∀ t ∈ rest, Integral t) →
      Integral (.list token (.atom token' symbol :: first :: rest))

theorem Integral.of_integer? {text : String} {n : Int32} (token : Option Token)
    (h : integer? text = some n) : Integral (.atom token text) := by
  obtain ⟨spelled, value⟩ := integer?_eq_some_iff.mp h
  refine .numeral token spelled ?_ ?_
  · rw [value]
    exact n.le_toInt
  · rw [value]
    exact n.toInt_lt

theorem anyMentions_of_mem {x : String} {t : Tree} {ts : List Tree} (ht : t ∈ ts)
    (h : t.mentions x = true) : anyMentions x ts = true := by
  cases none : anyMentions x ts with
  | true => rfl
  | false =>
    rw [anyMentions_eq_false_iff.mp none t ht] at h
    cases h

theorem exists_symbol {symbol : String} (h : symbol ∈ ["+", "-", "*"]) :
    ∃ op : Arithmetic, op ≠ .div ∧ symbol = op.symbol := by
  simp only [List.mem_cons, List.not_mem_nil, or_false] at h
  obtain rfl | rfl | rfl := h
  · exact ⟨.add, by decide, rfl⟩
  · exact ⟨.sub, by decide, rfl⟩
  · exact ⟨.mul, by decide, rfl⟩

theorem combine_symbol {op : Arithmetic} (h : op ≠ .div) (a : Int) (bs : List Int) :
    combine op.symbol (a :: bs) = bs.foldl op.exact a := by
  cases op with
  | add | sub | mul => rfl
  | div => exact absurd rfl h

end Tree

namespace Eval

variable {limit depth : Nat} {s : Option ScopeId} {m : Machine Tree}

theorem Takes.accumulate {ev : Evaluator Tree} {op : Arithmetic} (hop : op ≠ .div)
    {args : List Tree}
    (h : ∀ t ∈ args, Takes limit depth t.height (ev s t) m (.ofInt (.ofInt t.amount))) (acc : Int) :
    Takes limit depth (Tree.heightAll args)
      (Eval.accumulate Tree.form ev s op (.ofInt acc) args) m
      (.ofInt ((Tree.amounts args).foldl op.exact acc)) := by
  induction args generalizing acc with
  | nil => exact .pure _
  | cons t ts ih =>
    obtain ⟨first, others⟩ := List.forall_mem_cons.mp h
    refine first.integer.bind ?_
    rw [Arithmetic.apply_ofInt hop]
    exact ih others _

theorem Takes.arithmetic {ev : Evaluator Tree} {op : Arithmetic} (hop : op ≠ .div)
    {first : Tree} {rest : List Tree}
    (h : ∀ t ∈ first :: rest, Takes limit depth t.height (ev s t) m (.ofInt (.ofInt t.amount)))
    (p : Position) :
    Takes limit depth (Tree.heightAll (first :: rest))
      (Eval.arithmetic Tree.form ev s p op.symbol op (first :: rest)) m
      (.ofInt (.ofInt (Tree.combine op.symbol (Tree.amounts (first :: rest))))) := by
  obtain ⟨start, others⟩ := List.forall_mem_cons.mp h
  rw [Tree.amounts, Tree.combine_symbol hop]
  exact start.integer.bind ((Takes.accumulate hop others first.amount).map Value.ofInt)

/-- All levels of an expression are taken, and no more. -/
theorem Takes.integral {t : Tree} (h : t.Integral)
    (unbound : ∀ x, t.mentions x = true → m.store.lookup s x = none) (depth : Nat) :
    Takes limit depth t.height (eval Tree.form limit depth s t) m (.ofInt (.ofInt t.amount)) := by
  induction h generalizing depth with
  | @numeral token text spelled low high =>
    have read : integer? text = some (.ofInt (Decimal.signedValue text.toList)) :=
      integer?_eq_some_iff.mpr ⟨spelled, (Int32.toInt_ofInt_of_le low high).symm⟩
    have value : (Value.ofText text : Value Tree) =
        .ofInt (.ofInt (Decimal.signedValue text.toList)) := by
      simp only [Value.ofText, read]
    rw [Tree.amount, ← value]
    exact .unbound rfl (unbound text (by simp [Tree.mentions])) depth
  | @list token token' symbol first rest hsymbol _ _ ihFirst ihRest =>
    obtain ⟨op, hop, rfl⟩ := Tree.exists_symbol hsymbol
    have inside : ∀ t ∈ Tree.atom token' op.symbol :: first :: rest, ∀ x, t.mentions x = true →
        m.store.lookup s x = none :=
      fun t ht x hx => unbound x (Tree.anyMentions_of_mem ht hx)
    obtain ⟨headFree, argsFree⟩ := List.forall_mem_cons.mp inside
    obtain ⟨firstFree, restFree⟩ := List.forall_mem_cons.mp argsFree
    refine .level (by simp [Tree.form, Tree.shape]) (fun depth => ?_) depth
    have head : Takes limit depth 1 (eval Tree.form limit depth s (.atom token' op.symbol)) m
        (.ofText op.symbol) :=
      .unbound rfl (headFree op.symbol (by simp [Tree.mentions])) depth
    have operands : ∀ t ∈ first :: rest, Takes limit depth t.height
        (eval Tree.form limit depth s t) m (.ofInt (.ofInt t.amount)) :=
      List.forall_mem_cons.mpr
        ⟨ihFirst firstFree depth, fun t ht => ihRest t ht (restFree t ht) depth⟩
    refine head.bind ?_
    rw [op.ofText_symbol, call_symbol]
    exact .arithmetic hop operands _

end Eval

/-- Sums, differences and products of integers, nested in any way, are exact but for one reduction
to 32 bits at the end, and the limit stops them if and only if it is below the height of the
tree. -/
theorem run_integral (t : Tree) (h : t.Integral) (limit : Int) (scope : Option ScopeId)
    (st : Store Tree) (unbound : ∀ x, t.mentions x = true → st.lookup scope x = none) :
    (t.height ≤ effectiveLimit limit → ∃ n : Int32,
      run Tree.form limit scope t st = (.ok (.ofInt n), ⟨st, #[]⟩) ∧
        n.toInt = t.amount.bmod (2 ^ 32)) ∧
    (effectiveLimit limit < t.height → ∃ p,
      run Tree.form limit scope t st =
        (.error (.error ⟨.depthExceeded (effectiveLimit limit), p⟩), ⟨st, #[]⟩)) := by
  have takes : Eval.Takes (effectiveLimit limit) (effectiveLimit limit) t.height
      (eval Tree.form _ _ scope t) ⟨st, #[]⟩ (.ofInt (.ofInt t.amount)) :=
    .integral h unbound _
  refine ⟨fun enough => ?_, takes.short⟩
  exact ⟨.ofInt t.amount, takes.enough enough, Int32.toInt_ofInt⟩

/-- `(- (* 65536 65536 +3) (- -7) (+ 2147483647 2))`, which is more than 32 bits hold. -/
def Tree.wideDifference : Tree :=
  .list none [.atom none "-",
    .list none [.atom none "*", .atom none "65536", .atom none "65536", .atom none "+3"],
    .list none [.atom none "-", .atom none "-7"],
    .list none [.atom none "+", .atom none "2147483647", .atom none "2"]]

theorem Tree.wideDifference_integral : Tree.wideDifference.Integral := by
  have numeral (text : String) (h : (integer? text).isSome) : Integral (.atom none text) := by
    obtain ⟨n, hn⟩ := Option.isSome_iff_exists.mp h
    exact .of_integer? none hn
  have product : Integral (.list none [.atom none "*", .atom none "65536", .atom none "65536",
      .atom none "+3"]) :=
    .list none none (by decide) (numeral "65536" rfl) (List.forall_mem_cons.mpr
      ⟨numeral "65536" rfl, List.forall_mem_singleton.mpr (numeral "+3" rfl)⟩)
  have single : Integral (.list none [.atom none "-", .atom none "-7"]) :=
    .list none none (by decide) (numeral "-7" rfl) (fun t ht => absurd ht List.not_mem_nil)
  have sum : Integral (.list none [.atom none "+", .atom none "2147483647", .atom none "2"]) :=
    .list none none (by decide) (numeral "2147483647" rfl)
      (List.forall_mem_singleton.mpr (numeral "2" rfl))
  exact .list none none (by decide) product
    (List.forall_mem_cons.mpr ⟨single, List.forall_mem_singleton.mpr sum⟩)

theorem run_integral_wideDifference :
    let st : Store Tree := ⟨#[⟨"root", none, [("x", .ofInt 1)]⟩, ⟨"f", some 0, [("-6", .nil)]⟩]⟩
    Tree.wideDifference.Integral ∧ Tree.wideDifference.amount = 10737418246 ∧
    (∃ n : Int32, run Tree.form 3 (some 1) .wideDifference st = (.ok (.ofInt n), ⟨st, #[]⟩) ∧
      n.toInt = -2147483642) ∧
    ∃ p, run Tree.form 2 (some 1) .wideDifference st =
      (.error (.error ⟨.depthExceeded 2, p⟩), ⟨st, #[]⟩) := by
  intro st
  have unbound : ∀ x, Tree.wideDifference.mentions x = true → st.lookup (some 1) x = none := by
    intro x hx
    have other : x ≠ "-6" ∧ x ≠ "x" := by
      constructor <;> rintro rfl <;> revert hx <;> decide
    have root : st.lookupFrom x 0 = none := by
      rw [Store.lookupFrom]
      simp [st, Bindings.get?, other.2.symm]
    change st.lookupFrom x 1 = none
    rw [Store.lookupFrom]
    simpa [st, Bindings.get?, other.1.symm] using root
  have integral := Tree.wideDifference_integral
  obtain ⟨n, ran, value⟩ :=
    (run_integral .wideDifference integral 3 (some 1) st unbound).1 (by decide)
  refine ⟨integral, by decide, ⟨n, ran, value.trans (by decide)⟩, ?_⟩
  exact (run_integral .wideDifference integral 2 (some 1) st unbound).2 (by decide)

end Lisplet
