import Lisplet.Interpreter
import Lisplet.Proofs.Congruence

/-! Evaluation sees of a tree its shape and its texts only. Runs on trees that are alike, from
stores whose functions have bodies that are alike, stay so step by step; they differ in the places
that their errors name, and in nothing else. -/
namespace Lisplet

namespace Tree

mutual

theorem alike_refl : ∀ t : Tree, t.alike t = true
  | absent | blank => rfl
  | atom .. => by simp only [alike, decide_true]
  | list _ items => by simp only [alike, alikeAll_refl items]

theorem alikeAll_refl : ∀ ts : List Tree, alikeAll ts ts = true
  | [] => rfl
  | t :: ts => by simp only [alikeAll, alike_refl t, alikeAll_refl ts, Bool.and_self]

end

/-- Trees that differ in their tokens only. -/
def Alike (a b : Tree) : Prop := a.alike b = true

theorem Alike.refl (t : Tree) : t.Alike t := alike_refl t

mutual

/-- The tree without its tokens. -/
def bare : Tree → Tree
  | absent => absent
  | blank => blank
  | atom _ text => atom none text
  | list _ items => list none (bareAll items)

def bareAll : List Tree → List Tree
  | [] => []
  | t :: ts => bare t :: bareAll ts

end

mutual

theorem alike_iff_bare : ∀ a b : Tree, a.alike b = true ↔ a.bare = b.bare
  | absent, b | blank, b => by cases b <;> simp [alike, bare]
  | atom _ text, b => by cases b <;> simp [alike, bare]
  | list _ xs, b => by
    cases b with
    | list _ ys => simp only [alike, bare, alikeAll_iff_bareAll xs ys, list.injEq, true_and]
    | absent | blank | atom => simp [alike, bare]

theorem alikeAll_iff_bareAll : ∀ xs ys : List Tree, alikeAll xs ys = true ↔ bareAll xs = bareAll ys
  | [], ys => by cases ys <;> simp [alikeAll, bareAll]
  | x :: xs, ys => by
    cases ys with
    | nil => simp [alikeAll, bareAll]
    | cons y ys =>
      simp only [alikeAll, bareAll, Bool.and_eq_true, alike_iff_bare x y,
        alikeAll_iff_bareAll xs ys, List.cons.injEq]

end

theorem alikeAll_iff {xs ys : List Tree} : alikeAll xs ys = true ↔ List.Forall₂ Alike xs ys := by
  induction xs generalizing ys with
  | nil => cases ys <;> simp [alikeAll]
  | cons x xs ih => cases ys <;> simp [alikeAll, ih, Alike]

theorem alikeAll_trans {xs ys zs : List Tree} (h : List.Forall₂ Alike xs ys)
    (h' : List.Forall₂ Alike ys zs) : List.Forall₂ Alike xs zs := by
  rw [← alikeAll_iff, alikeAll_iff_bareAll] at *
  exact h.trans h'

theorem alikeAll_symm {xs ys : List Tree} (h : List.Forall₂ Alike xs ys) :
    List.Forall₂ Alike ys xs := by
  rw [← alikeAll_iff, alikeAll_iff_bareAll] at *
  exact h.symm

theorem Alike.shape {a b : Tree} (h : a.Alike b) : a.shape.Rel Alike b.shape := by
  unfold Alike alike at h
  split at h
  · exact .absent
  · exact .blank
  · cases of_decide_eq_true h
    exact .atom _
  · exact .list (alikeAll_iff.mp h)
  · cases h

end Tree

/-- Values that differ in the places noted in function bodies only. -/
abbrev Value.Alike : Value Tree → Value Tree → Prop := Value.Rel Tree.Alike (· = ·)

abbrev Closure.Alike : Closure Tree → Closure Tree → Prop := Closure.Rel Tree.Alike (· = ·)

theorem Value.Alike.refl (v : Value Tree) : v.Alike v :=
  Value.Rel.refl Tree.Alike.refl (fun _ => rfl) v

def Bindings.Alike : Bindings (Value Tree) → Bindings (Value Tree) → Prop :=
  List.Forall₂ fun p q => p.1 = q.1 ∧ p.2.Alike q.2

namespace Bindings.Alike

variable {bs bs' : Bindings (Value Tree)}

theorem refl (bs : Bindings (Value Tree)) : Bindings.Alike bs bs :=
  List.forall₂_same.mpr fun p _ => ⟨rfl, .refl p.2⟩

theorem get? (h : Bindings.Alike bs bs') (x : String) :
    Option.Rel Value.Alike (bs.get? x) (bs'.get? x) := Bindings.Rel.get? h x

theorem set (h : Bindings.Alike bs bs') (x : String) {v w : Value Tree} (hv : v.Alike w) :
    Bindings.Alike (bs.set x v) (bs'.set x w) := Bindings.Rel.set h x hv

end Bindings.Alike

structure Scope.Alike (a b : Scope Tree) : Prop where
  name : a.name = b.name
  parent : a.parent = b.parent
  bindings : Bindings.Alike a.bindings b.bindings

/-- The same scopes with the same names bound to values that are alike. -/
structure Store.Alike (st st' : Store Tree) : Prop where
  size : st.scopes.size = st'.scopes.size
  scope (id : ScopeId) : Option.Rel Scope.Alike st.scopes[id]? st'.scopes[id]?

namespace Store.Alike

variable {st st' : Store Tree}

theorem refl (st : Store Tree) : st.Alike st := by
  refine ⟨rfl, fun id => ?_⟩
  cases st.scopes[id]? with
  | none => exact .none
  | some s => exact .some ⟨rfl, rfl, .refl _⟩

theorem nextId (h : st.Alike st') : st.nextId = st'.nextId := h.size

theorem create (h : st.Alike st') (parent : Option ScopeId) (name : String) :
    (st.create parent name).Alike (st'.create parent name) := by
  refine ⟨by simp only [Store.create, Array.size_push, h.size], fun id => ?_⟩
  simp only [Store.create, Array.getElem?_push, h.size]
  split
  · exact .some ⟨rfl, rfl, .nil⟩
  · exact h.scope id

theorem define (h : st.Alike st') (id : ScopeId) (x : String) {v w : Value Tree}
    (hv : v.Alike w) : (st.define id x v).Alike (st'.define id x w) := by
  refine ⟨by simp only [Store.define, Store.modify, Array.size_modify, h.size], fun other => ?_⟩
  simp only [Store.define, Store.modify, Array.getElem?_modify]
  split
  · have hs := h.scope other
    generalize st.scopes[other]? = a at hs ⊢
    generalize st'.scopes[other]? = b at hs ⊢
    cases hs with
    | none => exact .none
    | some hs => exact .some ⟨hs.name, hs.parent, hs.bindings.set x hv⟩
  · exact h.scope other

theorem defineAll (h : st.Alike st') (id : ScopeId) (xs : List String)
    {vs ws : List (Value Tree)} (hvs : List.Forall₂ Value.Alike vs ws) :
    (st.defineAll id xs vs).Alike (st'.defineAll id xs ws) := by
  induction xs generalizing st st' vs ws with
  | nil => exact h
  | cons x xs ih =>
    cases hvs with
    | nil => exact h
    | cons hv hvs => exact ih (h.define id x hv) hvs

theorem lookupFrom (h : st.Alike st') (x : String) (id : ScopeId) :
    Option.Rel Value.Alike (st.lookupFrom x id) (st'.lookupFrom x id) := by
  induction id using Nat.strongRecOn with
  | ind id ih =>
    unfold Store.lookupFrom
    have hs := h.scope id
    generalize st.scopes[id]? = a at hs ⊢
    generalize st'.scopes[id]? = b at hs ⊢
    cases hs with
    | none => exact .none
    | @some a b hs =>
      have hv := hs.bindings.get? x
      simp only [hs.parent]
      generalize a.bindings.get? x = v at hv ⊢
      generalize b.bindings.get? x = w at hv ⊢
      cases hv with
      | some hv => exact .some hv
      | none =>
        cases b.parent with
        | none => exact .none
        | some parent =>
          by_cases lt : parent < id
          · simpa only [lt, if_true] using ih parent lt
          · simpa only [lt, if_false] using .none

theorem lookup (h : st.Alike st') (s : Option ScopeId) (x : String) :
    Option.Rel Value.Alike (st.lookup s x) (st'.lookup s x) := by
  cases s with
  | none => exact .none
  | some id => exact h.lookupFrom x id

end Store.Alike

/-- Reasons that differ in the place they name only. -/
inductive Halt.Alike : Halt → Halt → Prop
  | error {e f : EvalError} : e.cause = f.cause → Alike (.error e) (.error f)
  | fault (f : Fault) : Alike (.fault f) (.fault f)

namespace Eval

variable {α β γ δ : Type} {R : α → β → Prop}

/-- Both runs succeed or both fail, for the same reason, and leave stores that are alike. -/
inductive Matches (R : α → β → Prop) :
    Except Halt α × Machine Tree → Except Halt β × Machine Tree → Prop
  | ok {a : α} {b : β} {m n : Machine Tree} : R a b → m.store.Alike n.store →
      Matches R (.ok a, m) (.ok b, n)
  | error {e f : Halt} {m n : Machine Tree} : e.Alike f → m.store.Alike n.store →
      Matches R (.error e, m) (.error f, n)

def Agree (R : α → β → Prop) (x : Eval Tree α) (y : Eval Tree β) : Prop :=
  ∀ m n : Machine Tree, m.store.Alike n.store → Matches R (x.exec m) (y.exec n)

namespace Agree

theorem bind {Q : γ → δ → Prop} {x : Eval Tree α} {y : Eval Tree β} {f : α → Eval Tree γ}
    {g : β → Eval Tree δ} (hx : Agree R x y) (hf : ∀ a b, R a b → Agree Q (f a) (g b)) :
    Agree Q (x >>= f) (y >>= g) := by
  intro m n hmn
  have hr := hx m n hmn
  generalize hm : x.exec m = r at hr
  generalize hn : y.exec n = r' at hr
  cases hr with
  | error he hs => rw [exec_bind_of_error hm, exec_bind_of_error hn]; exact .error he hs
  | ok hab hs => rw [exec_bind_of_ok hm, exec_bind_of_ok hn]; exact hf _ _ hab _ _ hs

theorem assign (s : Option ScopeId) (x : String) {v w : Value Tree} (hv : v.Alike w) :
    Agree (· = ·) (Eval.assign s x v) (Eval.assign s x w) := by
  intro m n hmn
  cases s with
  | none => exact .error (.fault _) hmn
  | some id => exact .ok rfl (hmn.define id x hv)

theorem enter {c d : Closure Tree} (hc : c.Alike d) {vs ws : List (Value Tree)}
    (hvs : List.Forall₂ Value.Alike vs ws) :
    Agree (· = ·) (Eval.enter c vs) (Eval.enter d ws) := by
  intro m n hmn
  refine .ok hmn.nextId ?_
  simp only [hc.name, hc.params, hc.scope, hmn.nextId]
  exact (hmn.create d.scope d.name).defineAll n.store.nextId d.params hvs

theorem atom (s : Option ScopeId) (text : String) :
    Agree Value.Alike (Eval.atom s text) (Eval.atom s text) := by
  intro m n hmn
  refine .ok ?_ hmn
  have hv := hmn.lookup s text
  generalize m.store.lookup s text = v at hv ⊢
  generalize n.store.lookup s text = w at hv ⊢
  cases hv with
  | none => exact .ofText text
  | some hv => exact hv

theorem congruence {ev : Evaluator Tree}
    (h : ∀ s {a b : Tree}, a.Alike b → Agree Value.Alike (ev s a) (ev s b)) (s : Option ScopeId) :
    Congruence ⟨Tree.Alike, (· = ·), fun _ _ => True, Agree⟩ Tree.form ev ev s s where
  here := rfl
  shape hab := hab.shape
  place _ := trivial
  pure hab _ _ hmn := .ok hab hmn
  bind := Agree.bind
  fail _ _ _ _ hmn := .error (.error rfl) hmn
  fault f _ _ hmn := .error (.fault f) hmn
  eval hab := h s hab
  assign x hv := Agree.assign s x hv
  call hc hvs := (Agree.enter hc hvs).bind fun k _ hk => by subst hk; exact h (some k) hc.body

end Agree

/-- Evaluation does not tell trees that are alike apart. -/
theorem eval_agree (limit n : Nat) (s : Option ScopeId) {a b : Tree} (h : a.Alike b) :
    Agree Value.Alike (eval Tree.form limit n s a) (eval Tree.form limit n s b) := by
  induction n generalizing s a b with
  | zero =>
    have hs := h.shape
    simp only [eval, Tree.form]
    generalize a.shape = x at hs ⊢
    generalize b.shape = y at hs ⊢
    cases hs with
    | absent => exact fun _ _ hmn => .error (.fault _) hmn
    | blank | atom | list => exact fun _ _ hmn => .error (.error rfl) hmn
  | succ n ih =>
    have hs := h.shape
    simp only [eval, Tree.form]
    generalize a.shape = x at hs ⊢
    generalize b.shape = y at hs ⊢
    cases hs with
    | absent => exact fun _ _ hmn => .error (.fault _) hmn
    | blank => exact fun _ _ hmn => .error (.fault _) hmn
    | atom text => exact Agree.atom s text
    | list hs => exact (Agree.congruence ih s).list trivial hs

end Eval

structure Interpreter.Alike (i j : Interpreter) : Prop where
  store : i.store.Alike j.store
  root : i.root = j.root
  limit : i.limit = j.limit

/-- Reports of runs that cannot be told apart but for the places named. -/
structure Report.Alike (r r' : Report) : Prop where
  values : List.Forall₂ Value.Alike r.values r'.values
  halt : Option.Rel Halt.Alike r.halt r'.halt
  interpreter : r.interpreter.Alike r'.interpreter

theorem Report.Alike.halt_eq_none {r r' : Report} (h : r.Alike r') (hr : r.halt = none) :
    r'.halt = none := by
  have same := h.halt
  rw [hr] at same
  generalize r'.halt = halt at same
  cases same
  rfl

namespace Interpreter

variable {i j : Interpreter}

theorem Alike.refl (i : Interpreter) : i.Alike i := ⟨.refl _, rfl, rfl⟩

theorem Alike.evalAll (h : i.Alike j) {ts us : List Tree} (hts : List.Forall₂ Tree.Alike ts us) :
    (i.evalAll ts).Alike (j.evalAll us) := by
  induction hts generalizing i j with
  | nil => exact ⟨.nil, .none, h⟩
  | @cons t u ts us ht hts ih =>
    have hr : Eval.Matches Value.Alike (run Tree.form i.limit (some i.root) t i.store)
        (run Tree.form j.limit (some j.root) u j.store) := by
      rw [← h.limit, ← h.root]
      exact Eval.eval_agree _ _ _ ht ⟨i.store, #[]⟩ ⟨j.store, #[]⟩ h.store
    simp only [Interpreter.evalAll, evalTree]
    generalize run Tree.form i.limit (some i.root) t i.store = r at hr ⊢
    generalize run Tree.form j.limit (some j.root) u j.store = r' at hr ⊢
    cases hr with
    | error he hs => exact ⟨.nil, .some he, hs, h.root, h.limit⟩
    | @ok v w m n hv hs =>
      have next : Alike { i with store := m.store } { j with store := n.store } :=
        ⟨hs, h.root, h.limit⟩
      have rest := ih next
      exact ⟨.cons hv rest.values, rest.halt, rest.interpreter⟩

theorem halt_of_append {i : Interpreter} {ts us : List Tree}
    (h : (i.evalAll (ts ++ us)).halt = none) : (i.evalAll ts).halt = none := by
  induction ts generalizing i with
  | nil => rfl
  | cons t ts ih =>
    simp only [evalAll, List.cons_append] at h ⊢
    generalize i.evalTree t = r at h ⊢
    obtain ⟨e | v, events, j⟩ := r
    · cases h
    · exact ih h

/-- Evaluating some expressions after others goes on where those ended. -/
theorem evalAll_append (i : Interpreter) (ts us : List Tree) (h : (i.evalAll ts).halt = none) :
    let first := i.evalAll ts
    let rest := first.interpreter.evalAll us
    i.evalAll (ts ++ us) = { rest with
      values := first.values ++ rest.values, events := first.events ++ rest.events } := by
  induction ts generalizing i with
  | nil => rfl
  | cons t ts ih =>
    simp only [evalAll, List.cons_append] at h ⊢
    generalize i.evalTree t = r at h ⊢
    obtain ⟨e | v, events, j⟩ := r
    · cases h
    · simp only [ih j h, List.cons_append, List.append_assoc]

/-- A program whose first expressions are known can be evaluated in two goes. -/
theorem Alike.evalAll_split (hij : i.Alike j) {program front back : List Tree}
    (h : List.Forall₂ Tree.Alike program (front ++ back)) (hh : (i.evalAll program).halt = none) :
    ∃ r later, Report.Alike r (j.evalAll front) ∧ r.halt = none ∧
      List.Forall₂ Tree.Alike later back ∧ (r.interpreter.evalAll later).halt = none ∧
      (i.evalAll program).values = r.values ++ (r.interpreter.evalAll later).values ∧
      (i.evalAll program).interpreter = (r.interpreter.evalAll later).interpreter := by
  have first := List.forall₂_take_append _ _ _ h
  have second := List.forall₂_drop_append _ _ _ h
  rw [← List.take_append_drop front.length program] at hh ⊢
  have halt := halt_of_append hh
  rw [i.evalAll_append _ _ halt] at hh ⊢
  exact ⟨_, _, hij.evalAll first, halt, second, hh, rfl, rfl⟩

end Interpreter

end Lisplet
