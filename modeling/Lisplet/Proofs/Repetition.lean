import Lisplet.Proofs.Frame
import Lisplet.Proofs.Reachability

/-! Calls can be repeated. A call whose operands are atoms writes to no scope that was there before
it, and a second time it does the same. The scopes that the first call left behind stand between
the old ones and those that the second call makes: the two runs go in step if the numbers of new
scopes are moved up by as many. -/
namespace Lisplet

variable {ν : Type}

/-! ## A call spares all scopes -/

namespace Eval

variable {α β : Type} {view : ν → Form ν} {limit : Nat}

/-- Wherever it starts, `x` changes no scope that is there. -/
def Spares (x : Eval ν α) : Prop := ∀ m : Machine ν, Store.Frame none m.store (x.exec m).2.store

namespace Spares

theorem bind {x : Eval ν α} {f : α → Eval ν β} (hx : Spares x) (hf : ∀ a, Spares (f a)) :
    Spares (x >>= f) := by
  intro m
  have first := hx m
  obtain ⟨e, m₁, hr, hb⟩ | ⟨a, m₁, hr, hb⟩ := exec_bind_cases x f m
  · rw [hr] at first
    rw [hb]
    exact first
  · rw [hr] at first
    rw [hb]
    exact first.trans (hf a m₁)

theorem pure (a : α) : Spares (Pure.pure a : Eval ν α) := fun _ => .refl _ _

theorem halted (h : Halt) : Spares (throw h : Eval ν α) := fun _ => .refl _ _

theorem atom (depth : Nat) (s : Option ScopeId) {a : ν} {text : String}
    (ha : (view a).shape = .atom text) : Spares (eval view limit depth s a) := by
  cases depth with
  | zero =>
    simp only [eval, ha]
    exact halted _
  | succ depth =>
    simp only [eval, ha]
    exact fun _ => .refl _ _

theorem arguments (depth : Nat) (s : Option ScopeId) {args : List ν}
    (hargs : ∀ a ∈ args, ∃ text, (view a).shape = .atom text) :
    Spares (Eval.arguments (eval view limit depth) s args) := by
  induction args with
  | nil => exact pure _
  | cons a args ih =>
    obtain ⟨⟨text, ha⟩, hargs⟩ := List.forall_mem_cons.mp hargs
    exact (atom depth s ha).bind fun _ => (ih hargs).bind fun _ => pure _

theorem enter (depth : Nat) (c : Closure ν) (vs : List (Value ν)) :
    Spares (Eval.enter c vs >>= fun k => eval view limit depth (some k) c.body) := by
  intro m
  obtain ⟨es, body⟩ := eval_history view limit depth (some m.store.nextId) c.body (m.enter c vs)
  exact .call none c vs body.frame

theorem call (depth : Nat) (s : Option ScopeId) (p : Position) {v : Value ν}
    (hv : v.kind = .closure) {args : List ν}
    (hargs : ∀ a ∈ args, ∃ text, (view a).shape = .atom text) :
    Spares (Eval.call view (eval view limit depth) s p v args) := by
  simp only [Eval.call, hv]
  refine bind ?_ fun c => ?_
  · cases v.closure? with
    | some c => exact pure c
    | none => exact halted _
  · unfold Eval.apply
    split
    · exact halted _
    · exact (arguments depth s hargs).bind fun vs => enter depth c vs

end Spares

end Eval

/-- A call of a bound function with atoms for operands changes no scope. Its head is looked up
before anything else is done, so in the store that it starts with. -/
theorem eval_call_frame {view : ν → Form ν} (limit depth : Nat) {s : Option ScopeId} {m : Machine ν}
    {node head : ν} {args : List ν} {name : String} {v : Value ν}
    (hnode : (view node).shape = .list (head :: args)) (hhead : (view head).shape = .atom name)
    (hargs : ∀ a ∈ args, ∃ text, (view a).shape = .atom text)
    (bound : m.store.lookup s name = some v) (hv : v.kind = .closure) :
    Store.Frame none m.store ((eval view limit depth s node).exec m).2.store := by
  match depth with
  | 0 =>
    simp only [eval, hnode]
    exact .refl _ _
  | 1 =>
    simp only [eval, hnode, Eval.list, hhead]
    exact .refl _ _
  | depth + 2 =>
    have found : (eval view limit (depth + 1) s head).exec m = (.ok v, m) := by
      simp only [eval, hhead]
      change ((Except.ok ((m.store.lookup s name).getD (.ofText name)), m) :
        Except Halt (Value ν) × Machine ν) = _
      rw [bound]
      rfl
    rw [eval, hnode]
    dsimp only [Eval.list]
    rw [Eval.exec_bind_of_ok found]
    exact Eval.Spares.call (depth + 1) s _ hv hargs m

/-! ## Stores with scopes left behind -/

/-- Numbers from `n` on are moved up by `k`. -/
def ScopeId.moved (n k id : Nat) : Nat := if id < n then id else id + k

namespace ScopeId

variable {n k id other : Nat}

theorem moved_of_lt (h : id < n) : moved n k id = id := if_pos h

theorem moved_of_le (h : n ≤ id) : moved n k id = id + k := if_neg (Nat.not_lt_of_le h)

theorem moved_lt_moved : moved n k id < moved n k other ↔ id < other := by
  unfold moved
  split <;> split <;> omega

theorem moved_inj : moved n k id = moved n k other ↔ id = other := by
  unfold moved
  split <;> split <;> omega

end ScopeId

/-- The same value, with the scopes of functions moved up. -/
abbrev Value.Moved (n k : Nat) : Value ν → Value ν → Prop :=
  Value.Rel (· = ·) fun s s' => s' = s.map (ScopeId.moved n k)

/-- A scope that is not moved is moved to itself. -/
theorem ScopeId.map_moved {n k : Nat} {s : Option ScopeId} (h : ∀ p, s = some p → p < n) :
    s = s.map (ScopeId.moved n k) := by
  cases s with
  | none => rfl
  | some p => rw [Option.map_some, moved_of_lt (h p rfl)]

theorem Value.Moved.refl {n k : Nat} {v : Value ν}
    (h : ∀ c p, v.closure? = some c → c.scope = some p → p < n) : v.Moved n k v := by
  obtain ⟨kind, payload⟩ := v
  refine ⟨rfl, ?_⟩
  cases payload with
  | closure c => exact .closure ⟨rfl, rfl, rfl, ScopeId.map_moved fun p => h c p rfl⟩
  | none => exact .none
  | int n => exact .int n
  | text s => exact .text s
  | bool b => exact .bool b

structure Scope.Moved (n k : Nat) (a b : Scope ν) : Prop where
  parent : b.parent = a.parent.map (ScopeId.moved n k)
  bindings : Bindings.Rel (Value.Moved n k) a.bindings b.bindings

/-- The second store has `k` more scopes, which stand behind the first `n` and are not referred
to. -/
structure Store.Moved (n k : Nat) (st st' : Store ν) : Prop where
  old : n ≤ st.scopes.size
  size : st'.scopes.size = st.scopes.size + k
  scope (id : ScopeId) :
    Option.Rel (Scope.Moved n k) st.scopes[id]? st'.scopes[ScopeId.moved n k id]?

namespace Store.Moved

variable {n k : Nat} {st st' : Store ν}

theorem nextId (h : st.Moved n k st') : st'.nextId = ScopeId.moved n k st.nextId := by
  have new := ScopeId.moved_of_le (k := k) h.old
  exact h.size.trans new.symm

theorem create (h : st.Moved n k st') (parent : Option ScopeId) (name : String) :
    (st.create parent name).Moved n k (st'.create (parent.map (ScopeId.moved n k)) name) := by
  refine ⟨?_, ?_, fun id => ?_⟩
  · simp only [Store.create, Array.size_push]
    exact Nat.le_succ_of_le h.old
  · simp only [Store.create, Array.size_push, h.size]
    omega
  · have new : ScopeId.moved n k id = st'.scopes.size ↔ id = st.scopes.size := by
      have next : st'.scopes.size = ScopeId.moved n k st.scopes.size := h.nextId
      rw [next, ScopeId.moved_inj]
    simp only [Store.create, Array.getElem?_push, new]
    split
    · exact .some ⟨rfl, .nil⟩
    · exact h.scope id

theorem define (h : st.Moved n k st') (id : ScopeId) (x : String) {v w : Value ν}
    (hv : v.Moved n k w) :
    (st.define id x v).Moved n k (st'.define (ScopeId.moved n k id) x w) := by
  refine ⟨?_, ?_, fun other => ?_⟩
  · rw [size_define]
    exact h.old
  · rw [size_define, size_define, h.size]
  · simp only [Store.define, Store.modify, Array.getElem?_modify, ScopeId.moved_inj]
    have hs := h.scope other
    split
    · generalize st.scopes[other]? = a at hs ⊢
      generalize st'.scopes[ScopeId.moved n k other]? = b at hs ⊢
      cases hs with
      | none => exact .none
      | some hs => exact .some ⟨hs.parent, hs.bindings.set x hv⟩
    · exact hs

theorem defineAll (h : st.Moved n k st') (id : ScopeId) (xs : List String) {vs ws : List (Value ν)}
    (hvs : List.Forall₂ (Value.Moved n k) vs ws) :
    (st.defineAll id xs vs).Moved n k (st'.defineAll (ScopeId.moved n k id) xs ws) := by
  induction xs generalizing st st' vs ws with
  | nil => exact h
  | cons x xs ih =>
    cases hvs with
    | nil => exact h
    | cons hv hvs => exact ih (h.define id x hv) hvs

theorem lookupFrom (h : st.Moved n k st') (x : String) (id : ScopeId) :
    Option.Rel (Value.Moved n k) (st.lookupFrom x id)
      (st'.lookupFrom x (ScopeId.moved n k id)) := by
  induction id using Nat.strongRecOn with
  | ind id ih =>
    unfold Store.lookupFrom
    have hs := h.scope id
    generalize st.scopes[id]? = a at hs ⊢
    generalize st'.scopes[ScopeId.moved n k id]? = b at hs ⊢
    cases hs with
    | none => exact .none
    | @some a b hs =>
      have hv := hs.bindings.get? x
      simp only [hs.parent]
      generalize a.bindings.get? x = v at hv ⊢
      generalize b.bindings.get? x = w at hv ⊢
      cases hv with
      | some hv => exact .some hv
      | none =>
        cases a.parent with
        | none => exact .none
        | some parent =>
          simp only [Option.map_some, ScopeId.moved_lt_moved]
          split
          · rename_i lt
            exact ih parent lt
          · exact .none

theorem lookup (h : st.Moved n k st') (s : Option ScopeId) (x : String) :
    Option.Rel (Value.Moved n k) (st.lookup s x)
      (st'.lookup (s.map (ScopeId.moved n k)) x) := by
  cases s with
  | none => exact .none
  | some id => exact h.lookupFrom x id

/-- Scopes behind those of a reachable store do not change what it says. -/
theorem of_frame {view : ν → Form ν} (reach : st.Reachable view) (h : Store.Frame none st st') :
    st.Moved st.scopes.size (st'.scopes.size - st.scopes.size) st' := by
  refine ⟨Nat.le_refl _, by have := h.size; omega, fun id => ?_⟩
  by_cases inside : id < st.scopes.size
  · rw [ScopeId.moved_of_lt inside, h.other id inside nofun]
    cases hs : st.scopes[id]? with
    | none => exact .none
    | some s =>
      refine .some ⟨ScopeId.map_moved fun p hp => ?_, List.forall₂_same.mpr fun b hb => ⟨rfl, ?_⟩⟩
      · exact Nat.lt_trans (reach.parent_lt hs hp) inside
      · exact .refl fun c p hc hp => reach.captured_lt hs hb hc hp
  · have outside : st.scopes.size ≤ id := Nat.le_of_not_lt inside
    rw [ScopeId.moved_of_le outside, Array.getElem?_eq_none outside,
      Array.getElem?_eq_none (by have := h.size; omega)]
    exact .none

end Store.Moved

/-! ## Two runs in step -/

namespace Eval

variable {α β γ δ : Type} {n k : Nat} {R : α → β → Prop}

/-- Both runs succeed or both halt for one reason, at stores that differ by the scopes left
behind. -/
inductive Paired (n k : Nat) (R : α → β → Prop) :
    Except Halt α × Machine ν → Except Halt β × Machine ν → Prop
  | ok {a : α} {b : β} {m m' : Machine ν} : R a b → m.store.Moved n k m'.store →
      Paired n k R (.ok a, m) (.ok b, m')
  | error {m m' : Machine ν} (h : Halt) : m.store.Moved n k m'.store →
      Paired n k R (.error h, m) (.error h, m')

def InStep (n k : Nat) (R : α → β → Prop) (x : Eval ν α) (y : Eval ν β) : Prop :=
  ∀ m m' : Machine ν, m.store.Moved n k m'.store → Paired n k R (x.exec m) (y.exec m')

namespace InStep

theorem bind {Q : γ → δ → Prop} {x : Eval ν α} {y : Eval ν β} {f : α → Eval ν γ}
    {g : β → Eval ν δ} (hx : InStep n k R x y) (hf : ∀ a b, R a b → InStep n k Q (f a) (g b)) :
    InStep n k Q (x >>= f) (y >>= g) := by
  intro m m' hm
  have first := hx m m' hm
  generalize hr : x.exec m = r at first
  generalize hr' : y.exec m' = r' at first
  cases first with
  | error h hs =>
    rw [exec_bind_of_error hr, exec_bind_of_error hr']
    exact .error h hs
  | ok hab hs =>
    rw [exec_bind_of_ok hr, exec_bind_of_ok hr']
    exact hf _ _ hab _ _ hs

theorem halted (h : Halt) : InStep n k R (throw h : Eval ν α) (throw h : Eval ν β) :=
  fun _ _ hm => .error h hm

theorem assign (s : Option ScopeId) (x : String) {v w : Value ν} (hv : v.Moved n k w) :
    InStep n k (· = ·) (Eval.assign s x v) (Eval.assign (s.map (ScopeId.moved n k)) x w) := by
  cases s with
  | none => exact halted _
  | some id => exact fun _ _ hm => .ok rfl (hm.define id x hv)

theorem enter {c d : Closure ν}
    (hc : c.Rel (· = ·) (fun s s' => s' = s.map (ScopeId.moved n k)) d) {vs ws : List (Value ν)}
    (hvs : List.Forall₂ (Value.Moved n k) vs ws) :
    InStep n k (fun i j => j = ScopeId.moved n k i) (Eval.enter c vs) (Eval.enter d ws) := by
  intro m m' hm
  refine .ok hm.nextId ?_
  simp only [← hc.name, ← hc.params, hc.scope, hm.nextId]
  exact (hm.create c.scope c.name).defineAll m.store.nextId c.params hvs

theorem atom (s : Option ScopeId) (text : String) :
    InStep n k (Value.Moved (ν := ν) n k) (Eval.atom s text)
      (Eval.atom (s.map (ScopeId.moved n k)) text) := by
  intro m m' hm
  refine .ok ?_ hm
  have hv := hm.lookup s text
  generalize m.store.lookup s text = v at hv ⊢
  generalize m'.store.lookup (s.map (ScopeId.moved n k)) text = w at hv ⊢
  cases hv with
  | none => exact .ofText text
  | some hv => exact hv

theorem congruence (view : ν → Form ν) {ev : Evaluator ν}
    (h : ∀ s a, InStep n k (Value.Moved n k) (ev s a) (ev (s.map (ScopeId.moved n k)) a))
    (s : Option ScopeId) :
    Congruence ⟨(· = ·), fun s s' => s' = s.map (ScopeId.moved n k), (· = ·), InStep n k⟩ view ev ev
      s (s.map (ScopeId.moved n k)) where
  here := rfl
  shape hab := by subst hab; exact .refl (fun _ => rfl) _
  place hab := by rw [hab]
  pure hab _ _ hm := .ok hab hm
  bind := InStep.bind
  fail cause hp := by subst hp; exact halted _
  fault f := halted _
  eval hab := by subst hab; exact h s _
  assign x hv := InStep.assign s x hv
  call hc hvs := by
    refine (InStep.enter hc hvs).bind fun i j hj => ?_
    subst hj
    rw [← hc.body]
    exact h (some i) _

end InStep

/-- Scopes that are left behind make no difference to evaluation. -/
theorem eval_inStep (view : ν → Form ν) (limit depth : Nat) (s : Option ScopeId) (a : ν) :
    InStep n k (Value.Moved n k) (eval view limit depth s a)
      (eval view limit depth (s.map (ScopeId.moved n k)) a) := by
  induction depth generalizing s a with
  | zero =>
    simp only [eval]
    split
    · exact InStep.halted _
    · exact InStep.halted _
  | succ depth ih =>
    simp only [eval]
    split
    · exact InStep.halted _
    · exact InStep.halted _
    · exact InStep.atom s _
    · exact (InStep.congruence view ih s).list rfl (List.forall₂_same.mpr fun _ _ => rfl)

end Eval

/-- A call of a bound function with atoms for operands can be repeated. It leaves every scope that
there was as it is, and a second time it comes to the same: to values of one kind that print the
same, or to a halt for the same reason, at the same place. -/
theorem run_call_twice (view : ν → Form ν) (st : Store ν) (reach : st.Reachable view)
    (scope : ScopeId) (inside : scope < st.scopes.size) (node head : ν) (args : List ν)
    (name : String) (v : Value ν) (hnode : (view node).shape = .list (head :: args))
    (hhead : (view head).shape = .atom name)
    (hargs : ∀ a ∈ args, ∃ text, (view a).shape = .atom text)
    (bound : st.lookup (some scope) name = some v) (hv : v.kind = .closure) (limit : Int) :
    let first := run view limit (some scope) node st
    let second := run view limit (some scope) node first.2.store
    (∀ id, id < st.scopes.size → first.2.store.scopes[id]? = st.scopes[id]?) ∧
    ((∃ v w, first.1 = .ok v ∧ second.1 = .ok w ∧ v.kind = w.kind ∧ v.render? = w.render?) ∨
      ∃ h, first.1 = .error h ∧ second.1 = .error h) := by
  have frame : Store.Frame none st (run view limit (some scope) node st).2.store :=
    eval_call_frame _ _ (m := ⟨st, #[]⟩) hnode hhead hargs bound hv
  refine ⟨fun id old => frame.other id old nofun, ?_⟩
  -- The second run starts from the first store with the scopes of the first call left behind.
  have pair := Eval.eval_inStep view (effectiveLimit limit) (effectiveLimit limit) (some scope) node
    ⟨st, #[]⟩ ⟨_, #[]⟩ (Store.Moved.of_frame reach frame)
  rw [Option.map_some, ScopeId.moved_of_lt inside] at pair
  change Eval.Paired _ _ _ (run view limit (some scope) node st)
    (run view limit (some scope) node (run view limit (some scope) node st).2.store) at pair
  generalize run view limit (some scope) node (run view limit (some scope) node st).2.store = r'
    at pair ⊢
  generalize run view limit (some scope) node st = r at pair ⊢
  cases pair with
  | @ok v w _ _ hvw => exact .inl ⟨v, w, rfl, rfl, hvw.kind, hvw.render?⟩
  | error h => exact .inr ⟨h, rfl, rfl⟩

/-- `(define (make n) (define (inner) n))`, a function that makes functions. -/
def Tree.maker : Tree :=
  .list none [.atom none "define", .list none [.atom none "make", .atom none "n"],
    .list none [.atom none "define", .list none [.atom none "inner"], .atom none "n"]]

/-- `(make 3)`. -/
def Tree.making : Tree := .list none [.atom none "make", .atom none "3"]

/-- The store after `Tree.maker`. -/
def Store.withMaker : Store Tree :=
  ⟨#[⟨"root", none, [("make", .ofClosure ⟨"make", ["n"], .list none [.atom none "define",
    .list none [.atom none "inner"], .atom none "n"], some 0⟩)]⟩]⟩

theorem Store.withMaker_reachable : Store.withMaker.Reachable Tree.form := by
  have built : ((Interpreter.new 5).evalAll [.maker]).interpreter.store = .withMaker := by
    with_unfolding_all rfl
  rw [← built]
  exact ((Interpreter.Reachable.new 5).evalAll [.maker]).store

theorem run_call_twice_making :
    let first := run Tree.form 5 (some 0) .making .withMaker
    let second := run Tree.form 5 (some 0) .making first.2.store
    Store.withMaker.Reachable Tree.form ∧
    (∀ id, id < 1 → first.2.store.scopes[id]? = Store.withMaker.scopes[id]?) ∧
    ∃ v w, first.1 = .ok v ∧ second.1 = .ok w ∧ v.kind = w.kind ∧ v.render? = w.render? := by
  have ends : (run Tree.form 5 (some 0) .making .withMaker).1 =
      .ok (.ofClosure ⟨"inner", [], .atom none "n", some 1⟩) := by
    with_unfolding_all rfl
  have found : Store.withMaker.lookup (some 0) "make" = some (.ofClosure ⟨"make", ["n"],
      .list none [.atom none "define", .list none [.atom none "inner"], .atom none "n"],
      some 0⟩) := by
    with_unfolding_all rfl
  obtain ⟨kept, ⟨v, w, same⟩ | ⟨h, failed, -⟩⟩ := run_call_twice Tree.form .withMaker
    Store.withMaker_reachable 0 Nat.zero_lt_one .making (.atom none "make") [.atom none "3"] "make"
    _ rfl rfl (by simp [Tree.form, Tree.shape]) found rfl 5
  · exact ⟨Store.withMaker_reachable, kept, v, w, same⟩
  · rw [ends] at failed
    cases failed

end Lisplet
