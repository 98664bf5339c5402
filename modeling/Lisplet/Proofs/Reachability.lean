import Lisplet.Interpreter
import Lisplet.Proofs.Invariant

/-! The stores that can come about, and what holds of all of them: whatever is referred to exists.
Scopes are nested in older ones, and functions were defined in scopes of the store. -/
namespace Lisplet

variable {ν : Type}

/-- Stores built by making scopes, naming them, binding names to values from outside, and evaluating
expressions. A function from outside has to name a scope that there is. -/
inductive Store.Reachable (view : ν → Form ν) : Store ν → Prop
  | empty : Reachable view .empty
  | create {st : Store ν} {parent : Option ScopeId} (name : String) : Reachable view st →
      (∀ p, parent = some p → p < st.scopes.size) → Reachable view (st.create parent name)
  | rename {st : Store ν} (id : ScopeId) (name : String) : Reachable view st →
      Reachable view (st.rename id name)
  | define {st : Store ν} (id : ScopeId) (x : String) {v : Value ν} : Reachable view st →
      (∀ c p, v.closure? = some c → c.scope = some p → p < st.scopes.size) →
      Reachable view (st.define id x v)
  | run {st : Store ν} {scope : Option ScopeId} (limit : Int) (node : ν) : Reachable view st →
      (∀ id, scope = some id → id < st.scopes.size) →
      Reachable view (Lisplet.run view limit scope node st).2.store

/-- Scopes are referred to once they exist, and nothing else is asked for. -/
def Demands.closed : Demands ν := ⟨fun _ => True, fun _ => True, fun n id => id < n, fun _ => True⟩

theorem Demands.closed_lawful (view : ν → Form ν) : (Demands.closed : Demands ν).Lawful view 0 where
  item _ _ _ := trivial
  absent _ _ := trivial
  blank _ _ := trivial
  mistyped _ _ := trivial
  ofInt _ := trivial
  ofBool _ := trivial
  nil := trivial
  ofText _ := trivial
  ofClosure _ := trivial
  body _ _ := trivial
  grow hn hid := Nat.lt_of_lt_of_le hid hn
  fresh _ := Nat.lt_succ_self _
  settled hid := (Nat.lt_succ_iff_lt_or_eq.mp hid).symm

theorem Demands.Usable.closed {n : Nat} {scope : Option ScopeId}
    (h : ∀ id, scope = some id → id < n) : (Demands.closed : Demands ν).Usable n scope := by
  cases scope with
  | none => trivial
  | some id => exact h id rfl

namespace Store

variable {view : ν → Form ν} {st : Store ν}

theorem Meets.rename {Q : Demands ν} (h : st.Meets Q) (id : ScopeId) (name : String) :
    (st.rename id name).Meets Q := by
  have size : (st.rename id name).scopes.size = st.scopes.size := by
    simp only [Store.rename, modify, Array.size_modify]
  intro k s hk hs
  rw [size] at hk ⊢
  simp only [Store.rename, modify, Array.getElem?_modify] at hs
  split at hs
  · obtain ⟨s₀, before, rfl⟩ := Option.map_eq_some_iff.mp hs
    have old := h k s₀ hk before
    exact ⟨old.parent, old.binding⟩
  · exact h k s hk hs

theorem Meets.run (view : ν → Form ν) (h : st.Meets .closed) {scope : Option ScopeId}
    (hs : ∀ id, scope = some id → id < st.scopes.size) (limit : Int) (node : ν) :
    Demands.closed.Ends 0 (fun n v => v.Meets .closed n) ⟨st, #[]⟩
      (Lisplet.run view limit scope node st) := by
  have usable : (Demands.closed : Demands ν).Usable st.scopes.size scope := .closed hs
  have start : Machine.Meets .closed 0 ⟨st, #[]⟩ := ⟨Nat.zero_le _, h, nofun⟩
  exact (Demands.closed_lawful view).eval_ends _ _ start usable trivial

theorem Reachable.closed (h : st.Reachable view) : st.Meets .closed := by
  induction h with
  | empty => exact fun _ _ hid => absurd hid (Nat.not_lt_zero _)
  | create name _ hp ih => exact ih.create (Demands.closed_lawful view) hp name
  | rename id name _ ih => exact ih.rename id name
  | define id x _ hv ih => exact ih.define id x ⟨trivial, fun hc hp => hv _ _ hc hp⟩
  | run limit node _ hs ih => exact (ih.run view hs limit node).meets.store

section
variable {id p : ScopeId} {s : Scope ν} {b : String × Value ν} {c : Closure ν}

theorem Meets.parent_lt (h : st.Meets .closed) (hs : st.scopes[id]? = some s)
    (hp : s.parent = some p) : p < id := by
  obtain ⟨inside, -⟩ := Array.getElem?_eq_some_iff.mp hs
  exact (h id s inside hs).parent hp

theorem Meets.captured_lt (h : st.Meets .closed) (hs : st.scopes[id]? = some s)
    (hb : b ∈ s.bindings) (hc : b.2.closure? = some c) (hp : c.scope = some p) :
    p < st.scopes.size := by
  obtain ⟨inside, -⟩ := Array.getElem?_eq_some_iff.mp hs
  exact ((h id s inside hs).binding b hb).scope hc hp

/-- In a reachable store a scope is nested in an older one. -/
theorem Reachable.parent_lt (h : st.Reachable view) (hs : st.scopes[id]? = some s)
    (hp : s.parent = some p) : p < id := h.closed.parent_lt hs hp

/-- In a reachable store a function that is bound was defined in a scope that there is. -/
theorem Reachable.captured_lt (h : st.Reachable view) (hs : st.scopes[id]? = some s)
    (hb : b ∈ s.bindings) (hc : b.2.closure? = some c) (hp : c.scope = some p) :
    p < st.scopes.size := h.closed.captured_lt hs hb hc hp

end

end Store

namespace Interpreter

/-- The root scope exists in a store that can have come about. -/
structure Reachable (i : Interpreter) : Prop where
  store : i.store.Reachable Tree.form
  root : i.root < i.store.scopes.size

theorem Reachable.new (limit : Int) : (Interpreter.new limit).Reachable :=
  ⟨.create _ .empty nofun, Nat.zero_lt_one⟩

theorem Reachable.evalAll {i : Interpreter} (h : i.Reachable) (ts : List Tree) :
    (i.evalAll ts).interpreter.Reachable := by
  induction ts generalizing i with
  | nil => exact h
  | cons t ts ih =>
    have root : ∀ id, some i.root = some id → id < i.store.scopes.size := by
      rintro _ ⟨rfl⟩
      exact h.root
    have grown := (h.store.closed.run Tree.form root i.limit t).grows
    have next : (i.evalTree t).2.2.Reachable :=
      ⟨.run i.limit t h.store root, Nat.lt_of_lt_of_le h.root grown⟩
    unfold Interpreter.evalAll
    generalize i.evalTree t = r at next ⊢
    obtain ⟨e | v, es, j⟩ := r
    · exact next
    · exact ih next

end Interpreter

end Lisplet
