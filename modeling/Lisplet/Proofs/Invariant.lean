import Lisplet.Proofs.History

/-! What evaluation keeps true of a store. `Demands` are made on the values in it and on the scopes
that these refer to. A run takes a machine that meets them to one that does, it gives a value that
does, and it faults only where the demands allow for it. -/
namespace Lisplet

variable {ν : Type}

/-- What is asked of nodes and of values, which scopes may be referred to where there are so many,
and which faults this does not rule out. -/
structure Demands (ν : Type) where
  node : ν → Prop
  value : Value ν → Prop
  scope : Nat → ScopeId → Prop
  fault : Fault → Prop

/-- Demands that hold of all that evaluation makes, once there are as many scopes as at the
start. -/
structure Demands.Lawful (Q : Demands ν) (view : ν → Form ν) (start : Nat) : Prop where
  item {a b : ν} {items : List ν} : Q.node a → (view a).shape = .list items → b ∈ items → Q.node b
  absent {a : ν} : Q.node a → (view a).shape = .absent → Q.fault .missing
  blank {a : ν} : Q.node a → (view a).shape = .blank → Q.fault .unevaluable
  mistyped {v : Value ν} : Q.value v → ¬v.WellTyped → Q.fault .mistyped
  ofInt (n : Int32) : Q.value (.ofInt n)
  ofBool (b : Bool) : Q.value (.ofBool b)
  nil : Q.value .nil
  ofText (text : String) : Q.value (.ofText text)
  ofClosure {c : Closure ν} : Q.node c.body → Q.value (.ofClosure c)
  body {v : Value ν} {c : Closure ν} : Q.value v → v.closure? = some c → Q.node c.body
  grow {n n' : Nat} {id : ScopeId} : n ≤ n' → Q.scope n id → Q.scope n' id
  fresh {n : Nat} : start ≤ n → Q.scope (n + 1) n
  settled {n : Nat} {id : ScopeId} : Q.scope (n + 1) id → id = n ∨ Q.scope n id

structure Value.Meets (Q : Demands ν) (n : Nat) (v : Value ν) : Prop where
  value : Q.value v
  scope {c : Closure ν} {id : ScopeId} : v.closure? = some c → c.scope = some id → Q.scope n id

/-- The scope `id` is nested in one that could be referred to before it was made. -/
structure Scope.Meets (Q : Demands ν) (n : Nat) (id : ScopeId) (s : Scope ν) : Prop where
  parent {p : ScopeId} : s.parent = some p → Q.scope id p
  binding : ∀ b ∈ s.bindings, b.2.Meets Q n

def Store.Meets (Q : Demands ν) (st : Store ν) : Prop :=
  ∀ (id : ScopeId) (s : Scope ν), Q.scope st.scopes.size id → st.scopes[id]? = some s →
    s.Meets Q st.scopes.size id

def Event.values : Event ν → List (Value ν)
  | .define _ _ v => [v]
  | .apply _ vs => vs

structure Machine.Meets (Q : Demands ν) (start : Nat) (m : Machine ν) : Prop where
  start : start ≤ m.store.scopes.size
  store : m.store.Meets Q
  trace : ∀ e ∈ m.trace.toList, ∀ v ∈ e.values, v.Meets Q m.store.scopes.size

/-- A scope in which evaluation can go on. Without one nothing can be bound. -/
def Demands.Usable (Q : Demands ν) (n : Nat) : Option ScopeId → Prop
  | some id => Q.scope n id
  | none => Q.fault .missing

section
variable {Q : Demands ν} {view : ν → Form ν} {start n n' : Nat} (law : Q.Lawful view start)
include law

theorem Value.Meets.grow {v : Value ν} (h : v.Meets Q n) (hn : n ≤ n') : v.Meets Q n' :=
  ⟨h.value, fun hc hid => law.grow hn (h.scope hc hid)⟩

theorem Value.Meets.ofText (n : Nat) (text : String) :
    (Value.ofText text : Value ν).Meets Q n := by
  refine ⟨law.ofText text, fun {c id} hc _ => ?_⟩
  unfold Value.ofText at hc
  split at hc <;> cases hc

theorem Demands.Usable.grow {s : Option ScopeId} (h : Q.Usable n s) (hn : n ≤ n') :
    Q.Usable n' s := by
  cases s with
  | none => exact h
  | some id => exact law.grow hn h

end

theorem Bindings.mem_set {α : Type} {bs : Bindings α} {x : String} {a : α} {b : String × α}
    (h : b ∈ bs.set x a) : b = (x, a) ∨ b ∈ bs := by
  induction bs with
  | nil => exact .inl (List.mem_singleton.mp h)
  | cons c bs ih =>
    obtain ⟨y, c⟩ := c
    unfold Bindings.set at h
    split at h
    · rcases List.mem_cons.mp h with rfl | h
      · exact .inl rfl
      · exact .inr (.tail _ h)
    · rcases List.mem_cons.mp h with rfl | h
      · exact .inr List.mem_cons_self
      · exact (ih h).imp_right (.tail _)

theorem Bindings.mem_of_get? {α : Type} {bs : Bindings α} {x : String} {a : α}
    (h : bs.get? x = some a) : (x, a) ∈ bs := by
  induction bs with
  | nil => cases h
  | cons b bs ih =>
    obtain ⟨y, b⟩ := b
    unfold Bindings.get? at h
    split at h
    · rename_i hy
      subst hy
      cases h
      exact List.mem_cons_self
    · exact .tail _ (ih h)

namespace Store.Meets

variable {Q : Demands ν} {view : ν → Form ν} {start : Nat} {st : Store ν}

theorem define (h : st.Meets Q) (id : ScopeId) (x : String) {v : Value ν}
    (hv : v.Meets Q st.scopes.size) : (st.define id x v).Meets Q := by
  intro k s hk hs
  rw [size_define] at hk ⊢
  by_cases own : k = id
  · subst own
    cases before : st.scopes[k]? with
    | none =>
      simp only [Store.define, Store.modify, Array.getElem?_modify, if_true, before] at hs
      cases hs
    | some s₀ =>
      rw [scopes_define_self x v before] at hs
      cases hs
      have old := h k s₀ hk before
      refine ⟨old.parent, fun b hb => ?_⟩
      rcases Bindings.mem_set hb with rfl | hb
      · exact hv
      · exact old.binding b hb
  · rw [scopes_define_ne x v own] at hs
    exact h k s hk hs

theorem defineAll (h : st.Meets Q) (id : ScopeId) (xs : List String) {vs : List (Value ν)}
    (hvs : ∀ v ∈ vs, v.Meets Q st.scopes.size) : (st.defineAll id xs vs).Meets Q := by
  induction xs generalizing st vs with
  | nil => exact h
  | cons x xs ih =>
    cases vs with
    | nil => exact h
    | cons v vs =>
      obtain ⟨hv, hvs⟩ := List.forall_mem_cons.mp hvs
      refine ih (h.define id x hv) ?_
      rw [size_define]
      exact hvs

theorem create (law : Q.Lawful view start) (h : st.Meets Q) {parent : Option ScopeId}
    (hp : ∀ p, parent = some p → Q.scope st.scopes.size p) (name : String) :
    (st.create parent name).Meets Q := by
  intro id s hid hs
  simp only [Store.create, Array.size_push] at hid ⊢
  by_cases new : id = st.scopes.size
  · subst new
    simp only [Store.create, Array.getElem?_push, if_true] at hs
    cases hs
    exact ⟨fun hpar => hp _ hpar, fun b hb => absurd hb List.not_mem_nil⟩
  · have old : Q.scope st.scopes.size id := (law.settled hid).resolve_left new
    simp only [Store.create, Array.getElem?_push, if_neg new] at hs
    have before := h id s old hs
    exact ⟨before.parent, fun b hb => (before.binding b hb).grow law (Nat.le_succ _)⟩

theorem lookupFrom (law : Q.Lawful view start) (h : st.Meets Q) {x : String} {id : ScopeId}
    (hid : Q.scope st.scopes.size id) {v : Value ν} (hv : st.lookupFrom x id = some v) :
    v.Meets Q st.scopes.size := by
  induction id using Nat.strongRecOn with
  | ind id ih =>
    unfold Store.lookupFrom at hv
    cases hs : st.scopes[id]? with
    | none =>
      rw [hs] at hv
      cases hv
    | some s =>
      have own := h id s hid hs
      simp only [hs] at hv
      cases hb : s.bindings.get? x with
      | some w =>
        simp only [hb] at hv
        cases hv
        exact own.binding _ (Bindings.mem_of_get? hb)
      | none =>
        cases hp : s.parent with
        | none =>
          simp only [hb, hp] at hv
          cases hv
        | some p =>
          simp only [hb, hp] at hv
          split at hv
          · rename_i lt
            -- The parent could be referred to when the scope was made, so it can be now.
            have inside : id < st.scopes.size := (Array.getElem?_eq_some_iff.mp hs).1
            exact ih p lt (law.grow (Nat.le_of_lt inside) (own.parent hp)) hv
          · cases hv

end Store.Meets

namespace Machine.Meets

variable {Q : Demands ν} {view : ν → Form ν} {start : Nat} {m : Machine ν}

theorem bind (h : m.Meets Q start) (id : ScopeId) (x : String) {v : Value ν}
    (hv : v.Meets Q m.store.scopes.size) : (m.bind id x v).Meets Q start := by
  have same : (m.bind id x v).store.scopes.size = m.store.scopes.size := m.store.size_define id x v
  refine ⟨same ▸ h.start, h.store.define id x hv, fun e he w hw => ?_⟩
  rw [same]
  change e ∈ (m.trace.push _).toList at he
  rw [Array.toList_push] at he
  rcases List.mem_append.mp he with he | he
  · exact h.trace e he w hw
  · cases List.mem_singleton.mp he
    cases List.mem_singleton.mp hw
    exact hv

theorem enter (law : Q.Lawful view start) (h : m.Meets Q start) {c : Closure ν}
    (hc : ∀ p, c.scope = some p → Q.scope m.store.scopes.size p) {vs : List (Value ν)}
    (hvs : ∀ v ∈ vs, v.Meets Q m.store.scopes.size) : (m.enter c vs).Meets Q start := by
  have size := m.size_enter c vs
  have later : ∀ v ∈ vs, v.Meets Q (m.store.scopes.size + 1) := fun v hv =>
    (hvs v hv).grow law (Nat.le_succ _)
  refine ⟨?_, ?_, fun e he w hw => ?_⟩
  · rw [size]
    exact Nat.le_succ_of_le h.start
  · refine (h.store.create law hc c.name).defineAll _ _ ?_
    simp only [Store.create, Array.size_push]
    exact later
  · rw [size]
    change e ∈ (m.trace.push _).toList at he
    rw [Array.toList_push] at he
    rcases List.mem_append.mp he with he | he
    · exact (h.trace e he w hw).grow law (Nat.le_succ _)
    · cases List.mem_singleton.mp he
      exact later w hw

end Machine.Meets

/-- How a run from `m` may end. -/
structure Demands.Ends (Q : Demands ν) (start : Nat) {α : Type} (R : Nat → α → Prop)
    (m : Machine ν) (r : Except Halt α × Machine ν) : Prop where
  grows : m.store.scopes.size ≤ r.2.store.scopes.size
  meets : r.2.Meets Q start
  value {a : α} : r.1 = .ok a → R r.2.store.scopes.size a
  fault {f : Fault} : r.1 = .error (.fault f) → Q.fault f

/-- A value as demanded, given by the same run. -/
abbrev Demands.Result (Q : Demands ν) (n : Nat) (v w : Value ν) : Prop := v.Meets Q n ∧ v = w

namespace Eval

variable {Q : Demands ν} {view : ν → Form ν} {start n : Nat} {α β γ δ : Type}

/-- Run where there are `n` scopes, `x` ends as demanded. The second computation only tells which
results are possible. -/
structure Kept (Q : Demands ν) (start n : Nat) (R : Nat → α → β → Prop) (x : Eval ν α)
    (_ : Eval ν β) : Prop where
  ends {m : Machine ν} : m.store.scopes.size = n → m.Meets Q start →
    Q.Ends start (fun k a => ∃ b, R k a b) m (x.exec m)

namespace Kept

theorem bind {R : Nat → α → β → Prop} {T : Nat → γ → δ → Prop} {x : Eval ν α} {y : Eval ν β}
    {f : α → Eval ν γ} {g : β → Eval ν δ} (hx : Kept Q start n R x y)
    (hf : ∀ k a b, n ≤ k → R k a b → Kept Q start k T (f a) (g b)) :
    Kept Q start n T (x >>= f) (y >>= g) := by
  constructor
  intro m hn hm
  have first := hx.ends hn hm
  obtain ⟨e, m₁, hr, hb⟩ | ⟨a, m₁, hr, hb⟩ := exec_bind_cases x f m
  · rw [hr] at first
    rw [hb]
    refine ⟨first.grows, first.meets, fun h => (by cases h), fun h => first.fault ?_⟩
    cases h
    rfl
  · rw [hr] at first
    rw [hb]
    obtain ⟨b, hab⟩ := first.value rfl
    have rest := (hf _ a b (hn ▸ first.grows) hab).ends rfl first.meets
    exact ⟨Nat.le_trans first.grows rest.grows, rest.meets, rest.value, rest.fault⟩

theorem pure {R : Nat → α → β → Prop} {a : α} {b : β} (h : R n a b) :
    Kept Q start n R (Pure.pure a : Eval ν α) (Pure.pure b) := by
  constructor
  intro m hn hm
  subst hn
  refine ⟨Nat.le_refl _, hm, fun e => ?_, fun e => (by cases e)⟩
  cases e
  exact ⟨b, h⟩

/-- A run that ends at once, by an error or by a fault that is allowed for. -/
theorem halted {R : Nat → α → β → Prop} {h : Halt} (allowed : ∀ f, h = .fault f → Q.fault f)
    (y : Eval ν β) : Kept Q start n R (throw h : Eval ν α) y := by
  constructor
  intro m _ hm
  refine ⟨Nat.le_refl _, hm, fun e => (by cases e), fun {f} e => allowed f ?_⟩
  cases e
  rfl

theorem assign {s : Option ScopeId} (hs : Q.Usable n s) (x : String) {v : Value ν}
    (hv : v.Meets Q n) (y : Eval ν Unit) :
    Kept Q start n (fun _ => (· = ·)) (Eval.assign s x v) y := by
  cases s with
  | none => exact halted (fun f e => by cases e; exact hs) y
  | some id =>
    constructor
    intro m hn hm
    subst hn
    have same := m.store.size_define id x v
    exact ⟨Nat.le_of_eq same.symm, hm.bind id x hv, fun {u} _ => ⟨u, rfl⟩, fun e => (by cases e)⟩

theorem atom (law : Q.Lawful view start) {s : Option ScopeId} (hs : Q.Usable n s) (text : String) :
    Kept Q start n Q.Result (Eval.atom s text) (Eval.atom s text) := by
  constructor
  intro m hn hm
  subst hn
  refine ⟨Nat.le_refl _, hm, fun {v} hv => ⟨v, ?_, rfl⟩, fun e => (by cases e)⟩
  cases hv
  cases found : m.store.lookup s text with
  | none => exact .ofText law _ text
  | some w =>
    cases s with
    | none => cases found
    | some id => exact hm.store.lookupFrom law hs found

/-- One level further out. -/
theorem laws (law : Q.Lawful view start) {ev : Evaluator ν}
    (h : ∀ {n s a}, Q.Usable n s → Q.node a → Kept Q start n Q.Result (ev s a) (ev s a))
    {s : Option ScopeId} (hs : Q.Usable n s) :
    Staged.Laws ⟨(· ≤ ·), fun a b => Q.node a ∧ a = b, fun _ _ => True, Q.Result, Kept Q start⟩
      view ev ev s s n where
  shape {a _} := by
    rintro ⟨ha, rfl⟩
    cases hs : (view a).shape with
    | absent => exact .absent
    | blank => exact .blank
    | atom text => exact .atom text
    | list items =>
      exact .list (List.forall₂_same.mpr fun b hb => ⟨law.item ha hs hb, rfl⟩)
  place _ := trivial
  trans := Nat.le_trans
  like := by
    rintro _ v _ ⟨-, rfl⟩
    exact .refl (fun _ => trivial) (fun _ => trivial) v
  mono hk := fun ⟨hv, same⟩ => ⟨hv.grow law hk, same⟩
  ofInt _ k := ⟨⟨law.ofInt k, nofun⟩, rfl⟩
  ofBool _ b := ⟨⟨law.ofBool b, nofun⟩, rfl⟩
  nil _ := ⟨⟨law.nil, nofun⟩, rfl⟩
  ofClosure name params hk := by
    rintro ⟨ha, rfl⟩
    refine ⟨⟨law.ofClosure ha, fun hc hid => ?_⟩, rfl⟩
    cases hc
    dsimp only at hid
    subst hid
    exact hs.grow law hk
  pure := Kept.pure
  bind := Kept.bind
  fail _ _ := halted (fun _ e => by cases e) _
  absent := fun ⟨ha, _⟩ none => halted (fun _ e => by cases e; exact law.absent ha none) _
  mistyped := fun ⟨hv, _⟩ wrong =>
    halted (fun _ e => by cases e; exact law.mistyped hv.value wrong) _
  eval hk := by
    rintro ⟨ha, rfl⟩
    exact h (hs.grow law hk) ha
  assign hk _ _ := by
    rintro ⟨hv, rfl⟩
    exact Kept.assign (hs.grow law hk) _ hv _
  call := by
    rintro k v _ c d vs ws - ⟨hv, rfl⟩ hc - hvs
    constructor
    intro m hm meets
    subst hm
    have each : ∀ w ∈ vs, w.Meets Q m.store.scopes.size :=
      ((List.forall₂_and_left _ _).mp hvs).1
    -- The body runs where there is one scope more, its own.
    have entered := meets.enter law (c := c) (fun p hp => hv.scope hc hp) each
    have body := (h (s := some m.store.nextId) (law.fresh meets.start) (law.body hv.value hc)).ends
      (m.size_enter c vs) entered
    refine ⟨?_, body.meets, body.value, body.fault⟩
    have grown := body.grows
    rw [m.size_enter] at grown
    exact Nat.le_trans (Nat.le_succ _) grown

end Kept

theorem eval_kept (law : Q.Lawful view start) (limit depth : Nat) {s : Option ScopeId}
    (hs : Q.Usable n s) {a : ν} (ha : Q.node a) :
    Kept Q start n Q.Result (eval view limit depth s a) (eval view limit depth s a) := by
  induction depth generalizing n s a with
  | zero =>
    simp only [eval]
    split
    · rename_i none
      exact Kept.halted (fun _ e => by cases e; exact law.absent ha none) _
    · exact Kept.halted (fun _ e => by cases e) _
  | succ depth ih =>
    simp only [eval]
    split
    · rename_i none
      exact Kept.halted (fun _ e => by cases e; exact law.absent ha none) _
    · rename_i blank
      exact Kept.halted (fun _ e => by cases e; exact law.blank ha blank) _
    · exact Kept.atom law hs _
    · rename_i items shape
      exact (Kept.laws law (fun hs ha => ih hs ha) hs).list (Nat.le_refl n) trivial
        (List.forall₂_same.mpr fun b hb => ⟨law.item ha shape hb, rfl⟩)

end Eval

/-- Evaluation in a usable scope ends as demanded, whether it succeeds or fails. -/
theorem Demands.Lawful.eval_ends {Q : Demands ν} {view : ν → Form ν} {start : Nat}
    (law : Q.Lawful view start) (limit depth : Nat) {m : Machine ν} (hm : m.Meets Q start)
    {s : Option ScopeId} (hs : Q.Usable m.store.scopes.size s) {a : ν} (ha : Q.node a) :
    Q.Ends start (fun n v => v.Meets Q n) m ((eval view limit depth s a).exec m) := by
  have ends := (Eval.eval_kept law limit depth hs ha).ends rfl hm
  refine ⟨ends.grows, ends.meets, fun hv => ?_, ends.fault⟩
  obtain ⟨_, meets, -⟩ := ends.value hv
  exact meets

end Lisplet
