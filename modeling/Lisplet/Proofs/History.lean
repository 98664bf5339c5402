import Lisplet.Proofs.Congruence

/-! What evaluation does to a machine. In its own scope it binds names, and it makes calls, each of
which does the same in a new scope: a `History` is that and nothing else. Every evaluation has one,
so what a history leaves alone no evaluation changes. -/
namespace Lisplet

variable {ν : Type}

namespace Store

variable {st : Store ν} {id other : ScopeId}

theorem size_define (st : Store ν) (id : ScopeId) (x : String) (v : Value ν) :
    (st.define id x v).scopes.size = st.scopes.size := by
  simp only [define, modify, Array.size_modify]

theorem scopes_define_ne (x : String) (v : Value ν) (h : other ≠ id) :
    (st.define id x v).scopes[other]? = st.scopes[other]? := by
  simp only [define, modify, Array.getElem?_modify, if_neg (Ne.symm h)]

theorem scopes_define_self (x : String) (v : Value ν) {s : Scope ν} (h : st.scopes[id]? = some s) :
    (st.define id x v).scopes[id]? = some { s with bindings := s.bindings.set x v } := by
  simp only [define, modify, Array.getElem?_modify, if_true, h, Option.map_some]

theorem size_defineAll (st : Store ν) (id : ScopeId) (xs : List String) (vs : List (Value ν)) :
    (st.defineAll id xs vs).scopes.size = st.scopes.size := by
  fun_induction defineAll st id xs vs with
  | case1 st x xs v vs ih => rw [ih, size_define]
  | case2 => rfl

theorem scopes_defineAll_ne (xs : List String) (vs : List (Value ν)) (h : other ≠ id) :
    (st.defineAll id xs vs).scopes[other]? = st.scopes[other]? := by
  fun_induction defineAll st id xs vs with
  | case1 st x xs v vs ih => rw [ih, scopes_define_ne x v h]
  | case2 => rfl

theorem scopes_create_lt (parent : Option ScopeId) (name : String) (h : id < st.scopes.size) :
    (st.create parent name).scopes[id]? = st.scopes[id]? := by
  simp only [create, Array.getElem?_push, if_neg (Nat.ne_of_lt h)]

/-- Binding the parameters of a call one by one is what its event says. -/
theorem defineAll_eq_foldl (st : Store ν) (id : ScopeId) (xs : List String)
    (vs : List (Value ν)) :
    st.defineAll id xs vs = (xs.zip vs).foldl (fun st (x, v) => st.define id x v) st := by
  induction xs generalizing st vs with
  | nil => rfl
  | cons x xs ih =>
    cases vs with
    | nil => rfl
    | cons v vs => exact ih (st.define id x v) vs

end Store

def Event.isApply : Event ν → Bool
  | .apply _ _ => true
  | .define _ _ _ => false

namespace Store

theorem size_replay (st : Store ν) (e : Event ν) :
    (st.replay e).scopes.size = st.scopes.size + [e].countP Event.isApply := by
  cases e with
  | define id x v => exact size_define st id x v
  | apply c vs =>
    rw [replay, ← defineAll_eq_foldl, size_defineAll]
    exact Array.size_push _

/-- Every call makes one scope, and nothing else makes any. -/
theorem size_foldl_replay (st : Store ν) (events : List (Event ν)) :
    (events.foldl replay st).scopes.size = st.scopes.size + events.countP Event.isApply := by
  induction events generalizing st with
  | nil => rfl
  | cons e events ih =>
    rw [List.foldl_cons, ih, size_replay, Nat.add_assoc, ← List.countP_append,
      List.singleton_append]

end Store

namespace Machine

def bind (m : Machine ν) (id : ScopeId) (x : String) (v : Value ν) : Machine ν :=
  ⟨m.store.define id x v, m.trace.push (.define id x v)⟩

def enter (m : Machine ν) (c : Closure ν) (vs : List (Value ν)) : Machine ν :=
  ⟨(m.store.create c.scope c.name).defineAll m.store.nextId c.params vs, m.trace.push (.apply c vs)⟩

theorem size_enter (m : Machine ν) (c : Closure ν) (vs : List (Value ν)) :
    (m.enter c vs).store.scopes.size = m.store.scopes.size + 1 := by
  simp only [enter, Store.size_defineAll, Store.create, Array.size_push]

theorem scopes_enter_lt (m : Machine ν) (c : Closure ν) (vs : List (Value ν)) {id : ScopeId}
    (h : id < m.store.scopes.size) :
    (m.enter c vs).store.scopes[id]? = m.store.scopes[id]? := by
  have other : id ≠ m.store.nextId := Nat.ne_of_lt h
  simp only [enter, Store.scopes_defineAll_ne _ _ other, Store.scopes_create_lt _ _ h]

/-- Does what events record, and records them. -/
def replay (m : Machine ν) (events : List (Event ν)) : Machine ν :=
  events.foldl (fun m e => ⟨m.store.replay e, m.trace.push e⟩) m

theorem replay_append (m : Machine ν) (es es' : List (Event ν)) :
    m.replay (es ++ es') = (m.replay es).replay es' := List.foldl_append

theorem trace_replay (m : Machine ν) (events : List (Event ν)) :
    (m.replay events).trace.toList = m.trace.toList ++ events := by
  induction events generalizing m with
  | nil => simp [replay]
  | cons e events ih =>
    change (replay ⟨m.store.replay e, m.trace.push e⟩ events).trace.toList = _
    rw [ih, Array.toList_push, List.append_assoc, List.singleton_append]

theorem store_replay (m : Machine ν) (events : List (Event ν)) :
    (m.replay events).store = events.foldl Store.replay m.store := by
  induction events generalizing m with
  | nil => rfl
  | cons e events ih => exact ih ⟨m.store.replay e, m.trace.push e⟩

theorem bind_eq_replay (m : Machine ν) (id : ScopeId) (x : String) (v : Value ν) :
    m.bind id x v = m.replay [.define id x v] := rfl

theorem enter_eq_replay (m : Machine ν) (c : Closure ν) (vs : List (Value ν)) :
    m.enter c vs = m.replay [.apply c vs] := by
  simp only [enter, replay, List.foldl_cons, List.foldl_nil, Store.replay,
    Store.defineAll_eq_foldl]

end Machine

/-- How evaluation in a scope gets from one machine to another, and by which events. A call is
recorded with the levels that were left for its body. -/
inductive History (view : ν → Form ν) (limit : Nat) :
    Option ScopeId → Machine ν → List (Event ν) → Machine ν → Prop
  | refl (s : Option ScopeId) (m : Machine ν) : History view limit s m [] m
  | define {id : ScopeId} {m m₁ : Machine ν} {es : List (Event ν)} (x : String) (v : Value ν) :
      History view limit (some id) m es m₁ →
      History view limit (some id) m (es ++ [.define id x v]) (m₁.bind id x v)
  | call {s : Option ScopeId} {m m₁ m₂ : Machine ν} {es inner : List (Event ν)}
      (c : Closure ν) (vs : List (Value ν)) (left : Nat) :
      History view limit s m es m₁ →
      ((eval view limit left (some m₁.store.nextId) c.body).exec (m₁.enter c vs)).2 = m₂ →
      History view limit (some m₁.store.nextId) (m₁.enter c vs) inner m₂ →
      History view limit s m (es ++ .apply c vs :: inner) m₂

namespace History

variable {view : ν → Form ν} {limit : Nat} {s : Option ScopeId} {m m₁ m' : Machine ν}
variable {es es' : List (Event ν)}

theorem trans (h : History view limit s m es m₁) (h' : History view limit s m₁ es' m') :
    History view limit s m (es ++ es') m' := by
  induction h' with
  | refl => simpa using h
  | define x v _ ih => rw [← List.append_assoc]; exact .define x v (ih h)
  | call c vs left _ body inner ih _ =>
    rw [← List.append_assoc]; exact .call c vs left (ih h) body inner

/-- The events tell all that was done. -/
theorem replayed (h : History view limit s m es m') : m' = m.replay es := by
  induction h with
  | refl => rfl
  | define x v _ ih => rw [Machine.replay_append, ← ih]; rfl
  | call c vs left _ _ _ ih ihBody =>
    rw [ihBody, Machine.enter_eq_replay, Machine.replay_append, ← ih, ← Machine.replay_append]
    rfl

end History

namespace Eval

variable {view : ν → Form ν} {limit : Nat} {α β γ δ : Type}

/-- What `x` does in the scope `s` is a history. The second computation only tells which results
are possible. -/
structure Recorded (view : ν → Form ν) (limit : Nat) (s : Option ScopeId) (R : α → β → Prop)
    (x : Eval ν α) (_ : Eval ν β) : Prop where
  history (m : Machine ν) : ∃ es, History view limit s m es (x.exec m).2
  covers {m m' : Machine ν} {a : α} : x.exec m = (.ok a, m') → ∃ b, R a b

namespace Recorded

variable {s : Option ScopeId} {R : α → β → Prop}

theorem bind {Q : γ → δ → Prop} {x : Eval ν α} {y : Eval ν β} {f : α → Eval ν γ}
    {g : β → Eval ν δ} (hx : Recorded view limit s R x y)
    (hf : ∀ a b, R a b → Recorded view limit s Q (f a) (g b)) :
    Recorded view limit s Q (x >>= f) (y >>= g) := by
  constructor
  · intro m
    obtain ⟨es, hm⟩ := hx.history m
    obtain ⟨e, m₁, hr, hb⟩ | ⟨a, m₁, hr, hb⟩ := exec_bind_cases x f m
    · rw [hr] at hm; rw [hb]; exact ⟨es, hm⟩
    · obtain ⟨b, hab⟩ := hx.covers hr
      obtain ⟨es', hm'⟩ := (hf a b hab).history m₁
      rw [hr] at hm; rw [hb]
      exact ⟨es ++ es', hm.trans hm'⟩
  · intro m m' c h
    obtain ⟨e, m₁, hr, hb⟩ | ⟨a, m₁, hr, hb⟩ := exec_bind_cases x f m
    · rw [h] at hb; cases hb
    · obtain ⟨b, hab⟩ := hx.covers hr
      exact (hf a b hab).covers (hb.symm.trans h)

theorem halted (e : Halt) (y : Eval ν β) :
    Recorded view limit s R (throw e : Eval ν α) y where
  history m := ⟨[], .refl s m⟩
  covers h := by cases h

theorem assign (x : String) (v : Value ν) (y : Eval ν Unit) :
    Recorded view limit s (· = ·) (Eval.assign s x v) y := by
  cases s with
  | none => exact halted _ _
  | some id => exact ⟨fun m => ⟨_, .define x v (.refl _ m)⟩, fun {_ _ a} _ => ⟨a, rfl⟩⟩

/-- One level further out the evaluators inside stand for themselves. -/
theorem congruence {n : Nat}
    (h : ∀ s a, Recorded view limit s Value.Same (eval view limit n s a) (eval view limit n s a))
    (s : Option ScopeId) :
    Congruence ⟨(· = ·), (· = ·), (· = ·), Recorded view limit s⟩ view (eval view limit n)
      (eval view limit n) s s where
  here := rfl
  shape hab := by subst hab; exact .refl (fun _ => rfl) _
  place hab := by rw [hab]
  pure {_ _ _ _ b} hab := ⟨fun m => ⟨[], .refl s m⟩, fun h => by cases h; exact ⟨b, hab⟩⟩
  bind := Recorded.bind
  fail _ _ := halted _ _
  fault _ := halted _ _
  eval hab := by subst hab; exact h s _
  assign x _ := Recorded.assign x _ _
  call {c _ vs _} _ _ := by
    refine ⟨fun m => ?_, fun {_ _ v} _ => ⟨v, Value.Same.refl v⟩⟩
    obtain ⟨inner, body⟩ := (h (some m.store.nextId) c.body).history (m.enter c vs)
    exact ⟨_, .call c vs n (.refl s m) rfl body⟩

end Recorded

theorem eval_recorded (n : Nat) (s : Option ScopeId) (a : ν) :
    Recorded view limit s Value.Same (eval view limit n s a) (eval view limit n s a) := by
  induction n generalizing s a with
  | zero =>
    simp only [eval]
    split
    · exact Recorded.halted _ _
    · exact Recorded.halted _ _
  | succ n ih =>
    simp only [eval]
    split
    · exact Recorded.halted _ _
    · exact Recorded.halted _ _
    · exact ⟨fun m => ⟨[], .refl s m⟩, fun {_ _ v} _ => ⟨v, Value.Same.refl v⟩⟩
    · exact (Recorded.congruence ih s).list rfl (List.forall₂_same.mpr fun _ _ => rfl)

end Eval

/-- Every evaluation has a history, whether it succeeds or fails. -/
theorem eval_history (view : ν → Form ν) (limit n : Nat) (s : Option ScopeId) (a : ν)
    (m : Machine ν) : ∃ es, History view limit s m es ((eval view limit n s a).exec m).2 :=
  (Eval.eval_recorded n s a).history m

end Lisplet
