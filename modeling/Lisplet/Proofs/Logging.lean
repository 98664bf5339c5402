import Lisplet.Proofs.History

/-! The log (§10) changes nothing and leaves nothing out. Evaluation without a log, from store to
store, comes to the same, and doing again what the log tells, event by event, gives the final store.
Nor is anything told twice: of what a list does by itself there is one event at most, and one there
is of a definition or a call that takes place. -/
namespace Lisplet

variable {ν : Type}

namespace Eval

variable {α β γ δ : Type}

/-- What a computation does to a store, with no regard to the log. -/
def onStore (x : Eval ν α) (st : Store ν) : Except Halt α × Store ν :=
  let (result, m) := x.exec ⟨st, #[]⟩
  (result, m.store)

/-- A computation that works on the store and logs nothing. -/
def ofStore (f : Store ν → Except Halt α × Store ν) : Eval ν α :=
  ExceptT.mk fun m =>
    let (result, st) := f m.store
    (result, ⟨st, m.trace⟩)

/-- Both end alike and with the same store, whatever their logs hold. -/
inductive Level (R : α → β → Prop) :
    Except Halt α × Machine ν → Except Halt β × Machine ν → Prop
  | ok {a : α} {b : β} (st : Store ν) (log log' : Array (Event ν)) : R a b →
      Level R (.ok a, ⟨st, log⟩) (.ok b, ⟨st, log'⟩)
  | error (h : Halt) (st : Store ν) (log log' : Array (Event ν)) :
      Level R (.error h, ⟨st, log⟩) (.error h, ⟨st, log'⟩)

/-- From the same store, whatever has been logged, both computations come to the same. -/
def Unlogged (R : α → β → Prop) (x : Eval ν α) (y : Eval ν β) : Prop :=
  ∀ st log log', Level R (x.exec ⟨st, log⟩) (y.exec ⟨st, log'⟩)

namespace Unlogged

theorem bind {R : α → β → Prop} {Q : γ → δ → Prop} {x : Eval ν α} {y : Eval ν β}
    {f : α → Eval ν γ} {g : β → Eval ν δ} (hx : Unlogged R x y)
    (hf : ∀ a b, R a b → Unlogged Q (f a) (g b)) : Unlogged Q (x >>= f) (y >>= g) := by
  intro st log log'
  have first := hx st log log'
  generalize hr : x.exec ⟨st, log⟩ = r at first
  generalize hr' : y.exec ⟨st, log'⟩ = r' at first
  cases first with
  | error h st log log' =>
    rw [exec_bind_of_error hr, exec_bind_of_error hr']
    exact .error h st log log'
  | ok st log log' hab =>
    rw [exec_bind_of_ok hr, exec_bind_of_ok hr']
    exact hf _ _ hab st log log'

theorem halted {R : α → β → Prop} (h : Halt) :
    Unlogged R (throw h : Eval ν α) (throw h : Eval ν β) :=
  fun st log log' => .error h st log log'

theorem assign (s : Option ScopeId) (x : String) (v : Value ν) :
    Unlogged (· = ·) (Eval.assign s x v) (Eval.assign s x v) := by
  cases s with
  | none => exact halted _
  | some id => exact fun st log log' => .ok _ _ _ rfl

theorem enter (c : Closure ν) (vs : List (Value ν)) :
    Unlogged (· = ·) (Eval.enter c vs) (Eval.enter c vs) :=
  fun _ _ _ => .ok _ _ _ rfl

/-- A computation from store to store has nothing of a log. -/
theorem ofStore_onStore {R : α → β → Prop} {x : Eval ν α} {y : Eval ν β} (h : Unlogged R x y) :
    Unlogged R x (ofStore (onStore y)) := by
  intro st log log'
  have same := h st log #[]
  change Level R (x.exec ⟨st, log⟩)
    ((y.exec ⟨st, #[]⟩).1, ⟨(y.exec ⟨st, #[]⟩).2.store, log'⟩)
  generalize x.exec ⟨st, log⟩ = r at same ⊢
  generalize y.exec ⟨st, #[]⟩ = r' at same ⊢
  cases same with
  | ok st log _ hab => exact .ok st log log' hab
  | error h st log _ => exact .error h st log log'

theorem congruence (view : ν → Form ν) {ev ev' : Evaluator ν}
    (h : ∀ s a, Unlogged Value.Same (ev s a) (ev' s a)) (s : Option ScopeId) :
    Congruence ⟨(· = ·), (· = ·), (· = ·), Unlogged⟩ view ev ev' s s where
  here := rfl
  shape hab := by subst hab; exact .refl (fun _ => rfl) _
  place hab := by rw [hab]
  pure hab _ _ _ := .ok _ _ _ hab
  bind := Unlogged.bind
  fail cause hp := by subst hp; exact halted _
  fault f := halted _
  eval hab := by subst hab; exact h s _
  assign x hv := by cases Value.Same.eq hv; exact Unlogged.assign s x _
  call hc hvs := by
    cases hc.eq
    cases Value.Same.all_eq hvs
    exact (Unlogged.enter _ _).bind fun k k' hk => by subst hk; exact h _ _

end Unlogged

/-! ## One event at a time -/

/-- However `x` ends, it has added `n` events or fewer to the log. -/
def LogsAtMost (n : Nat) (x : Eval ν α) : Prop :=
  ∀ m, ∃ events, events.length ≤ n ∧ (x.exec m).2.trace.toList = m.trace.toList ++ events

namespace LogsAtMost

variable {n k : Nat}

theorem mono {x : Eval ν α} (h : LogsAtMost n x) (le : n ≤ k) : LogsAtMost k x := by
  intro m
  obtain ⟨events, short, logged⟩ := h m
  exact ⟨events, Nat.le_trans short le, logged⟩

theorem bind {x : Eval ν α} {f : α → Eval ν β} (hx : LogsAtMost n x)
    (hf : ∀ a, LogsAtMost k (f a)) : LogsAtMost (n + k) (x >>= f) := by
  intro m
  obtain ⟨events, short, logged⟩ := hx m
  obtain ⟨e, m₁, hr, hb⟩ | ⟨a, m₁, hr, hb⟩ := exec_bind_cases x f m
  · rw [hr] at logged
    rw [hb]
    exact ⟨events, by omega, logged⟩
  · rw [hr] at logged
    rw [hb]
    obtain ⟨later, short', logged'⟩ := hf a m₁
    refine ⟨events ++ later, ?_, ?_⟩
    · rw [List.length_append]
      omega
    · rw [logged', logged, List.append_assoc]

theorem silent_bind {x : Eval ν α} {f : α → Eval ν β} (hx : LogsAtMost 0 x)
    (hf : ∀ a, LogsAtMost n (f a)) : LogsAtMost n (x >>= f) :=
  (hx.bind hf).mono (by omega)

theorem bind_silent {x : Eval ν α} {f : α → Eval ν β} (hx : LogsAtMost n x)
    (hf : ∀ a, LogsAtMost 0 (f a)) : LogsAtMost n (x >>= f) :=
  hx.bind hf

theorem pure (a : α) : LogsAtMost n (Pure.pure a : Eval ν α) :=
  fun _ => ⟨[], Nat.zero_le n, (List.append_nil _).symm⟩

theorem halted (h : Halt) : LogsAtMost n (throw h : Eval ν α) :=
  fun _ => ⟨[], Nat.zero_le n, (List.append_nil _).symm⟩

theorem need (a : Option α) : LogsAtMost n (Eval.need a : Eval ν α) := by
  cases a with
  | some a => exact .pure a
  | none => exact .halted _

theorem ofStore (f : Store ν → Except Halt α × Store ν) : LogsAtMost n (Eval.ofStore f) :=
  fun _ => ⟨[], Nat.zero_le n, (List.append_nil _).symm⟩

theorem assign (s : Option ScopeId) (x : String) (v : Value ν) :
    LogsAtMost 1 (Eval.assign s x v) := by
  cases s with
  | none => exact .halted _
  | some id => exact fun _ => ⟨[.define id x v], Nat.le_refl 1, Array.toList_push⟩

theorem enter (c : Closure ν) (vs : List (Value ν)) : LogsAtMost 1 (Eval.enter c vs) :=
  fun _ => ⟨[.apply c vs], Nat.le_refl 1, Array.toList_push⟩

section
variable {view : ν → Form ν} {s : Option ScopeId}

theorem signature (items : List ν) : LogsAtMost 0 (Eval.signature view items) := by
  induction items with
  | nil => exact .pure _
  | cons item items ih =>
    unfold Eval.signature
    split
    · exact .halted _
    · exact ih.silent_bind fun _ => .pure _
    · exact .halted _
    · exact .halted _

theorem function (p : Position) (items : List ν) (body : ν) :
    LogsAtMost 1 (Eval.function view s p items body) := by
  refine (signature items).silent_bind fun names => ?_
  cases names with
  | nil => exact .halted _
  | cons name params => exact (assign s name _).bind_silent fun _ => .pure _

variable {ev : Evaluator ν} (quiet : ∀ s a, LogsAtMost 0 (ev s a))
include quiet

theorem integer (node : ν) : LogsAtMost 0 (Eval.integer view ev s node) := by
  refine (quiet s node).silent_bind fun v => ?_
  split
  · exact .need _
  · exact (need _).silent_bind fun _ => .halted _

theorem accumulate (op : Arithmetic) (acc : Int32) (args : List ν) :
    LogsAtMost 0 (Eval.accumulate view ev s op acc args) := by
  induction args generalizing acc with
  | nil => exact .pure acc
  | cons arg args ih =>
    refine (integer quiet arg).silent_bind fun n => ?_
    cases op.apply? acc n with
    | some acc => exact ih acc
    | none => exact .halted _

theorem arithmetic (p : Position) (name : String) (op : Arithmetic) (args : List ν) :
    LogsAtMost 0 (Eval.arithmetic view ev s p name op args) := by
  cases args with
  | nil => exact .halted _
  | cons arg args =>
    exact (integer quiet arg).silent_bind fun _ =>
      (accumulate quiet op _ args).silent_bind fun _ => .pure _

theorem comparison (p : Position) (name : String) (op : Comparison) (args : List ν) :
    LogsAtMost 0 (Eval.comparison view ev s p name op args) := by
  unfold Eval.comparison
  split
  · exact (integer quiet _).silent_bind fun _ => (integer quiet _).silent_bind fun _ => .pure _
  · exact .halted _

theorem branch (p : Position) (args : List ν) : LogsAtMost 0 (Eval.branch ev s p args) := by
  unfold Eval.branch
  split
  · refine (quiet s _).silent_bind fun _ => (need _).silent_bind fun c => ?_
    cases c with
    | true => exact quiet s _
    | false => exact .pure _
  · refine (quiet s _).silent_bind fun _ => (need _).silent_bind fun c => ?_
    cases c with
    | true => exact quiet s _
    | false => exact quiet s _
  · exact .halted _

theorem arguments (args : List ν) : LogsAtMost 0 (Eval.arguments ev s args) := by
  induction args with
  | nil => exact .pure _
  | cons arg args ih => exact (quiet s arg).silent_bind fun _ => ih.silent_bind fun _ => .pure _

theorem define (p : Position) (args : List ν) :
    LogsAtMost 1 (Eval.define view ev s p args) := by
  unfold Eval.define
  split
  · split
    · exact .halted _
    · exact (quiet s _).silent_bind fun _ => (assign s _ _).bind_silent fun _ => .pure _
    · exact .function _ _ _
    · exact .function _ _ _
  · exact .halted _

/-- The call itself is logged once. What its body does is the body's. -/
theorem apply (p : Position) (c : Closure ν) (args : List ν) :
    LogsAtMost 1 (Eval.apply ev s p c args) := by
  unfold Eval.apply
  split
  · exact .halted _
  · exact (arguments quiet args).silent_bind fun vs =>
      (enter c vs).bind_silent fun k => quiet (some k) c.body

theorem call (p : Position) (v : Value ν) (args : List ν) :
    LogsAtMost 1 (Eval.call view ev s p v args) := by
  unfold Eval.call
  split
  · refine (need _).silent_bind fun name => ?_
    split
    · exact .define quiet p args
    · exact (branch quiet p args).mono (Nat.zero_le 1)
    · exact (arithmetic quiet p name _ args).mono (Nat.zero_le 1)
    · exact (comparison quiet p name _ args).mono (Nat.zero_le 1)
    · exact .halted _
  · exact (need _).silent_bind fun c => .apply quiet p c args
  · exact (need _).silent_bind fun _ => .halted _
  · exact .halted _

theorem list (p : Position) (items : List ν) :
    LogsAtMost 1 (Eval.list view ev s p items) := by
  cases items with
  | nil => exact .halted _
  | cons head args => exact (quiet s head).silent_bind fun v => .call quiet p v args

end

/-- What logs nothing leaves the log as it is. -/
theorem trace_eq {x : Eval ν α} (h : LogsAtMost 0 x) (m : Machine ν) :
    (x.exec m).2.trace = m.trace := by
  obtain ⟨events, none, logged⟩ := h m
  rw [List.length_eq_zero_iff.mp (Nat.le_zero.mp none), List.append_nil] at logged
  exact Array.toList_inj.mp logged

/-- A computation that succeeds behind one that logs nothing. -/
theorem of_bind_ok {x : Eval ν α} {f : α → Eval ν β} (h : LogsAtMost 0 x) {b : β} {m m' : Machine ν}
    (ok : (x >>= f).exec m = (.ok b, m')) :
    ∃ a m₁, m₁.trace = m.trace ∧ (f a).exec m₁ = (.ok b, m') := by
  have silent := h.trace_eq m
  obtain ⟨e, m₁, hr, hb⟩ | ⟨a, m₁, hr, hb⟩ := exec_bind_cases x f m
  · rw [hb] at ok
    cases ok
  · rw [hb] at ok
    rw [hr] at silent
    exact ⟨a, m₁, silent, ok⟩

end LogsAtMost

/-! ## What takes place is logged -/

section
variable {view : ν → Form ν} {ev : Evaluator ν} {s : Option ScopeId} {v : Value ν}
  {m m' : Machine ν}

theorem trace_assign {x : String} {w : Value ν}
    (h : (assign s x w >>= fun _ => pure w).exec m = (.ok v, m')) :
    ∃ id, s = some id ∧ m'.trace = m.trace.push (.define id x v) := by
  cases s with
  | none => cases h
  | some id => cases h; exact ⟨id, rfl, rfl⟩

theorem trace_function {p : Position} {items : List ν} {body : ν}
    (h : (function view s p items body).exec m = (.ok v, m')) :
    ∃ id x, s = some id ∧ m'.trace = m.trace.push (.define id x v) := by
  obtain ⟨names, m₁, same, h⟩ := (LogsAtMost.signature items).of_bind_ok h
  cases names with
  | nil => cases h
  | cons name params =>
    obtain ⟨id, inside, logged⟩ := trace_assign h
    exact ⟨id, name, inside, by rw [logged, same]⟩

variable (quiet : ∀ s a, LogsAtMost 0 (ev s a))
include quiet

/-- A definition that takes place is one event, with the value that it has. -/
theorem trace_define {p : Position} {args : List ν}
    (h : (define view ev s p args).exec m = (.ok v, m')) :
    ∃ id x, s = some id ∧ m'.trace = m.trace.push (.define id x v) := by
  unfold define at h
  split at h
  · split at h
    · cases h
    · obtain ⟨w, m₁, same, h⟩ := (quiet s _).of_bind_ok h
      obtain ⟨id, inside, logged⟩ := trace_assign h
      exact ⟨id, _, inside, by rw [logged, same]⟩
    · exact trace_function h
    · exact trace_function h
  · cases h

/-- A call that takes place is one event, whatever comes of the body. -/
theorem trace_apply {p : Position} {c : Closure ν} {args : List ν} {vs : List (Value ν)}
    (arity : args.length = c.params.length)
    (h : (arguments ev s args).exec m = (.ok vs, m')) :
    ((apply ev s p c args).exec m).2.trace = m.trace.push (.apply c vs) := by
  have silent := LogsAtMost.trace_eq (x := arguments ev s args) (.arguments quiet args) m
  rw [h] at silent
  rw [apply, if_neg (not_not.mpr arity), exec_bind_of_ok h]
  let inside : Machine ν := ⟨(m'.store.create c.scope c.name).defineAll m'.store.nextId c.params vs,
    m'.trace.push (.apply c vs)⟩
  have entered : (enter c vs).exec m' = (.ok m'.store.nextId, inside) := rfl
  rw [exec_bind_of_ok entered, (quiet _ _).trace_eq]
  exact congrArg (Array.push · _) silent

end

end Eval

/-! ## Without a log -/

/-- Evaluation without a log: every expression is evaluated from store to store. -/
def evalUnlogged (view : ν → Form ν) (limit : Nat) :
    Nat → Option ScopeId → ν → Store ν → Except Halt (Value ν) × Store ν
  | 0, scope, node => Eval.onStore (eval view limit 0 scope node)
  | depth + 1, scope, node =>
    match (view node).shape with
    | .list items =>
      let ev : Evaluator ν := fun scope node =>
        Eval.ofStore (evalUnlogged view limit depth scope node)
      Eval.onStore (Eval.list view ev scope (view node).position items)
    | _ => Eval.onStore (eval view limit (depth + 1) scope node)

theorem eval_unlogged (view : ν → Form ν) (limit depth : Nat) (s : Option ScopeId) (a : ν) :
    Eval.Unlogged Value.Same (eval view limit depth s a)
      (Eval.ofStore (evalUnlogged view limit depth s a)) := by
  induction depth generalizing s a with
  | zero =>
    refine Eval.Unlogged.ofStore_onStore ?_
    simp only [eval]
    split
    · exact .halted _
    · exact .halted _
  | succ depth ih =>
    unfold evalUnlogged eval
    cases (view a).shape with
    | absent => exact (Eval.Unlogged.halted _).ofStore_onStore
    | blank => exact (Eval.Unlogged.halted _).ofStore_onStore
    | atom text =>
      exact Eval.Unlogged.ofStore_onStore fun _ _ _ => .ok _ _ _ (Value.Same.refl _)
    | list items =>
      have parts : List.Forall₂ (· = ·) items items := List.forall₂_same.mpr fun _ _ => rfl
      exact ((Eval.Unlogged.congruence view ih s).list rfl parts).ofStore_onStore

theorem evalUnlogged_eq (view : ν → Form ν) (limit depth : Nat) (s : Option ScopeId) (a : ν)
    (m : Machine ν) :
    evalUnlogged view limit depth s a m.store =
      (((eval view limit depth s a).exec m).1, ((eval view limit depth s a).exec m).2.store) := by
  have same := eval_unlogged view limit depth s a m.store m.trace #[]
  generalize (eval view limit depth s a).exec m = logged at same
  change Eval.Level _ logged ((evalUnlogged view limit depth s a m.store).1,
    ⟨(evalUnlogged view limit depth s a m.store).2, #[]⟩) at same
  generalize evalUnlogged view limit depth s a m.store = unlogged at same
  obtain ⟨result, st⟩ := unlogged
  cases same with
  | ok _ _ _ hab => rw [Value.Same.eq hab]
  | error => rfl

/-- Evaluates one expression without a log. -/
def runUnlogged (view : ν → Form ν) (limit : Int) (scope : Option ScopeId) (node : ν)
    (st : Store ν) : Except Halt (Value ν) × Store ν :=
  evalUnlogged view (effectiveLimit limit) (effectiveLimit limit) scope node st

/-- A log is transparent and complete. Evaluation without one comes to the same result or error and
the same store. Doing in order what the log tells takes the store from which evaluation started to
the one that it leaves, also where it fails midway. As many scopes are new as calls are logged, and
what a list does by itself, if its parts log nothing, is logged as one event at most. A definition
that takes place is one event and so is a call that does, however its body ends. -/
theorem run_log (view : ν → Form ν) (limit : Int) (scope : Option ScopeId) (node : ν)
    (st : Store ν) :
    let (result, m) := run view limit scope node st
    runUnlogged view limit scope node st = (result, m.store) ∧
    m.trace.toList.foldl Store.replay st = m.store ∧
    m.store.scopes.size = st.scopes.size + m.trace.toList.countP Event.isApply ∧
    ∀ (part : Option ScopeId → ν → Store ν → Except Halt (Value ν) × Store ν) s p items,
      (Eval.list view (fun s a => Eval.ofStore (part s a)) s p items).LogsAtMost 1 ∧
      (∀ m v m', (Eval.define view (fun s a => Eval.ofStore (part s a)) s p items).exec m =
          (.ok v, m') →
        ∃ id x, s = some id ∧ m'.trace = m.trace.push (.define id x v)) ∧
      ∀ c vs m m', items.length = c.params.length →
        (Eval.arguments (fun s a => Eval.ofStore (part s a)) s items).exec m = (.ok vs, m') →
        ((Eval.apply (fun s a => Eval.ofStore (part s a)) s p c items).exec m).2.trace =
          m.trace.push (.apply c vs) := by
  rcases ran : run view limit scope node st with ⟨result, m⟩
  change Eval.exec _ _ = _ at ran
  have same := evalUnlogged_eq view (effectiveLimit limit) (effectiveLimit limit) scope node
    ⟨st, #[]⟩
  obtain ⟨events, history⟩ := eval_history view (effectiveLimit limit) (effectiveLimit limit)
    scope node ⟨st, #[]⟩
  rw [ran] at same history
  have told : m = Machine.replay ⟨st, #[]⟩ events := history.replayed
  have logged : m.trace.toList = events := by
    rw [told, Machine.trace_replay]
    rfl
  have replayed : m.trace.toList.foldl Store.replay st = m.store := by
    rw [logged, told, Machine.store_replay]
  refine ⟨same, replayed, ?_, fun part s p items => ?_⟩
  · rw [← Store.size_foldl_replay, replayed]
  · have quiet s a : (Eval.ofStore (part s a)).LogsAtMost 0 := .ofStore (part s a)
    exact ⟨.list quiet p items, fun _ _ _ => Eval.trace_define quiet,
      fun _ _ _ _ => Eval.trace_apply quiet⟩

end Lisplet
