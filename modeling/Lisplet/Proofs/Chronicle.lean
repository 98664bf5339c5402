import Lisplet.Proofs.Reachability
import Lisplet.Proofs.Scoping

/-! Evaluation told as changes to scopes. A definition is one change; a call makes a scope, names it
and defines the parameters in it. Whatever happens to a store, from outside or in evaluation, is so
one list of changes. Each of them refers to scopes that there are when it is made, also in the midst
of an evaluation, and whether or not it succeeds. -/
namespace Lisplet

variable {ν : Type}

/-- The scope that a function was defined in. -/
def Value.captured? (v : Value ν) : Option ScopeId := v.closure?.bind Closure.scope

namespace Store

/-! ## Changes that refer to what there is -/

def Change.captured? : Change ν → Option ScopeId
  | .define _ _ v => v.captured?
  | .create _ | .rename .. => none

/-- The change refers to the first `n` scopes only, and so does the function that it defines. -/
def Change.Grounded (n : Nat) (c : Change ν) : Prop := c.Fits n ∧ ∀ p ∈ c.captured?, p < n

instance (n : Nat) (c : Change ν) : Decidable (c.Grounded n) :=
  inferInstanceAs (Decidable (_ ∧ ∀ p ∈ c.captured?, p < n))

/-- Made one after the other, the changes refer to scopes that there are. -/
def Grounded (st : Store ν) : List (Change ν) → Prop
  | [] => True
  | c :: cs => c.Grounded st.scopes.size ∧ (st.change c).Grounded cs

section
variable {st : Store ν} {c : Change ν} {cs cs' : List (Change ν)}

theorem grounded_append :
    st.Grounded (cs ++ cs') ↔ st.Grounded cs ∧ (cs.foldl change st).Grounded cs' := by
  induction cs generalizing st with
  | nil => simp [Grounded]
  | cons c cs ih => simp [Grounded, ih, and_assoc]

theorem size_change (st : Store ν) (c : Change ν) :
    (st.change c).scopes.size = st.scopes.size + c.parent?.toList.length := by
  cases c with
  | create parent => exact Array.size_push _
  | define scope x v => exact size_define st scope x v
  | rename scope name => exact Array.size_modify

theorem Meets.change (view : ν → Form ν) (h : st.Meets .closed)
    (hc : c.Grounded st.scopes.size) : (st.change c).Meets .closed := by
  obtain ⟨fits, captured⟩ := hc
  cases c with
  | create parent =>
    refine h.create (Demands.closed_lawful view) ?_ ""
    intro p hp
    subst hp
    exact fits
  | define scope x v =>
    refine h.define scope x ⟨trivial, ?_⟩
    intro f p hf hp
    apply captured
    simp [Change.captured?, Value.captured?, hf, hp]
  | rename scope name => exact h.rename scope name

theorem Meets.changes (view : ν → Form ν) (h : st.Meets .closed) (hcs : st.Grounded cs) :
    (cs.foldl Store.change st).Meets .closed := by
  induction cs generalizing st with
  | nil => exact h
  | cons c cs ih => exact ih (h.change view hcs.1) hcs.2

end

end Store

/-! ## Events as changes -/

/-- What an event does, if the next scope to be made is `next`. -/
def Event.changes (next : ScopeId) : Event ν → List (Store.Change ν)
  | .define scope x v => [.define scope x v]
  | .apply c vs =>
    .create c.scope :: .rename next c.name :: (c.params.zip vs).map fun (x, v) => .define next x v

namespace Store

/-- What events do, one after the other. -/
def told (st : Store ν) : List (Event ν) → List (Change ν)
  | [] => []
  | e :: es => e.changes st.nextId ++ (st.replay e).told es

theorem rename_create (st : Store ν) (parent : Option ScopeId) (name : String) :
    (st.create parent "").rename st.nextId name = st.create parent name := by
  simp only [rename, modify, create, nextId, Store.mk.injEq]
  apply Array.ext_getElem?
  intro i
  rw [Array.getElem?_modify, Array.getElem?_push, Array.getElem?_push]
  by_cases new : i = st.scopes.size
  · simp [new]
  · simp [new, Ne.symm new]

theorem foldl_change_event (st : Store ν) (e : Event ν) :
    (e.changes st.nextId).foldl change st = st.replay e := by
  cases e with
  | define scope x v => rfl
  | apply c vs =>
    simp only [Event.changes, List.foldl_cons, List.foldl_map, change, rename_create]
    rfl

theorem foldl_change_told (st : Store ν) (es : List (Event ν)) :
    (st.told es).foldl change st = es.foldl replay st := by
  induction es generalizing st with
  | nil => rfl
  | cons e es ih => rw [told, List.foldl_append, foldl_change_event, ih, List.foldl_cons]

theorem told_append (st : Store ν) (es es' : List (Event ν)) :
    st.told (es ++ es') = st.told es ++ (es.foldl replay st).told es' := by
  induction es generalizing st with
  | nil => rfl
  | cons e es ih => rw [List.cons_append, told, told, ih, List.append_assoc, List.foldl_cons]

end Store

theorem Value.Meets.captured {n : Nat} {v : Value ν} (h : v.Meets .closed n) :
    ∀ p ∈ v.captured?, p < n := by
  intro p hp
  obtain ⟨c, hc, hp⟩ := Option.bind_eq_some_iff.mp hp
  exact h.scope hc hp

namespace Store

variable {st : Store ν} {id : ScopeId}

theorem grounded_defines (hid : id < st.scopes.size) {bs : List (String × Value ν)}
    (hbs : ∀ b ∈ bs, ∀ p ∈ b.2.captured?, p < st.scopes.size) :
    st.Grounded (bs.map fun (x, v) => .define id x v) := by
  induction bs generalizing st with
  | nil => trivial
  | cons b bs ih =>
    obtain ⟨x, v⟩ := b
    obtain ⟨hv, hbs⟩ := List.forall_mem_cons.mp hbs
    have same : (st.change (.define id x v)).scopes.size = st.scopes.size := size_define st id x v
    refine ⟨⟨hid, hv⟩, ih ?_ ?_⟩
    · rwa [same]
    · rwa [same]

/-- A call refers to the scope that its function was defined in, and then to its own. -/
theorem grounded_apply {c : Closure ν} (hc : ∀ p, c.scope = some p → p < st.scopes.size)
    {vs : List (Value ν)} (hvs : ∀ v ∈ vs, ∀ p ∈ v.captured?, p < st.scopes.size) :
    st.Grounded (Event.changes st.nextId (.apply c vs)) := by
  have opened : (st.create c.scope c.name).scopes.size = st.scopes.size + 1 := Array.size_push _
  have own : st.nextId < st.scopes.size + 1 := Nat.lt_succ_self _
  refine ⟨⟨?_, nofun⟩, ⟨?_, nofun⟩, ?_⟩
  · cases hs : c.scope with
    | none => trivial
    | some p => exact hc p hs
  · rw [size_change]
    exact own
  · simp only [change, rename_create]
    apply grounded_defines
    · rwa [opened]
    · intro b hb p hp
      rw [opened]
      exact Nat.lt_succ_of_lt (hvs b.2 (List.of_mem_zip hb).2 p hp)

end Store

/-! ## Evaluation -/

namespace Eval

variable {view : ν → Form ν} {n : Nat} {α β γ δ : Type}

/-- Run where there are `n` scopes and nothing else is referred to, `x` keeps to that in each of its
changes. -/
structure Chronicled (n : Nat) (R : Nat → α → β → Prop) (x : Eval ν α) (y : Eval ν β) : Prop
    extends Kept .closed 0 n R x y where
  told {m : Machine ν} : m.store.scopes.size = n → m.Meets .closed 0 →
    ∃ es, (x.exec m).2 = m.replay es ∧ m.store.Grounded (m.store.told es)

namespace Chronicled

theorem bind {R : Nat → α → β → Prop} {T : Nat → γ → δ → Prop} {x : Eval ν α} {y : Eval ν β}
    {f : α → Eval ν γ} {g : β → Eval ν δ} (hx : Chronicled n R x y)
    (hf : ∀ k a b, n ≤ k → R k a b → Chronicled k T (f a) (g b)) :
    Chronicled n T (x >>= f) (y >>= g) := by
  refine ⟨hx.toKept.bind fun k a b hk hab => (hf k a b hk hab).toKept, ?_⟩
  intro m hn hm
  have first := hx.ends hn hm
  obtain ⟨es, did, grounded⟩ := hx.told hn hm
  obtain ⟨e, m₁, hr, hb⟩ | ⟨a, m₁, hr, hb⟩ := exec_bind_cases x f m
  · rw [hr] at did
    rw [hb]
    exact ⟨es, did, grounded⟩
  · rw [hr] at did first
    rw [hb]
    obtain ⟨b, hab⟩ := first.value rfl
    obtain ⟨es', did', grounded'⟩ := (hf _ a b (hn ▸ first.grows) hab).told rfl first.meets
    refine ⟨es ++ es', ?_, ?_⟩
    · rw [did', Machine.replay_append, ← did]
    · rw [Store.told_append, Store.grounded_append, Store.foldl_change_told, ← m.store_replay,
        ← did]
      exact ⟨grounded, grounded'⟩

end Chronicled

/-- What leaves the machine alone makes no change. -/
theorem Kept.still {R : Nat → α → β → Prop} {x : Eval ν α} {y : Eval ν β}
    (h : Kept .closed 0 n R x y) (same : ∀ m, (x.exec m).2 = m) : Chronicled n R x y :=
  ⟨h, fun _ _ => ⟨[], same _, trivial⟩⟩

namespace Chronicled

theorem assign {s : Option ScopeId} (hs : (Demands.closed : Demands ν).Usable n s) {x : String}
    {v : Value ν} (hv : v.Meets .closed n) {y : Eval ν Unit}
    (kept : Kept .closed 0 n (fun _ => (· = ·)) (Eval.assign s x v) y) :
    Chronicled n (fun _ => (· = ·)) (Eval.assign s x v) y := by
  cases s with
  | none => exact kept.still fun _ => rfl
  | some id =>
    refine ⟨kept, ?_⟩
    intro m hn _
    subst hn
    exact ⟨[.define id x v], rfl, ⟨hs, hv.captured⟩, trivial⟩

/-- The body of a call runs where there is one scope more, its own. -/
theorem call (view : ν → Form ν) {ev : Evaluator ν} {c : Closure ν} {vs : List (Value ν)}
    {y : Eval ν (Value ν)} (hc : ∀ p, c.scope = some p → p < n)
    (hvs : ∀ v ∈ vs, v.Meets .closed n)
    (body : Chronicled (n + 1) Demands.closed.Result (ev (some n) c.body) (ev (some n) c.body))
    (kept : Kept .closed 0 n Demands.closed.Result (enter c vs >>= fun k => ev (some k) c.body) y) :
    Chronicled n Demands.closed.Result (enter c vs >>= fun k => ev (some k) c.body) y := by
  refine ⟨kept, ?_⟩
  intro m hm meets
  subst hm
  have law := Demands.closed_lawful view
  have opened := Store.grounded_apply hc fun v hv => (hvs v hv).captured
  obtain ⟨es, did, grounded⟩ := body.told (m.size_enter c vs) (meets.enter law hc hvs)
  refine ⟨.apply c vs :: es, ?_, ?_⟩
  · refine did.trans ?_
    rw [m.enter_eq_replay]
    rfl
  · rw [m.enter_eq_replay, m.store_replay] at grounded
    rw [Store.told, Store.grounded_append, Store.foldl_change_event]
    exact ⟨opened, grounded⟩

/-- One level further out. Only the changes are new; all else is as it was kept before. -/
theorem laws {ev : Evaluator ν}
    (h : ∀ {n s} a, (Demands.closed : Demands ν).Usable n s →
      Chronicled n Demands.closed.Result (ev s a) (ev s a))
    {s : Option ScopeId} (hs : (Demands.closed : Demands ν).Usable n s) :
    Staged.Laws ⟨(· ≤ ·), fun a b => Demands.closed.node a ∧ a = b, fun _ _ => True,
      Demands.closed.Result, Chronicled⟩ view ev ev s s n :=
  have law := Demands.closed_lawful view
  have K := Kept.laws law (fun {_ _ a} hs _ => (h a hs).toKept) hs
  { shape := K.shape
    place := K.place
    trans := K.trans
    like := K.like
    mono := K.mono
    ofInt := K.ofInt
    ofBool := K.ofBool
    nil := K.nil
    ofClosure := K.ofClosure
    pure := fun hab => (K.pure hab).still fun _ => rfl
    bind := Chronicled.bind
    fail := fun cause hp => (K.fail cause hp).still fun _ => rfl
    absent := fun ha none => (K.absent ha none).still fun _ => rfl
    mistyped := fun hv wrong => (K.mistyped hv wrong).still fun _ => rfl
    eval := by
      rintro k a _ hk ⟨-, rfl⟩
      exact h a (hs.grow law hk)
    assign := by
      rintro k v _ a b x hk hab named hv
      exact Chronicled.assign (hs.grow law hk) hv.1 (K.assign hk hab named hv)
    call := by
      rintro k v w c d vs ws hk hv hc hd hvs
      have each : ∀ v ∈ vs, v.Meets .closed k := ((List.forall₂_and_left _ _).mp hvs).1
      refine Chronicled.call view (fun p hp => hv.1.scope hc hp) each ?_ (K.call hk hv hc hd hvs)
      exact h c.body (law.fresh (Nat.zero_le k)) }

end Chronicled

theorem eval_chronicled (view : ν → Form ν) (limit depth : Nat) {s : Option ScopeId}
    (hs : (Demands.closed : Demands ν).Usable n s) (a : ν) :
    Chronicled n Demands.closed.Result (eval view limit depth s a) (eval view limit depth s a) := by
  have law := Demands.closed_lawful view
  induction depth generalizing n s a with
  | zero =>
    refine (eval_kept law limit 0 hs trivial).still fun m => ?_
    simp only [eval]
    split <;> rfl
  | succ depth ih =>
    have kept := eval_kept law limit (depth + 1) hs (a := a) trivial
    simp only [eval] at kept ⊢
    split at kept
    · exact kept.still fun _ => rfl
    · exact kept.still fun _ => rfl
    · exact kept.still fun _ => rfl
    · exact (Chronicled.laws (fun a hs => ih hs a) hs).list (Nat.le_refl n) trivial
        (List.forall₂_same.mpr fun b _ => ⟨trivial, rfl⟩)

end Eval

namespace Store

section
variable {view : ν → Form ν} {st : Store ν}

/-- The events of an evaluation lead to the store that it leaves. -/
theorem foldl_change_run (view : ν → Form ν) (limit : Int) (scope : Option ScopeId) (node : ν)
    (st : Store ν) :
    let m := (run view limit scope node st).2
    (st.told m.trace.toList).foldl change st = m.store := by
  intro m
  obtain ⟨es, history⟩ := eval_history view (effectiveLimit limit) (effectiveLimit limit) scope node
    ⟨st, #[]⟩
  have did : m = Machine.replay ⟨st, #[]⟩ es := history.replayed
  rw [foldl_change_told, did, Machine.trace_replay, Machine.store_replay]
  rfl

theorem Meets.grounded_run (h : st.Meets .closed) (limit : Int) {scope : Option ScopeId}
    (hs : ∀ id ∈ scope, id < st.scopes.size) (node : ν) :
    st.Grounded (st.told (Lisplet.run view limit scope node st).2.trace.toList) := by
  have start : Machine.Meets .closed 0 ⟨st, #[]⟩ := ⟨Nat.zero_le _, h, nofun⟩
  have usable : (Demands.closed : Demands ν).Usable st.scopes.size scope := .closed hs
  have evaluated := Eval.eval_chronicled view (effectiveLimit limit) (effectiveLimit limit)
    usable node
  obtain ⟨es, did, grounded⟩ := evaluated.told rfl start
  change (Lisplet.run view limit scope node st).2 = _ at did
  rw [did, Machine.trace_replay]
  exact grounded

end

/-! ## Steps from outside -/

/-- What can be done with scopes from outside: a change, or an evaluation in one of them. -/
inductive Step (ν : Type) where
  | change (c : Change ν)
  | run (limit : Int) (scope : Option ScopeId) (node : ν)

/-- The step refers to the first `n` scopes only. -/
def Step.Grounded (n : Nat) : Step ν → Prop
  | .change c => c.Grounded n
  | .run _ scope _ => ∀ id ∈ scope, id < n

instance (n : Nat) : (s : Step ν) → Decidable (s.Grounded n)
  | .change c => inferInstanceAs (Decidable (c.Grounded n))
  | .run _ scope _ => inferInstanceAs (Decidable (∀ id ∈ scope, id < n))

/-- Takes a step. What an evaluation comes to does not matter. -/
def perform (view : ν → Form ν) (st : Store ν) : Step ν → Store ν
  | .change c => st.change c
  | .run limit scope node => (Lisplet.run view limit scope node st).2.store

/-- The changes that a step consists of. -/
def Step.changes (view : ν → Form ν) (st : Store ν) : Step ν → List (Change ν)
  | .change c => [c]
  | .run limit scope node => st.told (Lisplet.run view limit scope node st).2.trace.toList

/-- The store that steps have built, the first one first. -/
def built (view : ν → Form ν) (steps : List (Step ν)) : Store ν := steps.foldl (perform view) empty

/-- Taken one after the other, the steps refer to scopes that there are. -/
def Admits (view : ν → Form ν) (st : Store ν) : List (Step ν) → Prop
  | [] => True
  | s :: ss => s.Grounded st.scopes.size ∧ (st.perform view s).Admits view ss

instance decidableAdmits (view : ν → Form ν) (st : Store ν) :
    (steps : List (Step ν)) → Decidable (st.Admits view steps)
  | [] => inferInstanceAs (Decidable True)
  | s :: ss =>
    have := decidableAdmits view (st.perform view s) ss
    inferInstanceAs (Decidable (_ ∧ _))

/-- All changes that steps consist of, in order. -/
def chronicle (view : ν → Form ν) (st : Store ν) : List (Step ν) → List (Change ν)
  | [] => []
  | s :: ss => s.changes view st ++ (st.perform view s).chronicle view ss

section
variable {view : ν → Form ν} {st : Store ν} {s : Step ν} {steps : List (Step ν)}

theorem foldl_change_step (view : ν → Form ν) (st : Store ν) (s : Step ν) :
    (s.changes view st).foldl change st = st.perform view s := by
  cases s with
  | change c => rfl
  | run limit scope node => exact foldl_change_run view limit scope node st

theorem foldl_change_chronicle (view : ν → Form ν) (st : Store ν) (steps : List (Step ν)) :
    (st.chronicle view steps).foldl change st = steps.foldl (perform view) st := by
  induction steps generalizing st with
  | nil => rfl
  | cons s ss ih => rw [chronicle, List.foldl_append, foldl_change_step, ih, List.foldl_cons]

theorem Meets.grounded_step (h : st.Meets .closed) (hs : s.Grounded st.scopes.size) :
    st.Grounded (s.changes view st) := by
  cases s with
  | change c => exact ⟨hs, trivial⟩
  | run limit scope node => exact h.grounded_run limit hs node

/-- Steps that refer to what there is consist of changes that do. -/
theorem Admits.grounded (h : st.Meets .closed) (admits : st.Admits view steps) :
    st.Grounded (st.chronicle view steps) := by
  induction steps generalizing st with
  | nil => trivial
  | cons s ss ih =>
    have first : st.Grounded (s.changes view st) := h.grounded_step admits.1
    have next := h.changes view first
    rw [foldl_change_step] at next
    rw [chronicle, grounded_append, foldl_change_step]
    exact ⟨first, ih next admits.2⟩

/-! ## Stores that steps build -/

theorem built_concat (view : ν → Form ν) (steps : List (Step ν)) (s : Step ν) :
    built view (steps ++ [s]) = (built view steps).perform view s := by
  rw [built, List.foldl_append]
  rfl

theorem admits_concat : st.Admits view (steps ++ [s]) ↔
    st.Admits view steps ∧ s.Grounded (steps.foldl (perform view) st).scopes.size := by
  induction steps generalizing st with
  | nil => simp [Admits]
  | cons t ts ih => simp [Admits, ih, and_assoc]

/-- Nothing is done to a scope that there is not. -/
theorem modify_of_size_le {id : ScopeId} (h : st.scopes.size ≤ id) (f : Scope ν → Scope ν) :
    st.modify id f = st := by
  simp only [modify]
  congr 1
  apply Array.ext_getElem?
  intro i
  rw [Array.getElem?_modify]
  split
  · rename_i own
    rw [← own, Array.getElem?_eq_none h, Option.map_none]
  · rfl

theorem Reachable.perform (h : st.Reachable view) (hs : s.Grounded st.scopes.size) :
    (st.perform view s).Reachable view := by
  cases s with
  | run limit scope node => exact .run limit node h hs
  | change c =>
    obtain ⟨fits, captured⟩ := hs
    cases c with
    | create parent =>
      refine .create "" h ?_
      rintro p rfl
      exact fits
    | define scope x v =>
      refine .define scope x h ?_
      intro f p hf hp
      apply captured
      simp [Change.captured?, Value.captured?, hf, hp]
    | rename scope name => exact .rename scope name h

theorem exists_steps_perform (before : ∃ steps, empty.Admits view steps ∧ built view steps = st)
    (hs : s.Grounded st.scopes.size) :
    ∃ steps, empty.Admits view steps ∧ built view steps = st.perform view s := by
  obtain ⟨steps, admits, rfl⟩ := before
  exact ⟨steps ++ [s], admits_concat.mpr ⟨admits, hs⟩, built_concat view steps s⟩

/-- The stores that can come about are those that steps from outside build, when each step refers to
what there is. -/
theorem reachable_iff_built :
    st.Reachable view ↔ ∃ steps, empty.Admits view steps ∧ built view steps = st := by
  constructor
  · intro h
    induction h with
    | empty => exact ⟨[], trivial, rfl⟩
    | @create st parent name _ hp ih =>
      -- A scope is made first and then named.
      have fits : (Change.create parent : Change ν).Fits st.scopes.size := by
        cases parent with
        | none => trivial
        | some p => exact hp p rfl
      have made := exists_steps_perform (s := .change (.create parent)) ih ⟨fits, nofun⟩
      have inside : st.nextId < (st.create parent "").scopes.size :=
        Nat.lt_of_lt_of_eq (Nat.lt_succ_self _) (Array.size_push _).symm
      rw [← rename_create]
      exact exists_steps_perform (s := .change (.rename st.nextId name)) made ⟨inside, nofun⟩
    | @rename st id name _ ih =>
      by_cases inside : id < st.scopes.size
      · exact exists_steps_perform (s := .change (.rename id name)) ih ⟨inside, nofun⟩
      · rwa [rename, modify_of_size_le (Nat.not_lt.mp inside)]
    | @define st id x v _ hv ih =>
      by_cases inside : id < st.scopes.size
      · refine exists_steps_perform (s := .change (.define id x v)) ih ⟨inside, ?_⟩
        intro p hp
        obtain ⟨c, hc, hp⟩ := Option.bind_eq_some_iff.mp hp
        exact hv c p hc hp
      · rwa [define, modify_of_size_le (Nat.not_lt.mp inside)]
    | @run st scope limit node _ hs ih =>
      exact exists_steps_perform (s := .run limit scope node) ih hs
  · rintro ⟨steps, admits, rfl⟩
    induction steps using List.reverseRecOn with
    | nil => exact .empty
    | append_singleton steps s ih =>
      obtain ⟨before, hs⟩ := admits_concat.mp admits
      rw [built_concat]
      exact (ih before).perform hs

end

end Store

end Lisplet
