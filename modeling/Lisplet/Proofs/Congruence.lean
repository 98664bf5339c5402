import Lisplet.Eval
import Mathlib.Data.List.Forall2

/-! Relations that evaluation respects. Two runs of one construct are compared by a relation on
computations; `Staged.Laws` lists what the relation has to be closed under, and `Staged.Laws.list`
says that it then holds of everything a list can do, given that it holds of the expressions inside.
The relations may depend on a stage, such as the number of scopes; `Congruence` is the case without.
What a run compares with another, and what a single run leaves behind, are instances of this. -/
namespace Lisplet

variable {ν : Type}

/-- Functions that differ in their bodies and scopes only, and there as the relations allow. -/
structure Closure.Rel (N : ν → ν → Prop) (S : Option ScopeId → Option ScopeId → Prop)
    (c d : Closure ν) : Prop where
  name : c.name = d.name
  params : c.params = d.params
  body : N c.body d.body
  scope : S c.scope d.scope

inductive Payload.Rel (N : ν → ν → Prop) (S : Option ScopeId → Option ScopeId → Prop) :
    Payload ν → Payload ν → Prop
  | none : Rel N S .none .none
  | int (n : Int32) : Rel N S (.int n) (.int n)
  | text (s : String) : Rel N S (.text s) (.text s)
  | bool (b : Bool) : Rel N S (.bool b) (.bool b)
  | closure {c d : Closure ν} : Closure.Rel N S c d → Rel N S (.closure c) (.closure d)

structure Value.Rel (N : ν → ν → Prop) (S : Option ScopeId → Option ScopeId → Prop)
    (v w : Value ν) : Prop where
  kind : v.kind = w.kind
  payload : Payload.Rel N S v.payload w.payload

inductive Shape.Rel (N : ν → ν → Prop) : Shape ν → Shape ν → Prop
  | absent : Rel N .absent .absent
  | blank : Rel N .blank .blank
  | atom (text : String) : Rel N (.atom text) (.atom text)
  | list {xs ys : List ν} : List.Forall₂ N xs ys → Rel N (.list xs) (.list ys)

section
variable {N : ν → ν → Prop} {S : Option ScopeId → Option ScopeId → Prop}

theorem Closure.Rel.text {c d : Closure ν} (h : c.Rel N S d) : c.text = d.text := by
  simp only [Closure.text, h.name, h.params]

theorem Payload.Rel.shown {p q : Payload ν} (h : p.Rel N S q) : p.shown = q.shown := by
  cases h with
  | closure h => exact h.text
  | none | int | text | bool => rfl

theorem Payload.Rel.typeName {p q : Payload ν} (h : p.Rel N S q) : p.typeName = q.typeName := by
  cases h <;> rfl

namespace Value.Rel

variable {v w : Value ν}

theorem int? (h : v.Rel N S w) : v.int? = w.int? := by
  obtain ⟨_, p⟩ := v
  obtain ⟨_, q⟩ := w
  cases h.payload <;> rfl

theorem text? (h : v.Rel N S w) : v.text? = w.text? := by
  obtain ⟨_, p⟩ := v
  obtain ⟨_, q⟩ := w
  cases h.payload <;> rfl

theorem bool? (h : v.Rel N S w) : v.bool? = w.bool? := by
  obtain ⟨_, p⟩ := v
  obtain ⟨_, q⟩ := w
  cases h.payload <;> rfl

theorem closure? (h : v.Rel N S w) :
    Option.Rel (Closure.Rel N S) v.closure? w.closure? := by
  obtain ⟨_, p⟩ := v
  obtain ⟨_, q⟩ := w
  cases h.payload with
  | closure hc => exact .some hc
  | none | int | text | bool => exact .none

theorem closureText (h : v.Rel N S w) :
    v.closure?.map Closure.text = w.closure?.map Closure.text := by
  have hc := h.closure?
  generalize v.closure? = a at hc ⊢
  generalize w.closure? = b at hc ⊢
  cases hc with
  | none => rfl
  | some hc => simp only [Option.map_some, hc.text]

theorem render? (h : v.Rel N S w) : v.render? = w.render? := by
  unfold Value.render?
  rw [h.kind, h.int?, h.bool?, h.closureText, h.payload.shown]

theorem truthy? (h : v.Rel N S w) : v.truthy? = w.truthy? := by
  unfold Value.truthy?
  rw [h.kind, h.int?, h.bool?]

theorem shown (h : v.Rel N S w) : v.shown = w.shown := by
  unfold Value.shown
  rw [h.kind, h.render?, h.payload.typeName]

theorem refl (hN : ∀ a, N a a) (hS : ∀ s, S s s) (v : Value ν) : v.Rel N S v := by
  obtain ⟨kind, p⟩ := v
  refine ⟨rfl, ?_⟩
  cases p with
  | closure c => exact .closure ⟨rfl, rfl, hN _, hS _⟩
  | none => exact .none
  | int n => exact .int n
  | text s => exact .text s
  | bool b => exact .bool b

theorem ofInt (n : Int32) : (Value.ofInt n : Value ν).Rel N S (.ofInt n) := ⟨rfl, .int n⟩

theorem ofBool (b : Bool) : (Value.ofBool b : Value ν).Rel N S (.ofBool b) := ⟨rfl, .bool b⟩

theorem nil : (Value.nil : Value ν).Rel N S .nil := ⟨rfl, .none⟩

theorem ofText (text : String) : (Value.ofText text : Value ν).Rel N S (.ofText text) := by
  unfold Value.ofText
  split
  · exact ⟨rfl, .int _⟩
  · exact ⟨rfl, .text _⟩
  · exact ⟨rfl, .text _⟩

theorem ofClosure {c d : Closure ν} (h : c.Rel N S d) :
    (Value.ofClosure c).Rel N S (.ofClosure d) := ⟨rfl, .closure h⟩

end Value.Rel

end

/-- Values that look the same: of one kind, with the same data, or functions with the same name and
parameters. -/
abbrev Value.Like : Value ν → Value ν → Prop := Value.Rel (fun _ _ => True) (fun _ _ => True)

theorem Value.Rel.like {N : ν → ν → Prop} {S : Option ScopeId → Option ScopeId → Prop}
    {v w : Value ν} (h : v.Rel N S w) : v.Like w := by
  obtain ⟨_, p⟩ := v
  obtain ⟨_, q⟩ := w
  refine ⟨h.kind, ?_⟩
  cases h.payload with
  | closure hc => exact .closure ⟨hc.name, hc.params, trivial, trivial⟩
  | none => exact .none
  | int n => exact .int n
  | text s => exact .text s
  | bool b => exact .bool b

/-- The same names in the same order, bound to values that are related. -/
abbrev Bindings.Rel (V : Value ν → Value ν → Prop) :
    Bindings (Value ν) → Bindings (Value ν) → Prop :=
  List.Forall₂ fun p q => p.1 = q.1 ∧ V p.2 q.2

namespace Bindings.Rel

variable {V : Value ν → Value ν → Prop} {bs bs' : Bindings (Value ν)}

theorem get? (h : Bindings.Rel V bs bs') (x : String) :
    Option.Rel V (bs.get? x) (bs'.get? x) := by
  induction h with
  | nil => exact .none
  | @cons p q _ _ hp _ ih =>
    obtain ⟨y, v⟩ := p
    obtain ⟨_, w⟩ := q
    obtain ⟨rfl, hv⟩ := hp
    simp only [Bindings.get?]
    split
    · exact .some hv
    · exact ih

theorem set (h : Bindings.Rel V bs bs') (x : String) {v w : Value ν} (hv : V v w) :
    Bindings.Rel V (bs.set x v) (bs'.set x w) := by
  induction h with
  | nil => exact .cons ⟨rfl, hv⟩ .nil
  | @cons p q _ _ hp hs ih =>
    obtain ⟨y, v'⟩ := p
    obtain ⟨_, w'⟩ := q
    obtain ⟨rfl, hv'⟩ := hp
    simp only [Bindings.set]
    split
    · exact .cons ⟨rfl, hv⟩ hs
    · exact .cons ⟨rfl, hv'⟩ ih

end Bindings.Rel

namespace Value.WellTyped

variable {v : Value ν}

/-- All the values whose payload is what the kind promises. -/
theorem cases (h : v.WellTyped) :
    v = .nil ∨ (∃ n, v = .ofInt n) ∨ (∃ s, v = .ofString s) ∨ (∃ b, v = .ofBool b) ∨
      (∃ c, v = .ofClosure c) ∨ ∃ s, v = .ofOperator s := by
  obtain ⟨kind, p⟩ := v
  unfold WellTyped at h
  split at h <;> simp_all [Value.nil, ofInt, ofString, ofBool, ofClosure, ofOperator]

theorem int? (h : v.WellTyped) (hk : v.kind = .int) : v.int?.isSome := by
  obtain rfl | ⟨_, rfl⟩ | ⟨_, rfl⟩ | ⟨_, rfl⟩ | ⟨_, rfl⟩ | ⟨_, rfl⟩ := h.cases <;> cases hk
  rfl

theorem text? (h : v.WellTyped) (hk : v.kind = .string ∨ v.kind = .operator) : v.text?.isSome := by
  obtain rfl | ⟨_, rfl⟩ | ⟨_, rfl⟩ | ⟨_, rfl⟩ | ⟨_, rfl⟩ | ⟨_, rfl⟩ := h.cases <;>
    rcases hk with hk | hk <;> cases hk <;> rfl

theorem closure? (h : v.WellTyped) (hk : v.kind = .closure) : v.closure?.isSome := by
  obtain rfl | ⟨_, rfl⟩ | ⟨_, rfl⟩ | ⟨_, rfl⟩ | ⟨_, rfl⟩ | ⟨_, rfl⟩ := h.cases <;> cases hk
  rfl

theorem render? (h : v.WellTyped) : v.render?.isSome := by
  obtain rfl | ⟨_, rfl⟩ | ⟨_, rfl⟩ | ⟨_, rfl⟩ | ⟨_, rfl⟩ | ⟨_, rfl⟩ := h.cases <;> rfl

theorem truthy? (h : v.WellTyped) : v.truthy?.isSome := by
  obtain rfl | ⟨_, rfl⟩ | ⟨_, rfl⟩ | ⟨_, rfl⟩ | ⟨_, rfl⟩ | ⟨_, rfl⟩ := h.cases <;> rfl

end Value.WellTyped

theorem Shape.Rel.refl {N : ν → ν → Prop} (hN : ∀ a, N a a) (x : Shape ν) : x.Rel N x := by
  cases x with
  | absent => exact .absent
  | blank => exact .blank
  | atom text => exact .atom text
  | list items => exact .list (List.forall₂_same.mpr fun a _ => hN a)

/-- The relation of values that goes with equality of bodies and scopes is equality. -/
abbrev Value.Same : Value ν → Value ν → Prop := Value.Rel (· = ·) (· = ·)

theorem Closure.Rel.eq {c d : Closure ν} (h : c.Rel (· = ·) (· = ·) d) : c = d := by
  obtain ⟨name, params, body, scope⟩ := c
  obtain ⟨_, _, _, _⟩ := d
  obtain ⟨rfl, rfl, rfl, rfl⟩ := h
  rfl

theorem Value.Same.eq {v w : Value ν} (h : v.Same w) : v = w := by
  obtain ⟨kind, p⟩ := v
  obtain ⟨_, q⟩ := w
  obtain ⟨rfl, h⟩ := h
  cases h with
  | closure h => rw [h.eq]
  | none | int | text | bool => rfl

theorem Value.Same.all_eq {vs ws : List (Value ν)} (h : List.Forall₂ Value.Same vs ws) :
    vs = ws := by
  induction h with
  | nil => rfl
  | cons h _ ih => rw [h.eq, ih]

theorem Value.Same.refl (v : Value ν) : v.Same v :=
  Value.Rel.refl (fun _ => rfl) (fun _ => rfl) v

namespace Eval

section
variable {α β : Type} {x : Eval ν α} {f : α → Eval ν β} {m m' : Machine ν}

/-- What a computation gives, and the machine it leaves. -/
abbrev exec (x : Eval ν α) (m : Machine ν) : Except Halt α × Machine ν := x.run.run m

theorem exec_bind_of_ok {a : α} (h : x.exec m = (.ok a, m')) :
    (x >>= f).exec m = (f a).exec m' := by
  simp only [exec, ExceptT.run_bind, StateT.run_bind] at h ⊢
  rw [h]
  rfl

theorem exec_bind_of_error {e : Halt} (h : x.exec m = (.error e, m')) :
    (x >>= f).exec m = (.error e, m') := by
  simp only [exec, ExceptT.run_bind, StateT.run_bind] at h ⊢
  rw [h]
  rfl

theorem exec_bind_cases (x : Eval ν α) (f : α → Eval ν β) (m : Machine ν) :
    (∃ e m', x.exec m = (.error e, m') ∧ (x >>= f).exec m = (.error e, m')) ∨
      ∃ a m', x.exec m = (.ok a, m') ∧ (x >>= f).exec m = (f a).exec m' := by
  rcases hr : x.exec m with ⟨e | a, m'⟩
  · exact .inl ⟨e, m', rfl, exec_bind_of_error hr⟩
  · exact .inr ⟨a, m', rfl, exec_bind_of_ok hr⟩

end

/-- Relations on what evaluation works with, and on computations given one on their results. They
may depend on a stage, which a run only ever raises. -/
structure Staged (ν σ : Type) where
  before : σ → σ → Prop
  nodes : ν → ν → Prop
  places : Position → Position → Prop
  values : σ → Value ν → Value ν → Prop
  rel : {α β : Type} → σ → (σ → α → β → Prop) → Eval ν α → Eval ν β → Prop

/-- The relations are respected by two evaluators in the scopes `s` and `s'`, from the stage `t₀`
on. A name is bound only if it is the text of an atom. A call is one step of it, since its body runs
in a scope of its own. -/
structure Staged.Laws {σ : Type} (L : Staged ν σ) (view : ν → Form ν)
    (ev ev' : Evaluator ν) (s s' : Option ScopeId) (t₀ : σ) : Prop where
  shape {a b : ν} : L.nodes a b → (view a).shape.Rel L.nodes (view b).shape
  place {a b : ν} : L.nodes a b → L.places (view a).position (view b).position
  trans {t t' t'' : σ} : L.before t t' → L.before t' t'' → L.before t t''
  like {t : σ} {v w : Value ν} : L.values t v w → v.Like w
  mono {t t' : σ} {v w : Value ν} : L.before t t' → L.values t v w → L.values t' v w
  ofInt (t : σ) (n : Int32) : L.values t (.ofInt n) (.ofInt n)
  ofBool (t : σ) (b : Bool) : L.values t (.ofBool b) (.ofBool b)
  nil (t : σ) : L.values t .nil .nil
  ofClosure {t : σ} {a b : ν} (name : String) (params : List String) : L.before t₀ t → L.nodes a b →
    L.values t (.ofClosure ⟨name, params, a, s⟩) (.ofClosure ⟨name, params, b, s'⟩)
  pure {α β : Type} {R : σ → α → β → Prop} {t : σ} {a : α} {b : β} :
    R t a b → L.rel t R (Pure.pure a) (Pure.pure b)
  bind {α β γ δ : Type} {R : σ → α → β → Prop} {Q : σ → γ → δ → Prop} {t : σ}
    {x : Eval ν α} {y : Eval ν β} {f : α → Eval ν γ} {g : β → Eval ν δ} : L.rel t R x y →
    (∀ t' a b, L.before t t' → R t' a b → L.rel t' Q (f a) (g b)) → L.rel t Q (x >>= f) (y >>= g)
  fail {α β : Type} {R : σ → α → β → Prop} {t : σ} {p q : Position} (cause : EvalError.Cause) :
    L.places p q → L.rel t R (Eval.fail p cause) (Eval.fail q cause)
  absent {α β : Type} {R : σ → α → β → Prop} {t : σ} {a b : ν} : L.nodes a b →
    (view a).shape = .absent → L.rel t R (Eval.fault .missing) (Eval.fault .missing)
  mistyped {α β : Type} {R : σ → α → β → Prop} {t : σ} {v w : Value ν} : L.values t v w →
    ¬v.WellTyped → L.rel t R (Eval.fault .mistyped) (Eval.fault .mistyped)
  eval {t : σ} {a b : ν} : L.before t₀ t → L.nodes a b → L.rel t L.values (ev s a) (ev' s' b)
  assign {t : σ} {v w : Value ν} {a b : ν} {x : String} : L.before t₀ t → L.nodes a b →
    (view a).shape = .atom x → L.values t v w →
    L.rel t (fun _ => (· = ·)) (Eval.assign s x v) (Eval.assign s' x w)
  call {t : σ} {v w : Value ν} {c d : Closure ν} {vs ws : List (Value ν)} : L.before t₀ t →
    L.values t v w → v.closure? = some c → w.closure? = some d →
    List.Forall₂ (L.values t) vs ws →
    L.rel t L.values (enter c vs >>= fun k => ev (some k) c.body)
      (enter d ws >>= fun k => ev' (some k) d.body)

namespace Staged.Laws

variable {σ : Type} {L : Staged ν σ} {view : ν → Form ν} {ev ev' : Evaluator ν}
variable {s s' : Option ScopeId} {t₀ t : σ} (K : L.Laws view ev ev' s s' t₀) {p q : Position}
include K

theorem bind_eq {α γ δ : Type} {Q : σ → γ → δ → Prop} {x y : Eval ν α} {f : α → Eval ν γ}
    {g : α → Eval ν δ} (h : L.rel t (fun _ => (· = ·)) x y)
    (hf : ∀ t' a, L.before t t' → L.rel t' Q (f a) (g a)) : L.rel t Q (x >>= f) (y >>= g) := by
  refine K.bind h fun t' a b ht hab => ?_
  subst hab
  exact hf t' a ht

theorem need {α : Type} {a b : Option α} {v w : Value ν} (hv : L.values t v w) (same : a = b)
    (typed : v.WellTyped → a.isSome) : L.rel t (fun _ => (· = ·)) (Eval.need a) (Eval.need b) := by
  subst same
  cases a with
  | some a => exact K.pure rfl
  | none => exact K.mistyped hv fun h => by cases typed h

theorem integer (ht : L.before t₀ t) {a b : ν} (h : L.nodes a b) :
    L.rel t (fun _ => (· = ·)) (Eval.integer view ev s a) (Eval.integer view ev' s' b) := by
  refine K.bind (K.eval ht h) fun t v w _ hv => ?_
  rw [← (K.like hv).kind]
  split
  · rename_i hk
    exact K.need hv (K.like hv).int? fun typed => typed.int? hk
  · refine K.bind_eq (K.need hv (K.like hv).render? Value.WellTyped.render?) fun t text _ => ?_
    exact K.fail _ (K.place h)

theorem accumulate (op : Arithmetic) {xs ys : List ν} (h : List.Forall₂ L.nodes xs ys)
    (ht : L.before t₀ t) (acc : Int32) :
    L.rel t (fun _ => (· = ·)) (Eval.accumulate view ev s op acc xs)
      (Eval.accumulate view ev' s' op acc ys) := by
  induction h generalizing t acc with
  | nil => exact K.pure rfl
  | cons hx _ ih =>
    refine K.bind_eq (K.integer ht hx) fun t' n later => ?_
    cases op.apply? acc n with
    | some acc => exact ih (K.trans ht later) acc
    | none => exact K.fail _ (K.place hx)

theorem arithmetic (ht : L.before t₀ t) (hp : L.places p q) (name : String) (op : Arithmetic)
    {xs ys : List ν} (h : List.Forall₂ L.nodes xs ys) :
    L.rel t L.values (Eval.arithmetic view ev s p name op xs)
      (Eval.arithmetic view ev' s' q name op ys) := by
  cases h with
  | nil => exact K.fail _ hp
  | cons hx hxs =>
    refine K.bind_eq (K.integer ht hx) fun t₁ first later => ?_
    refine K.bind_eq (K.accumulate op hxs (K.trans ht later) first) fun t₂ n _ => ?_
    exact K.pure (K.ofInt t₂ n)

theorem comparison (ht : L.before t₀ t) (hp : L.places p q) (name : String) (op : Comparison)
    {xs ys : List ν} (h : List.Forall₂ L.nodes xs ys) :
    L.rel t L.values (Eval.comparison view ev s p name op xs)
      (Eval.comparison view ev' s' q name op ys) := by
  match h with
  | .cons hl (.cons hr .nil) =>
    refine K.bind_eq (K.integer ht hl) fun t₁ a later => ?_
    exact K.bind_eq (K.integer (K.trans ht later) hr) fun t₂ b _ => K.pure (K.ofBool t₂ _)
  | .nil => exact K.fail _ hp
  | .cons _ .nil => exact K.fail _ hp
  | .cons _ (.cons _ (.cons _ hs)) =>
    simp only [Eval.comparison, List.length_cons, hs.length_eq]
    exact K.fail _ hp

/-- The names in a signature are those of atoms. -/
theorem signature {xs ys : List ν} (h : List.Forall₂ L.nodes xs ys) :
    L.rel t (fun _ names names' => names = names' ∧
        ∀ x ∈ names, ∃ a b, L.nodes a b ∧ (view a).shape = .atom x)
      (Eval.signature view xs) (Eval.signature view ys) := by
  induction h generalizing t with
  | nil => exact K.pure ⟨rfl, nofun⟩
  | @cons a b xs ys hx _ ih =>
    have hs := K.shape hx
    unfold Eval.signature
    generalize ha : (view a).shape = x at hs ⊢
    generalize (view b).shape = y at hs ⊢
    cases hs with
    | absent => exact K.absent hx ha
    | blank | list => exact K.fail _ (K.place hx)
    | atom text =>
      refine K.bind ih fun t names _ _ ⟨same, atoms⟩ => K.pure ⟨by rw [same], ?_⟩
      exact List.forall_mem_cons.mpr ⟨⟨a, b, hx, ha⟩, atoms⟩

theorem function (ht : L.before t₀ t) (hp : L.places p q) {xs ys : List ν}
    (h : List.Forall₂ L.nodes xs ys) {a b : ν} (hb : L.nodes a b) :
    L.rel t L.values (Eval.function view s p xs a) (Eval.function view s' q ys b) := by
  refine K.bind (K.signature h) fun t₁ names _ later ⟨same, atoms⟩ => ?_
  subst same
  cases names with
  | nil => exact K.fail _ hp
  | cons name params =>
    obtain ⟨c, d, hc, named⟩ := atoms name List.mem_cons_self
    have hv := K.ofClosure name params (K.trans ht later) hb
    refine K.bind (K.assign (K.trans ht later) hc named hv) fun t₂ _ _ later' _ => ?_
    exact K.pure (K.mono later' hv)

theorem define (ht : L.before t₀ t) (hp : L.places p q) {xs ys : List ν}
    (h : List.Forall₂ L.nodes xs ys) :
    L.rel t L.values (Eval.define view ev s p xs) (Eval.define view ev' s' q ys) := by
  match h with
  | .cons (a := head) (b := head') hh (.cons hb .nil) =>
    have hs := K.shape hh
    simp only [Eval.define]
    generalize hx : (view head).shape = x at hs ⊢
    generalize (view head').shape = y at hs ⊢
    cases hs with
    | absent => exact K.absent hh hx
    | blank => exact K.function ht (K.place hh) .nil hb
    | list hs => exact K.function ht (K.place hh) hs hb
    | atom name =>
      refine K.bind (K.eval ht hb) fun t₁ v w later hv => ?_
      refine K.bind (K.assign (K.trans ht later) hh hx hv) fun t₂ _ _ later' _ => ?_
      exact K.pure (K.mono later' hv)
  | .nil => exact K.fail _ hp
  | .cons _ .nil => exact K.fail _ hp
  | .cons _ (.cons _ (.cons _ hs)) =>
    simp only [Eval.define, List.length_cons, hs.length_eq]
    exact K.fail _ hp

theorem condition (ht : L.before t₀ t) {α β : Type} {R : σ → α → β → Prop} {a b : ν}
    (h : L.nodes a b) {yes no : Eval ν α} {yes' no' : Eval ν β}
    (hy : ∀ t, L.before t₀ t → L.rel t R yes yes')
    (hn : ∀ t, L.before t₀ t → L.rel t R no no') :
    L.rel t R (do if ← Eval.need (← ev s a).truthy? then yes else no)
      (do if ← Eval.need (← ev' s' b).truthy? then yes' else no') := by
  refine K.bind (K.eval ht h) fun t₁ v w later hv => ?_
  refine K.bind_eq (K.need hv (K.like hv).truthy? Value.WellTyped.truthy?) fun t₂ c later' => ?_
  cases c with
  | true => exact hy t₂ (K.trans (K.trans ht later) later')
  | false => exact hn t₂ (K.trans (K.trans ht later) later')

theorem branch (ht : L.before t₀ t) (hp : L.places p q) {xs ys : List ν}
    (h : List.Forall₂ L.nodes xs ys) :
    L.rel t L.values (Eval.branch ev s p xs) (Eval.branch ev' s' q ys) := by
  match h with
  | .cons hc (.cons hy .nil) =>
    exact K.condition ht hc (fun t ht => K.eval ht hy) fun t _ => K.pure (K.nil t)
  | .cons hc (.cons hy (.cons hn .nil)) =>
    exact K.condition ht hc (fun t ht => K.eval ht hy) fun t ht => K.eval ht hn
  | .nil => exact K.fail _ hp
  | .cons _ .nil => exact K.fail _ hp
  | .cons _ (.cons _ (.cons _ (.cons _ hs))) =>
    simp only [Eval.branch, List.length_cons, hs.length_eq]
    exact K.fail _ hp

theorem arguments (ht : L.before t₀ t) {xs ys : List ν} (h : List.Forall₂ L.nodes xs ys) :
    L.rel t (fun t => List.Forall₂ (L.values t)) (Eval.arguments ev s xs)
      (Eval.arguments ev' s' ys) := by
  induction h generalizing t with
  | nil => exact K.pure .nil
  | cons hx _ ih =>
    refine K.bind (K.eval ht hx) fun t₁ v w later hv => ?_
    refine K.bind (ih (K.trans ht later)) fun t₂ vs ws later' hvs => ?_
    exact K.pure (.cons (K.mono later' hv) hvs)

theorem apply (ht : L.before t₀ t) (hp : L.places p q) {v w : Value ν} (hv : L.values t v w)
    {c d : Closure ν} (hc : v.closure? = some c) (hd : w.closure? = some d) {xs ys : List ν}
    (h : List.Forall₂ L.nodes xs ys) :
    L.rel t L.values (Eval.apply ev s p c xs) (Eval.apply ev' s' q d ys) := by
  have same := (K.like hv).closure?
  rw [hc, hd] at same
  obtain ⟨same⟩ := same
  unfold Eval.apply
  rw [h.length_eq, same.params, same.name]
  split
  · exact K.fail _ hp
  · refine K.bind (K.arguments ht h) fun t₁ vs ws later hvs => ?_
    exact K.call (K.trans ht later) (K.mono later hv) hc hd hvs

theorem operate (ht : L.before t₀ t) (hp : L.places p q) (name : String) (op : Option Operator)
    {xs ys : List ν} (h : List.Forall₂ L.nodes xs ys) :
    L.rel t L.values
      (match op with
        | some .define => Eval.define view ev s p xs
        | some .branch => Eval.branch ev s p xs
        | some (.arithmetic op) => Eval.arithmetic view ev s p name op xs
        | some (.comparison op) => Eval.comparison view ev s p name op xs
        | none => Eval.fail p (.unknownOperator name))
      (match op with
        | some .define => Eval.define view ev' s' q ys
        | some .branch => Eval.branch ev' s' q ys
        | some (.arithmetic op) => Eval.arithmetic view ev' s' q name op ys
        | some (.comparison op) => Eval.comparison view ev' s' q name op ys
        | none => Eval.fail q (.unknownOperator name)) := by
  match op with
  | some .define => exact K.define ht hp h
  | some .branch => exact K.branch ht hp h
  | some (.arithmetic op) => exact K.arithmetic ht hp name op h
  | some (.comparison op) => exact K.comparison ht hp name op h
  | none => exact K.fail _ hp

theorem dispatch (ht : L.before t₀ t) (hp : L.places p q) {v w : Value ν} (hv : L.values t v w)
    {xs ys : List ν} (h : List.Forall₂ L.nodes xs ys) :
    L.rel t L.values (Eval.call view ev s p v xs) (Eval.call view ev' s' q w ys) := by
  have like := K.like hv
  unfold Eval.call
  rw [← like.kind, like.shown]
  split
  · rename_i hk
    have typed : v.WellTyped → v.text?.isSome := fun typed => typed.text? (.inr hk)
    exact K.bind_eq (K.need hv like.text? typed) fun t₁ name later =>
      K.operate (K.trans ht later) hp name _ h
  · rename_i hk
    have typed : v.WellTyped → v.closure?.isSome := fun typed => typed.closure? hk
    have closures := like.closure?
    generalize hc : v.closure? = c at closures typed ⊢
    generalize hd : w.closure? = d at closures ⊢
    cases closures with
    | none => exact K.mistyped hv fun h => by cases typed h
    | some same => exact K.apply ht hp hv hc hd h
  · rename_i hk
    have typed : v.WellTyped → v.text?.isSome := fun typed => typed.text? (.inl hk)
    exact K.bind_eq (K.need hv like.text? typed) fun t₁ name _ => K.fail _ hp
  · exact K.fail _ hp

/-- Whatever a list makes the evaluators do is related. -/
theorem list (ht : L.before t₀ t) (hp : L.places p q) {xs ys : List ν}
    (h : List.Forall₂ L.nodes xs ys) :
    L.rel t L.values (Eval.list view ev s p xs) (Eval.list view ev' s' q ys) := by
  cases h with
  | nil => exact K.fail _ hp
  | cons hx hxs =>
    exact K.bind (K.eval ht hx) fun t₁ v w later hv => K.dispatch (K.trans ht later) hp hv hxs

end Staged.Laws

/-- Relations that stay the same throughout a run. -/
structure Relations (ν : Type) where
  nodes : ν → ν → Prop
  scopes : Option ScopeId → Option ScopeId → Prop
  places : Position → Position → Prop
  rel : {α β : Type} → (α → β → Prop) → Eval ν α → Eval ν β → Prop

abbrev Relations.values (L : Relations ν) : Value ν → Value ν → Prop :=
  Value.Rel L.nodes L.scopes

/-- The relations are respected by two evaluators in the scopes `s` and `s'`. A call is one step of
it, since its body runs in a scope of its own. -/
structure Congruence (L : Relations ν) (view : ν → Form ν) (ev ev' : Evaluator ν)
    (s s' : Option ScopeId) : Prop where
  here : L.scopes s s'
  shape {a b : ν} : L.nodes a b → (view a).shape.Rel L.nodes (view b).shape
  place {a b : ν} : L.nodes a b → L.places (view a).position (view b).position
  pure {α β : Type} {R : α → β → Prop} {a : α} {b : β} :
    R a b → L.rel R (Pure.pure a) (Pure.pure b)
  bind {α β γ δ : Type} {R : α → β → Prop} {Q : γ → δ → Prop} {x : Eval ν α} {y : Eval ν β}
    {f : α → Eval ν γ} {g : β → Eval ν δ} :
    L.rel R x y → (∀ a b, R a b → L.rel Q (f a) (g b)) → L.rel Q (x >>= f) (y >>= g)
  fail {α β : Type} {R : α → β → Prop} {p q : Position} (cause : EvalError.Cause) :
    L.places p q → L.rel R (Eval.fail p cause) (Eval.fail q cause)
  fault {α β : Type} {R : α → β → Prop} (f : Fault) : L.rel R (Eval.fault f) (Eval.fault f)
  eval {a b : ν} : L.nodes a b → L.rel L.values (ev s a) (ev' s' b)
  assign {v w : Value ν} (x : String) : L.values v w →
    L.rel (· = ·) (Eval.assign s x v) (Eval.assign s' x w)
  call {c d : Closure ν} {vs ws : List (Value ν)} : c.Rel L.nodes L.scopes d →
    List.Forall₂ L.values vs ws →
    L.rel L.values (enter c vs >>= fun k => ev (some k) c.body)
      (enter d ws >>= fun k => ev' (some k) d.body)

namespace Congruence

variable {L : Relations ν} {view : ν → Form ν} {ev ev' : Evaluator ν} {s s' : Option ScopeId}

/-- One stage is enough where the relations stay the same. -/
theorem laws (K : Congruence L view ev ev' s s') :
    Staged.Laws (σ := Unit)
      ⟨fun _ _ => True, L.nodes, L.places, fun _ => L.values, fun _ R => L.rel (R ())⟩
      view ev ev' s s' () where
  shape := K.shape
  place := K.place
  trans _ _ := trivial
  like := Value.Rel.like
  mono _ hv := hv
  ofInt _ n := .ofInt n
  ofBool _ b := .ofBool b
  nil _ := .nil
  ofClosure _ _ _ hb := .ofClosure ⟨rfl, rfl, hb, K.here⟩
  pure := K.pure
  bind hx hf := K.bind hx fun a b hab => hf () a b trivial hab
  fail := K.fail
  absent _ _ := K.fault _
  mistyped _ _ := K.fault _
  eval _ := K.eval
  assign _ _ _ := K.assign _
  call _ hv hc hd hvs := by
    have same := hv.closure?
    rw [hc, hd] at same
    obtain ⟨same⟩ := same
    exact K.call same hvs

/-- Whatever a list makes the evaluators do is related. -/
theorem list (K : Congruence L view ev ev' s s') {p q : Position} (hp : L.places p q)
    {xs ys : List ν} (h : List.Forall₂ L.nodes xs ys) :
    L.rel L.values (Eval.list view ev s p xs) (Eval.list view ev' s' q ys) :=
  K.laws.list (t := ()) trivial hp h

end Congruence

end Eval

end Lisplet
