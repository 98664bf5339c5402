import Lisplet.Proofs.Soundness

/-! Bindings that nothing mentions do not matter. If a name is the text of no atom, neither in a
source nor in a function within reach, it is neither looked up nor bound in the root scope. So two
runs from stores that differ in what it stands for there go together step by step. -/
namespace Lisplet

namespace Tree

theorem ne_of_mentions_eq_false {x y : String} {t : Tree} (h : t.mentions x = false)
    (atom : t.form.shape = .atom y) : y ≠ x := by
  cases t <;> cases atom
  exact of_decide_eq_false h

end Tree

/-! ## Stores that differ in one binding -/

/-- Scopes that are the same but for `x`, which is `old` in the one and `new` in the other. -/
structure Scope.Differ (x : String) (old new : Option (Value Tree)) (a b : Scope Tree) : Prop where
  name : b.name = a.name
  parent : b.parent = a.parent
  other (y : String) : y ≠ x → b.bindings.get? y = a.bindings.get? y
  old : a.bindings.get? x = old
  new : b.bindings.get? x = new

/-- Stores that are the same but for `x` in one scope. -/
structure Store.Differ (x : String) (root : ScopeId) (old new : Option (Value Tree))
    (st st' : Store Tree) : Prop where
  size : st'.scopes.size = st.scopes.size
  other (id : ScopeId) : id ≠ root → st'.scopes[id]? = st.scopes[id]?
  root : ∃ a b, st.scopes[root]? = some a ∧ st'.scopes[root]? = some b ∧ a.Differ x old new b

section
variable {x y : String} {root id : ScopeId} {old new : Option (Value Tree)}

theorem Scope.Differ.set {a b : Scope Tree} (h : a.Differ x old new b) (ne : y ≠ x)
    (v : Value Tree) :
    Scope.Differ x old new { a with bindings := a.bindings.set y v }
      { b with bindings := b.bindings.set y v } := by
  refine ⟨h.name, h.parent, fun z hz => ?_, ?_, ?_⟩
  · simp only [Bindings.get?_set, h.other z hz]
  · rw [Bindings.get?_set, if_neg ne, h.old]
  · rw [Bindings.get?_set, if_neg ne, h.new]

namespace Store.Differ

variable {st st' : Store Tree} (h : st.Differ x root old new st')
include h

theorem root_lt : root < st.scopes.size := by
  obtain ⟨a, _, ha, -⟩ := h.root
  exact (Array.getElem?_eq_some_iff.mp ha).1

theorem define (hid : id = root → y ≠ x) (v : Value Tree) :
    (st.define id y v).Differ x root old new (st'.define id y v) := by
  refine ⟨?_, fun other ne => ?_, ?_⟩
  · rw [size_define, size_define, h.size]
  · simp only [Store.define, Store.modify, Array.getElem?_modify, h.other other ne]
  · obtain ⟨a, b, ha, hb, differ⟩ := h.root
    by_cases own : root = id
    · subst own
      exact ⟨_, _, scopes_define_self y v ha, scopes_define_self y v hb, differ.set (hid rfl) v⟩
    · rw [scopes_define_ne y v own, scopes_define_ne y v own]
      exact ⟨a, b, ha, hb, differ⟩

theorem create (parent : Option ScopeId) (name : String) :
    (st.create parent name).Differ x root old new (st'.create parent name) := by
  refine ⟨?_, fun id ne => ?_, ?_⟩
  · simp only [Store.create, Array.size_push, h.size]
  · simp only [Store.create, Array.getElem?_push, h.size, h.other id ne]
  · obtain ⟨a, b, ha, hb, differ⟩ := h.root
    rw [scopes_create_lt _ _ h.root_lt, scopes_create_lt _ _ (h.size ▸ h.root_lt)]
    exact ⟨a, b, ha, hb, differ⟩

theorem defineAll (ne : id ≠ root) (names : List String) (vs : List (Value Tree)) :
    (st.defineAll id names vs).Differ x root old new (st'.defineAll id names vs) := by
  induction names generalizing st st' vs with
  | nil => exact h
  | cons y names ih =>
    cases vs with
    | nil => exact h
    | cons v vs => exact ih (h.define (fun own => absurd own ne) v) vs

/-- Each scope has its name and its parent, and binds the other names as before. -/
theorem scope (id : ScopeId) :
    Option.Rel (fun a b => b.name = a.name ∧ b.parent = a.parent ∧
      ∀ y, y ≠ x → b.bindings.get? y = a.bindings.get? y) st.scopes[id]? st'.scopes[id]? := by
  by_cases own : id = root
  · obtain ⟨a, b, ha, hb, differ⟩ := h.root
    rw [own, ha, hb]
    exact .some ⟨differ.name, differ.parent, differ.other⟩
  · rw [h.other id own]
    cases st.scopes[id]? with
    | none => exact .none
    | some a => exact .some ⟨rfl, rfl, fun _ _ => rfl⟩

theorem lookupFrom (ne : y ≠ x) (id : ScopeId) : st'.lookupFrom y id = st.lookupFrom y id := by
  induction id using Nat.strongRecOn with
  | ind id ih =>
    unfold Store.lookupFrom
    have hs := h.scope id
    generalize st.scopes[id]? = a at hs ⊢
    generalize st'.scopes[id]? = b at hs ⊢
    cases hs with
    | none => rfl
    | @some a b hs =>
      obtain ⟨-, parent, bound⟩ := hs
      simp only [parent, bound y ne]
      split
      · rfl
      · rfl
      · split
        · rename_i lt
          exact ih _ lt
        · rfl

theorem lookup (ne : y ≠ x) (s : Option ScopeId) : st'.lookup s y = st.lookup s y := by
  cases s with
  | none => rfl
  | some id => exact h.lookupFrom ne id

theorem scopeText (id : ScopeId) : st'.scopeText id = st.scopeText id := by
  have hs := h.scope id
  unfold Store.scopeText
  generalize st.scopes[id]? = a at hs ⊢
  generalize st'.scopes[id]? = b at hs ⊢
  cases hs with
  | none => rfl
  | some hs => simp only [hs.1]

/-- What happened is logged in the same words. -/
theorem logText_eq (label : String) (events : List (Event Tree)) :
    logText label st' events = logText label st events := by
  have texts (e : Event Tree) : e.text st' = e.text st := by
    cases e with
    | define scope name value => simp only [Event.text, h.scopeText]
    | apply closure args => rfl
  simp only [logText, texts]

end Store.Differ

end

structure Machine.Differ (x : String) (root : ScopeId) (old new : Option (Value Tree))
    (m m' : Machine Tree) : Prop where
  store : m.store.Differ x root old new m'.store
  trace : m'.trace = m.trace

namespace Machine.Differ

variable {x y : String} {root id : ScopeId} {old new : Option (Value Tree)} {m m' : Machine Tree}

theorem bind (h : m.Differ x root old new m') (ne : y ≠ x) (id : ScopeId) (v : Value Tree) :
    (m.bind id y v).Differ x root old new (m'.bind id y v) :=
  ⟨h.store.define (fun _ => ne) v, congrArg (Array.push · _) h.trace⟩

/-- A call binds its parameters in a new scope, whatever their names. -/
theorem enter (h : m.Differ x root old new m') (c : Closure Tree) (vs : List (Value Tree)) :
    (m.enter c vs).Differ x root old new (m'.enter c vs) := by
  have next : m'.store.nextId = m.store.nextId := h.store.size
  have new : m.store.nextId ≠ root := Nat.ne_of_gt h.store.root_lt
  refine ⟨?_, congrArg (Array.push · _) h.trace⟩
  simp only [Machine.enter, next]
  exact (h.store.create c.scope c.name).defineAll new c.params vs

end Machine.Differ

/-! ## Two runs together -/

/-- No tree mentions the name, and no function in the scopes in question does. -/
def Demands.avoiding (x : String) (scopes : ScopeId → Prop) : Demands Tree where
  node t := t.mentions x = false
  value v := ∀ c, v.closure? = some c → c.body.mentions x = false
  scope _ := scopes
  fault _ := True

theorem Demands.avoiding_lawful (x : String) {scopes : ScopeId → Prop} {start : Nat}
    (fresh : ∀ n, start ≤ n → scopes n) : (Demands.avoiding x scopes).Lawful Tree.form start where
  item {a b _} ha shape hb := by
    cases a <;> cases shape
    exact Tree.anyMentions_eq_false_iff.mp ha b hb
  absent _ _ := trivial
  blank _ _ := trivial
  mistyped _ _ := trivial
  ofInt _ := nofun
  ofBool _ := nofun
  nil := nofun
  ofText text := by
    intro c hc
    unfold Value.ofText at hc
    split at hc <;> cases hc
  ofClosure hb := by
    rintro _ ⟨⟩
    exact hb
  body hv hc := hv _ hc
  grow _ hid := hid
  fresh hn := fresh _ hn
  settled := .inr

namespace Eval

section
variable {α β γ δ : Type} (x : String) (root : ScopeId) (old new : Option (Value Tree))

/-- Both runs succeed or both halt for one reason, at machines that differ in one binding. -/
inductive Joint (R : Nat → α → β → Prop) :
    Except Halt α × Machine Tree → Except Halt β × Machine Tree → Prop
  | ok {a : α} {b : β} {m m' : Machine Tree} : R m.store.scopes.size a b →
      m.Differ x root old new m' → Joint R (.ok a, m) (.ok b, m')
  | error {m m' : Machine Tree} (h : Halt) : m.Differ x root old new m' →
      Joint R (.error h, m) (.error h, m')

/-- Where there are `n` scopes, the first computation keeps what is demanded, and from machines that
differ in one binding both end jointly. -/
structure Together (Q : Demands Tree) (start n : Nat) (R : Nat → α → β → Prop) (f : Eval Tree α)
    (g : Eval Tree β) : Prop where
  kept : Kept Q start n R f g
  joint {m m' : Machine Tree} : m.store.scopes.size = n → m.Meets Q start →
    m.Differ x root old new m' → Joint x root old new R (f.exec m) (g.exec m')

end

namespace Together

variable {α β γ δ : Type} {x : String} {root : ScopeId} {old new : Option (Value Tree)}
variable {scopes : ScopeId → Prop} {start n : Nat} {Q : Demands Tree}

theorem bind {R : Nat → α → β → Prop} {T : Nat → γ → δ → Prop} {f : Eval Tree α} {g : Eval Tree β}
    {k : α → Eval Tree γ} {l : β → Eval Tree δ} (hf : Together x root old new Q start n R f g)
    (hk : ∀ n' a b, n ≤ n' → R n' a b → Together x root old new Q start n' T (k a) (l b)) :
    Together x root old new Q start n T (f >>= k) (g >>= l) := by
  refine ⟨hf.kept.bind fun n' a b hn hab => (hk n' a b hn hab).kept, fun {m m'} hn hm differ => ?_⟩
  have ends := hf.kept.ends hn hm
  have first := hf.joint hn hm differ
  generalize hr : f.exec m = r at first ends
  generalize hr' : g.exec m' = r' at first
  cases first with
  | error h differ =>
    rw [exec_bind_of_error hr, exec_bind_of_error hr']
    exact .error h differ
  | ok hab differ =>
    rw [exec_bind_of_ok hr, exec_bind_of_ok hr']
    exact (hk _ _ _ (hn ▸ ends.grows) hab).joint rfl ends.meets differ

theorem halted {R : Nat → α → β → Prop} {h : Halt} (allowed : ∀ f, h = .fault f → Q.fault f) :
    Together x root old new Q start n R (throw h) (throw h) :=
  ⟨Kept.halted allowed _, fun _ _ differ => .error h differ⟩

theorem assign {s : Option ScopeId} (hs : Q.Usable n s) {y : String} (ne : y ≠ x) {v : Value Tree}
    (hv : v.Meets Q n) :
    Together x root old new Q start n (fun _ => (· = ·)) (Eval.assign s y v)
      (Eval.assign s y v) := by
  refine ⟨Kept.assign hs y hv _, fun {m m'} _ _ differ => ?_⟩
  cases s with
  | none => exact .error _ differ
  | some id => exact .ok rfl (differ.bind ne id v)

theorem atom (law : Q.Lawful Tree.form start) {s : Option ScopeId} (hs : Q.Usable n s)
    {text : String} (ne : text ≠ x) :
    Together x root old new Q start n Q.Result (Eval.atom s text) (Eval.atom s text) := by
  have kept := Kept.atom law hs text
  refine ⟨kept, fun {m m'} hn hm differ => ?_⟩
  obtain ⟨_, meets, -⟩ := (kept.ends hn hm).value rfl
  change Joint x root old new Q.Result (.ok ((m.store.lookup s text).getD (.ofText text)), m)
    (.ok ((m'.store.lookup s text).getD (.ofText text)), m')
  rw [differ.store.lookup ne s]
  exact .ok ⟨meets, rfl⟩ differ

/-- The body of a call runs in a scope of its own, so not in the one with the difference. -/
theorem call (law : Q.Lawful Tree.form start) {ev : Evaluator Tree} {c : Closure Tree}
    {vs : List (Value Tree)}
    (kept : Kept Q start n Q.Result (enter c vs >>= fun k => ev (some k) c.body)
      (enter c vs >>= fun k => ev (some k) c.body))
    (hc : ∀ p, c.scope = some p → Q.scope n p) (hvs : ∀ v ∈ vs, v.Meets Q n)
    (body : ∀ s, Q.Usable (n + 1) s →
      Together x root old new Q start (n + 1) Q.Result (ev s c.body) (ev s c.body)) :
    Together x root old new Q start n Q.Result (enter c vs >>= fun k => ev (some k) c.body)
      (enter c vs >>= fun k => ev (some k) c.body) := by
  refine ⟨kept, fun {m m'} hn hm differ => ?_⟩
  subst hn
  have next : m'.store.nextId = m.store.nextId := differ.store.size
  change Joint x root old new Q.Result
    ((ev (some m.store.nextId) c.body).exec (m.enter c vs))
    ((ev (some m'.store.nextId) c.body).exec (m'.enter c vs))
  rw [next]
  have entered := body (some m.store.nextId) (law.fresh hm.start)
  exact entered.joint (m.size_enter c vs) (hm.enter law hc hvs) (differ.enter c vs)

/-- One level further out. -/
theorem laws (law : (Demands.avoiding x scopes).Lawful Tree.form start) {ev : Evaluator Tree}
    (h : ∀ {n s a}, (Demands.avoiding x scopes).Usable n s → a.mentions x = false →
      Together x root old new (.avoiding x scopes) start n (Demands.avoiding x scopes).Result
        (ev s a) (ev s a))
    {s : Option ScopeId} (hs : (Demands.avoiding x scopes).Usable n s) :
    Staged.Laws ⟨(· ≤ ·), fun a b => a.mentions x = false ∧ a = b, (· = ·),
      (Demands.avoiding x scopes).Result, Together x root old new (.avoiding x scopes) start⟩
      Tree.form ev ev s s n := by
  have base := Kept.laws law (fun hs ha => (h hs ha).kept) hs
  exact {
    shape := base.shape
    place := fun hab => by rw [hab.2]
    trans := Nat.le_trans
    like := base.like
    mono := base.mono
    ofInt := base.ofInt
    ofBool := base.ofBool
    nil := base.nil
    ofClosure := base.ofClosure
    pure := fun hab => ⟨base.pure hab, fun hn _ differ => .ok (hn ▸ hab) differ⟩
    bind := Together.bind
    fail := fun _ hp => by
      subst hp
      exact halted fun _ _ => trivial
    absent := fun _ _ => halted fun _ _ => trivial
    mistyped := fun _ _ => halted fun _ _ => trivial
    eval := fun hk => by
      rintro ⟨ha, rfl⟩
      exact h (hs.grow law hk) ha
    assign := fun hk ⟨ha, _⟩ named => by
      rintro ⟨hv, rfl⟩
      exact Together.assign (hs.grow law hk) (Tree.ne_of_mentions_eq_false ha named) hv
    call := by
      rintro k v _ c d vs ws hk ⟨hv, rfl⟩ hc hd hvs
      obtain ⟨each, same⟩ := (List.forall₂_and_left _ _).mp hvs
      rw [List.forall₂_eq_eq_eq] at same
      subst same
      have kept := base.call hk ⟨hv, rfl⟩ hc hd hvs
      rw [hc] at hd
      cases hd
      exact Together.call law kept (fun p hp => hv.scope hc hp) each fun _ hs =>
        h hs (law.body hv.value hc) }

end Together

theorem eval_together {x : String} {root : ScopeId} {old new : Option (Value Tree)}
    {scopes : ScopeId → Prop} {start n : Nat}
    (law : (Demands.avoiding x scopes).Lawful Tree.form start) (limit depth : Nat)
    {s : Option ScopeId} (hs : (Demands.avoiding x scopes).Usable n s) {a : Tree}
    (ha : a.mentions x = false) :
    Together x root old new (.avoiding x scopes) start n (Demands.avoiding x scopes).Result
      (eval Tree.form limit depth s a) (eval Tree.form limit depth s a) := by
  induction depth generalizing n s a with
  | zero =>
    simp only [eval]
    split
    · exact Together.halted fun _ _ => trivial
    · exact Together.halted fun _ _ => trivial
  | succ depth ih =>
    simp only [eval]
    split
    · exact Together.halted fun _ _ => trivial
    · exact Together.halted fun _ _ => trivial
    · rename_i atom
      exact Together.atom law hs (Tree.ne_of_mentions_eq_false ha atom)
    · rename_i items shape
      exact (Together.laws law (fun hs ha => ih hs ha) hs).list (Nat.le_refl n) rfl
        (List.forall₂_same.mpr fun b hb => ⟨law.item ha shape hb, rfl⟩)

end Eval

/-! ## Interpreters that differ in one binding -/

/-- Interpreters with the same root scope, of which only one thing differs: what `x` is bound to
there. Functions within reach do not mention it. -/
structure Interpreter.Differ (x : String) (root : ScopeId) (scopes : ScopeId → Prop) (start : Nat)
    (old new : Option (Value Tree)) (i j : Interpreter) : Prop where
  roots : i.root = root ∧ j.root = root
  limit : j.limit = i.limit
  meets : Machine.Meets (.avoiding x scopes) start ⟨i.store, #[]⟩
  store : i.store.Differ x root old new j.store

/-- Reports that are the same, of runs after which that one thing differs. -/
structure Report.Differ (x : String) (root : ScopeId) (scopes : ScopeId → Prop) (start : Nat)
    (old new : Option (Value Tree)) (r r' : Report) : Prop where
  values : r'.values = r.values
  halt : r'.halt = r.halt
  events : r'.events = r.events
  interpreter : r.interpreter.Differ x root scopes start old new r'.interpreter

namespace Interpreter

variable {x : String} {root : ScopeId} {scopes : ScopeId → Prop} {start : Nat}
variable {old new : Option (Value Tree)} {i j : Interpreter}

theorem Differ.evalAll (fresh : ∀ n, start ≤ n → scopes n) (usable : scopes root)
    (h : i.Differ x root scopes start old new j) {ts : List Tree}
    (hts : ∀ t ∈ ts, t.mentions x = false) :
    (i.evalAll ts).Differ x root scopes start old new (j.evalAll ts) := by
  induction ts generalizing i j with
  | nil => exact ⟨rfl, rfl, rfl, h⟩
  | cons t ts ih =>
    obtain ⟨ht, hts⟩ := List.forall_mem_cons.mp hts
    obtain ⟨hi, hj⟩ := h.roots
    have law := Demands.avoiding_lawful x fresh
    have ends : Demands.Ends _ start _ _ (run Tree.form i.limit (some root) t i.store) :=
      law.eval_ends _ _ h.meets (s := some root) usable ht
    have joint : Eval.Joint x root old new _ (run Tree.form i.limit (some root) t i.store)
        (run Tree.form i.limit (some root) t j.store) :=
      (Eval.eval_together law _ _ (s := some root) usable ht).joint rfl h.meets ⟨h.store, rfl⟩
    simp only [Interpreter.evalAll, evalTree, hi, hj, h.limit]
    generalize run Tree.form i.limit (some root) t i.store = r at joint ends ⊢
    generalize run Tree.form i.limit (some root) t j.store = r' at joint ⊢
    have later (m' : Machine Tree) (differ : r.2.Differ x root old new m') :
        Differ x root scopes start old new ⟨r.2.store, root, i.limit⟩
          ⟨m'.store, root, i.limit⟩ := by
      refine ⟨⟨rfl, rfl⟩, rfl, ⟨ends.meets.start, ends.meets.store, ?_⟩, differ.store⟩
      exact fun e he => absurd he List.not_mem_nil
    cases joint with
    | error reason differ =>
      exact ⟨rfl, rfl, congrArg Array.toList differ.trace, later _ differ⟩
    | @ok v w m m' result differ =>
      obtain ⟨-, rfl⟩ := result
      have rest := ih (later m' differ) hts
      refine ⟨congrArg (v :: ·) rest.values, rest.halt, ?_, rest.interpreter⟩
      dsimp only
      rw [differ.trace, rest.events]

/-- What a name stands for in the root scope does not matter if nothing mentions it: no atom of the
source, and none of a function within reach. With and without the binding, the source gives the same
values or halts for the same reason, and the same events are logged in the same words. All scopes
are the same in the end but for that name in the root scope, which stands for what it did. -/
theorem evalSource_unmentioned (i : Interpreter) (source : List UInt8) (x : String)
    (v : Value Tree) (exist : i.root < i.store.scopes.size)
    (unread : ∀ trees, parse source = .ok trees → ∀ t ∈ trees, t.mentions x = false)
    (uncalled : ∀ (id : ScopeId) (s : Scope Tree), i.store.Sees i.root id →
      i.store.scopes[id]? = some s → ∀ b ∈ s.bindings, ∀ c, b.2.closure? = some c →
        c.body.mentions x = false) :
    let j := { i with store := i.store.define i.root x v }
    (∃ e, i.evalSource source = .error e ∧ j.evalSource source = .error e) ∨
    ∃ r r', i.evalSource source = .ok r ∧ j.evalSource source = .ok r' ∧
      r'.values = r.values ∧ r'.halt = r.halt ∧ r'.events = r.events ∧
      (∀ label, logText label r'.interpreter.store r'.events =
        logText label r.interpreter.store r.events) ∧
      (∀ id, id ≠ i.root →
        r'.interpreter.store.scopes[id]? = r.interpreter.store.scopes[id]?) ∧
      ∃ a b c, i.store.scopes[i.root]? = some a ∧ r.interpreter.store.scopes[i.root]? = some b ∧
        r'.interpreter.store.scopes[i.root]? = some c ∧ c.name = b.name ∧ c.parent = b.parent ∧
        (∀ y, y ≠ x → c.bindings.get? y = b.bindings.get? y) ∧
        b.bindings.get? x = a.bindings.get? x ∧ c.bindings.get? x = some v := by
  intro j
  unfold evalSource
  cases read : parse source with
  | error e => exact .inl ⟨e, rfl, rfl⟩
  | ok trees =>
    obtain ⟨a, ha⟩ : ∃ a, i.store.scopes[i.root]? = some a := ⟨_, Array.getElem?_eq_getElem exist⟩
    have differ : i.store.Differ x i.root (a.bindings.get? x) (some v) j.store := by
      refine ⟨Store.size_define .., fun id ne => Store.scopes_define_ne x v ne, a, _, ha,
        Store.scopes_define_self x v ha, rfl, rfl, fun y ne => ?_, rfl, ?_⟩
      · rw [Bindings.get?_set, if_neg (Ne.symm ne)]
      · rw [Bindings.get?_set, if_pos rfl]
    have meets : Machine.Meets (.avoiding x (i.store.Ahead i.root)) i.store.scopes.size
        ⟨i.store, #[]⟩ := Store.meets_ahead (fun _ _ => .rfl) uncalled
    have start : i.Differ x i.root (i.store.Ahead i.root) i.store.scopes.size
        (a.bindings.get? x) (some v) j := ⟨⟨rfl, rfl⟩, rfl, meets, differ⟩
    have ends := start.evalAll (fun _ => .inr) (.inl .here) (unread trees read)
    have stores := ends.interpreter.store
    obtain ⟨b, c, hb, hc, last⟩ := stores.root
    refine .inr ⟨_, _, rfl, rfl, ends.values, ends.halt, ends.events, fun label => ?_, stores.other,
      a, b, c, ha, hb, hc, last.name, last.parent, last.other, last.old, last.new⟩
    rw [ends.events, stores.logText_eq]

/-- A function whose body is its own name. -/
def selfish : Value Tree := .ofClosure ⟨"z", ["z"], .atom none "z", some 1⟩

theorem evalSource_unmentioned_furnished :
    let source := Text.Utf8.bytes "(define (h y) (f y)) (h k) (h)"
    ∃ r r', furnished.evalSource source = .ok r ∧
      Interpreter.evalSource
        { furnished with store := furnished.store.define furnished.root "z" selfish } source =
        .ok r' ∧
      r.values.map Value.shown = ["<function h (y)>", "7"] ∧ r.halt.isSome ∧
      r'.values = r.values ∧ r'.halt = r.halt ∧ r'.events = r.events := by
  intro source
  have shown : (furnished.evalSource source).toOption.map
      (fun r => (r.values.map Value.shown, r.halt.isSome)) =
        some (["<function h (y)>", "7"], true) := by
    decide +kernel
  have unread : ∀ trees, parse source = .ok trees → ∀ t ∈ trees, t.mentions "z" = false := by
    have none : (parse source).toOption.map (Tree.anyMentions "z") = some false := by
      decide +kernel
    intro trees read
    rw [read] at none
    exact Tree.anyMentions_eq_false_iff.mp (Option.some.inj none)
  have uncalled : ∀ (id : ScopeId) (s : Scope Tree), furnished.store.Sees furnished.root id →
      furnished.store.scopes[id]? = some s → ∀ b ∈ s.bindings, ∀ c, b.2.closure? = some c →
        c.body.mentions "z" = false := by
    intro id s _ hs b hb c hc
    match id, hs with
    | 0, hs =>
      cases hs
      cases List.mem_singleton.mp hb
      cases hc
    | 1, hs =>
      cases hs
      rcases List.mem_pair.mp hb with rfl | rfl <;> cases hc
      · decide
      · decide
  obtain ⟨e, failed, -⟩ | ⟨r, r', first, second, values, halt, events, -⟩ :=
    furnished.evalSource_unmentioned source "z" selfish (by decide) unread uncalled
  · rw [failed] at shown
    cases shown
  · rw [first] at shown
    obtain ⟨texts, halted⟩ := Prod.mk.inj (Option.some.inj shown)
    exact ⟨r, r', first, second, texts, halted, values, halt, events⟩

end Interpreter

end Lisplet
