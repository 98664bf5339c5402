import Lisplet.Interpreter
import Lisplet.Proofs.Invariant
import Lisplet.Proofs.Yield

/-! No source makes an interpreter fault. Sources are read as trees of atoms and lists, and the
values that evaluation comes upon stay such as it can work with: each has the payload of its kind,
operators have names that are known, and the bodies of functions are trees of atoms and lists. -/
namespace Lisplet

namespace Tree

/-- No node is missing, and each is an atom or a list. -/
inductive Whole : Tree → Prop
  | atom (token : Option Token) (text : String) : Whole (.atom token text)
  | list (token : Option Token) {items : List Tree} : (∀ t ∈ items, Whole t) →
      Whole (.list token items)

theorem Faithful.whole {t : Tree} (h : t.Faithful) : t.Whole := by
  induction h with
  | atom => exact .atom _ _
  | list _ _ ih => exact .list _ ih

end Tree

theorem whole_of_parse {source : List UInt8} {trees : List Tree} (h : parse source = .ok trees) :
    ∀ t ∈ trees, t.Whole := by
  obtain ⟨tokens, -, read⟩ := exists_tokens_of_parse h
  exact fun t ht => ((Parser.all_ok_iff.mp read).1 t ht).whole

/-- The names that operators are known by. -/
def Operator.names : List String := ["define", "if", "+", "-", "*", "/", ">", "<"]

theorem Operator.mem_names_iff {name : String} : name ∈ names ↔ (ofName? name).isSome := by
  unfold ofName?
  split <;> simp_all [names]

/-- A value that evaluation can work with. -/
structure Value.Proper (v : Value Tree) : Prop where
  typed : v.WellTyped
  operator {name : String} : v = .ofOperator name → name ∈ Operator.names
  body {c : Closure Tree} : v.closure? = some c → c.body.Whole

/-- Data of which values can be made for a program: no values made already, and functions with
bodies of atoms and lists. -/
def Datum.Plain : Datum Tree → Prop
  | .nil | .bool _ | .string _ | .int _ => True
  | .closure c => c.body.Whole
  | .value _ | .short _ | .float _ | .strings _ => False

namespace Value.Proper

theorem ofText (text : String) : (Value.ofText text).Proper := by
  unfold Value.ofText
  split
  · exact ⟨trivial, nofun, nofun⟩
  · rename_i op known
    refine ⟨trivial, fun same => ?_, nofun⟩
    cases same
    rw [Operator.mem_names_iff, known]
    rfl
  · exact ⟨trivial, nofun, nofun⟩

theorem ofClosure {c : Closure Tree} (h : c.body.Whole) : (Value.ofClosure c).Proper := by
  refine ⟨trivial, nofun, fun same => ?_⟩
  cases same
  exact h

theorem ofDatum {d : Datum Tree} (h : d.Plain) {v : Value Tree} (hv : Value.ofDatum d = .ok v) :
    v.Proper := by
  cases d with
  | nil | bool | string =>
    cases hv
    exact ⟨trivial, nofun, nofun⟩
  | int n =>
    simp only [Value.ofDatum] at hv
    split at hv
    · cases hv
      exact ⟨trivial, nofun, nofun⟩
    · cases hv
  | closure c =>
    cases hv
    exact ofClosure h
  | value | short | float | strings => cases h

end Value.Proper

namespace Store

/-- The scopes that can be come upon from one: it, those around them, and those that functions
bound in them were defined in. -/
inductive Sees (st : Store Tree) (root : ScopeId) : ScopeId → Prop
  | here : Sees st root root
  | parent {id p : ScopeId} {s : Scope Tree} : Sees st root id → st.scopes[id]? = some s →
      s.parent = some p → Sees st root p
  | captured {id p : ScopeId} {s : Scope Tree} {b : String × Value Tree} {c : Closure Tree} :
      Sees st root id → st.scopes[id]? = some s → b ∈ s.bindings → b.2.closure? = some c →
      c.scope = some p → Sees st root p

/-- What is bound in the scopes that can be come upon is proper. -/
def Proper (st : Store Tree) (root : ScopeId) : Prop :=
  ∀ (id : ScopeId) (s : Scope Tree), st.Sees root id → st.scopes[id]? = some s →
    ∀ b ∈ s.bindings, b.2.Proper

/-- The scopes that can be come upon now, and all that are still to be made. -/
def Ahead (st : Store Tree) (root id : ScopeId) : Prop := st.Sees root id ∨ st.scopes.size ≤ id

end Store

/-- Proper values throughout the scopes in question, and no fault at all. -/
def Demands.proper (scopes : ScopeId → Prop) : Demands Tree :=
  ⟨Tree.Whole, Value.Proper, fun _ => scopes, fun _ => False⟩

theorem Demands.proper_lawful {scopes : ScopeId → Prop} {start : Nat}
    (fresh : ∀ n, start ≤ n → scopes n) : (Demands.proper scopes).Lawful Tree.form start where
  item := by
    rintro _ b _ (_ | ⟨_, whole⟩) shape hb <;> cases shape
    exact whole b hb
  absent := by rintro _ (_ | _) shape <;> cases shape
  blank := by rintro _ (_ | _) shape <;> cases shape
  mistyped hv wrong := wrong hv.typed
  ofInt _ := ⟨trivial, nofun, nofun⟩
  ofBool _ := ⟨trivial, nofun, nofun⟩
  nil := ⟨trivial, nofun, nofun⟩
  ofText := .ofText
  ofClosure := .ofClosure
  body hv hc := hv.body hc
  grow _ hid := hid
  fresh hn := fresh _ hn
  settled := .inr

/-- Demands on the scopes that can be come upon are met to begin with if what is bound there is as
demanded. -/
theorem Store.meets_ahead {Q : Demands Tree} {st : Store Tree} {root : ScopeId}
    (scopes : ∀ n id, Q.scope n id ↔ st.Ahead root id)
    (values : ∀ (id : ScopeId) (s : Scope Tree), st.Sees root id → st.scopes[id]? = some s →
      ∀ b ∈ s.bindings, Q.value b.2) :
    Machine.Meets Q st.scopes.size ⟨st, #[]⟩ := by
  refine ⟨Nat.le_refl _, fun id s hid hs => ?_, nofun⟩
  -- A scope that is there already is not one of those still to be made.
  obtain ⟨inside, -⟩ := Array.getElem?_eq_some_iff.mp hs
  have seen : st.Sees root id := ((scopes _ id).mp hid).resolve_right (Nat.not_le_of_lt inside)
  refine ⟨fun hp => (scopes _ _).mpr (.inl (seen.parent hs hp)), fun b hb => ?_⟩
  exact ⟨values id s seen hs b hb, fun hc hp => (scopes _ _).mpr (.inl (seen.captured hs hb hc hp))⟩

theorem Store.Proper.meets {st : Store Tree} {root : ScopeId} (h : st.Proper root) :
    Machine.Meets (.proper (st.Ahead root)) st.scopes.size ⟨st, #[]⟩ :=
  Store.meets_ahead (fun _ _ => .rfl) h

theorem Store.Proper.run {st : Store Tree} {root : ScopeId} (h : st.Proper root) (limit : Int)
    {t : Tree} (ht : t.Whole) (f : Fault) :
    (run Tree.form limit (some root) t st).1 ≠ .error (.fault f) := by
  have law : (Demands.proper (st.Ahead root)).Lawful Tree.form st.scopes.size :=
    Demands.proper_lawful fun _ => .inr
  exact fun fault => (law.eval_ends _ _ h.meets (s := some root) (.inl .here) ht).fault fault

namespace Interpreter

/-- The interpreter works in scopes of which `scopes` tells, and these bind proper values. -/
structure Sound (scopes : ScopeId → Prop) (start : Nat) (i : Interpreter) : Prop where
  root : scopes i.root
  meets : Machine.Meets (.proper scopes) start ⟨i.store, #[]⟩

end Interpreter

/-- What was reported shows no fault, and proper values only. -/
structure Report.Sound (scopes : ScopeId → Prop) (start : Nat) (r : Report) : Prop where
  halt (f : Fault) : r.halt ≠ some (.fault f)
  values : ∀ v ∈ r.values, v.Proper
  events : ∀ e ∈ r.events, ∀ v ∈ e.values, v.Proper
  interpreter : r.interpreter.Sound scopes start

namespace Interpreter

variable {scopes : ScopeId → Prop} {start : Nat} {i : Interpreter}

theorem Sound.evalTree (fresh : ∀ n, start ≤ n → scopes n) (h : i.Sound scopes start) {t : Tree}
    (ht : t.Whole) :
    (∀ f, (i.evalTree t).1 ≠ .error (.fault f)) ∧ (∀ v, (i.evalTree t).1 = .ok v → v.Proper) ∧
      (∀ e ∈ (i.evalTree t).2.1, ∀ v ∈ e.values, v.Proper) ∧
      (i.evalTree t).2.2.Sound scopes start := by
  have ends := (Demands.proper_lawful fresh).eval_ends (effectiveLimit i.limit)
    (effectiveLimit i.limit) h.meets (s := some i.root) h.root ht
  refine ⟨fun f hf => ends.fault hf, fun v hv => (ends.value hv).value, fun e he v hv => ?_, ?_⟩
  · exact (ends.meets.trace e he v hv).value
  · exact ⟨h.root, ends.meets.start, ends.meets.store, nofun⟩

theorem Sound.evalAll (fresh : ∀ n, start ≤ n → scopes n) (h : i.Sound scopes start)
    {ts : List Tree} (hts : ∀ t ∈ ts, t.Whole) : (i.evalAll ts).Sound scopes start := by
  induction ts generalizing i with
  | nil => exact ⟨nofun, nofun, nofun, h⟩
  | cons t ts ih =>
    obtain ⟨ht, hts⟩ := List.forall_mem_cons.mp hts
    obtain ⟨fault, value, events, next⟩ := h.evalTree fresh ht
    unfold Interpreter.evalAll
    generalize i.evalTree t = r at fault value events next ⊢
    obtain ⟨e | v, es, j⟩ := r
    · refine ⟨fun f hf => fault f ?_, nofun, events, next⟩
      cases hf
      rfl
    · have rest := ih next hts
      refine ⟨rest.halt, List.forall_mem_cons.mpr ⟨value v rfl, rest.values⟩, ?_, rest.interpreter⟩
      exact List.forall_mem_append.mpr ⟨events, rest.events⟩

/-- Where nothing failed there is a value for each expression. -/
theorem length_values_evalAll {i : Interpreter} {ts : List Tree}
    (h : (i.evalAll ts).halt = none) : (i.evalAll ts).values.length = ts.length := by
  induction ts generalizing i with
  | nil => rfl
  | cons t ts ih =>
    unfold evalAll at h ⊢
    generalize i.evalTree t = r at h ⊢
    obtain ⟨e | v, es, j⟩ := r
    · cases h
    · exact congrArg (· + 1) (ih h)

/-- The interpreter after it was given some sources. One that cannot be read changes nothing. -/
def after (i : Interpreter) : List (List UInt8) → Interpreter
  | [] => i
  | source :: sources =>
    match i.evalSource source with
    | .ok report => report.interpreter.after sources
    | .error _ => i.after sources

theorem Sound.after (fresh : ∀ n, start ≤ n → scopes n) (h : i.Sound scopes start)
    (sources : List (List UInt8)) : (i.after sources).Sound scopes start := by
  induction sources generalizing i with
  | nil => exact h
  | cons source sources ih =>
    unfold Interpreter.after evalSource
    cases read : parse source with
    | error e => exact ih h
    | ok trees => exact ih (h.evalAll fresh (whole_of_parse read)).interpreter

/-- All values that can be come upon from the root scope were made of plain data. -/
def Furnished (i : Interpreter) : Prop :=
  ∀ (id : ScopeId) (s : Scope Tree), i.store.Sees i.root id → i.store.scopes[id]? = some s →
    ∀ b ∈ s.bindings, ∃ d : Datum Tree, d.Plain ∧ Value.ofDatum d = .ok b.2

theorem Furnished.proper (h : i.Furnished) : i.store.Proper i.root := by
  intro id s seen hs b hb
  obtain ⟨d, plain, made⟩ := h id s seen hs b hb
  exact .ofDatum plain made

theorem furnished_new (limit : Int) : (Interpreter.new limit).Furnished := by
  intro id s _ hs b hb
  obtain ⟨lt, hs⟩ := Array.getElem?_eq_some_iff.mp hs
  obtain rfl : id = 0 := Nat.lt_one_iff.mp lt
  cases hs
  cases hb

/-- An interpreter that starts with plain data, or with none, never faults. Each source cannot be
read, or ends in an error, or gives a value for each of its expressions. All values that show, in
results, in events or in the scopes that were within reach or have been made since, are proper. -/
theorem evalSource_sound (start : Interpreter)
    (h : (∃ limit, start = .new limit) ∨ start.Furnished) (earlier : List (List UInt8))
    (source : List UInt8) :
    let i := start.after earlier
    ((∃ e, parse source = .error e ∧ i.evalSource source = .error e) ∨
      ∃ trees r, parse source = .ok trees ∧ i.evalSource source = .ok r ∧
        (r.halt = none ∧ r.values.length = trees.length ∨ ∃ e, r.halt = some (.error e)) ∧
        (∀ v ∈ r.values, v.Proper) ∧ ∀ e ∈ r.events, ∀ v ∈ e.values, v.Proper) ∧
    ∀ (id : ScopeId) (s : Scope Tree), start.store.Ahead start.root id →
      i.store.scopes[id]? = some s → ∀ b ∈ s.bindings, b.2.Proper := by
  have furnished : start.Furnished := by
    rcases h with ⟨limit, rfl⟩ | furnished
    · exact furnished_new limit
    · exact furnished
  have fresh : ∀ n, start.store.scopes.size ≤ n → start.store.Ahead start.root n := fun _ => .inr
  have sound : start.Sound (start.store.Ahead start.root) start.store.scopes.size :=
    ⟨.inl .here, furnished.proper.meets⟩
  have now := sound.after fresh earlier
  refine ⟨?_, fun id s hid hs b hb => ((now.meets.store id s hid hs).binding b hb).value⟩
  unfold evalSource
  cases read : parse source with
  | error e => exact .inl ⟨e, rfl, rfl⟩
  | ok trees =>
    have report := now.evalAll fresh (whole_of_parse read)
    refine .inr ⟨trees, _, rfl, rfl, ?_, report.values, report.events⟩
    cases halt : ((start.after earlier).evalAll trees).halt with
    | none => exact .inl ⟨rfl, length_values_evalAll halt⟩
    | some reason =>
      cases reason with
      | error e => exact .inr ⟨e, rfl⟩
      | fault f => exact absurd halt (report.halt f)

/-- The root scope binds a function that was defined in it, and one that was defined nowhere. -/
def furnished : Interpreter where
  store := ⟨#[⟨"base", none, [("k", .ofInt 7)]⟩,
    ⟨"root", some 0,
      [("f", .ofClosure ⟨"f", ["x"], .list none [.atom none "g", .atom none "x"], some 1⟩),
        ("g", .ofClosure ⟨"g", ["x"], .list none [.atom none "define", .atom none "k",
          .atom none "x"], none⟩)]⟩]⟩
  root := 1
  limit := 0

theorem evalSource_sound_furnished :
    furnished.Furnished ∧
    ∃ trees r, parse (Text.Utf8.bytes "(f k) (y 2) 3") = .ok trees ∧
      (furnished.after [Text.Utf8.bytes "(define y (f 1))"]).evalSource
        (Text.Utf8.bytes "(f k) (y 2) 3") = .ok r ∧
      (r.halt = none ∧ r.values.length = trees.length ∨ ∃ e, r.halt = some (.error e)) ∧
      (∀ v ∈ r.values, v.Proper) ∧ ∀ e ∈ r.events, ∀ v ∈ e.values, v.Proper := by
  have start : furnished.Furnished := by
    intro id s _ hs b hb
    match id, hs with
    | 0, hs =>
      cases hs
      cases List.mem_singleton.mp hb
      exact ⟨.int 7, trivial, rfl⟩
    | 1, hs =>
      cases hs
      rcases List.mem_pair.mp hb with rfl | rfl
      · refine ⟨.closure _, ?_, rfl⟩
        exact .list _ (by simp [Tree.Whole.atom])
      · refine ⟨.closure _, ?_, rfl⟩
        exact .list _ (by simp [Tree.Whole.atom])
  have readable : (parse (Text.Utf8.bytes "(f k) (y 2) 3")).toOption.isSome = true := by
    decide +kernel
  refine ⟨start, ?_⟩
  obtain ⟨⟨e, unread, -⟩ | read, -⟩ := furnished.evalSource_sound (.inr start)
    [Text.Utf8.bytes "(define y (f 1))"] (Text.Utf8.bytes "(f k) (y 2) 3")
  · rw [unread] at readable
    cases readable
  · exact read

end Interpreter

end Lisplet
