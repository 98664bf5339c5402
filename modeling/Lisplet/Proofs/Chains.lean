import Lisplet.Proofs.Chronicle

/-! Chains of scopes. Scopes are numbered from one in the order of their making, and each is nested
in one with a smaller number. So the way outward ends, and look-up looks at no more scopes than the
number of the one that it starts from. Only this way is sure to end: a function may refer to the
scope that it is bound in, or to newer ones. -/
namespace Lisplet

variable {ν : Type}

namespace Store

/-! ## Numbers -/

/-- The numbers that are given to scopes when changes make them, in order. -/
def numbers (st : Store ν) : List (Change ν) → List Nat
  | [] => []
  | c :: cs => (c.parent?.map fun _ => st.nextId + 1).toList ++ (st.change c).numbers cs

theorem map_parent_modify (st : Store ν) (id : ScopeId) {f : Scope ν → Scope ν}
    (hf : ∀ s, (f s).parent = s.parent) :
    (st.modify id f).scopes.toList.map Scope.parent = st.scopes.toList.map Scope.parent := by
  apply List.ext_getElem?
  intro i
  simp only [modify, List.getElem?_map, Array.getElem?_toList, Array.getElem?_modify]
  by_cases own : id = i
  · simp [own, Function.comp_def, hf]
  · simp [own]

theorem map_parent_change (st : Store ν) (c : Change ν) :
    (st.change c).scopes.toList.map Scope.parent =
      st.scopes.toList.map Scope.parent ++ c.parent?.toList := by
  cases c with
  | create parent => simp [change, create, Change.parent?]
  | define | rename =>
    rw [Change.parent?, Option.toList_none, List.append_nil]
    exact st.map_parent_modify _ fun _ => rfl

theorem parents_cons (c : Change ν) (cs : List (Change ν)) :
    parents (c :: cs) = c.parent?.toList ++ parents cs := by
  cases c <;> rfl

/-- Scopes are kept in the order of their making, each with the one that it was made in. -/
theorem map_parent_changes (st : Store ν) (cs : List (Change ν)) :
    (cs.foldl change st).scopes.toList.map Scope.parent =
      st.scopes.toList.map Scope.parent ++ parents cs := by
  induction cs generalizing st with
  | nil => simp [parents]
  | cons c cs ih =>
    rw [List.foldl_cons, ih, map_parent_change, parents_cons, List.append_assoc]

theorem size_changes (st : Store ν) (cs : List (Change ν)) :
    (cs.foldl change st).scopes.size = st.scopes.size + (parents cs).length := by
  simpa using congrArg List.length (st.map_parent_changes cs)

/-- The numbers count up from that of the next scope. -/
theorem numbers_eq (st : Store ν) (cs : List (Change ν)) :
    st.numbers cs = List.range' (st.scopes.size + 1) (parents cs).length := by
  induction cs generalizing st with
  | nil => rfl
  | cons c cs ih =>
    rw [numbers, ih, parents_cons, size_change, List.length_append]
    cases c with
    | create parent =>
      simp only [Change.parent?, Option.map_some, Option.toList_some, List.length_singleton]
      rw [Nat.add_comm 1, List.range'_succ]
      rfl
    | define | rename => simp [Change.parent?]

theorem numbers_grown (changes : List (Change ν)) :
    empty.numbers changes = List.range' 1 (grown changes).scopes.size := by
  have size := size_changes empty changes
  rw [numbers_eq, grown, size]
  simp [empty]

/-- A scope shows the number that it was given. -/
theorem scopeText_grown {changes : List (Change ν)} {id n : Nat} {s : Scope ν}
    (hs : (grown changes).scopes[id]? = some s) (hn : (empty.numbers changes)[id]? = some n) :
    (grown changes).scopeText id = "[" ++ toString n ++ "]: " ++ Text.quoted s.name := by
  rw [numbers_grown] at hn
  obtain ⟨inside, hn⟩ := List.getElem?_eq_some_iff.mp hn
  rw [List.getElem_range', Nat.one_mul, Nat.add_comm] at hn
  simp only [scopeText, hs, hn]

/-! ## References -/

/-- A scope refers to the one that it is nested in, and to those that functions bound in it were
defined in. -/
inductive Refers (st : Store ν) (id : ScopeId) : ScopeId → Prop
  | parent {p : ScopeId} {s : Scope ν} : st.scopes[id]? = some s → s.parent = some p →
      Refers st id p
  | captured {p : ScopeId} {s : Scope ν} {b : String × Value ν} : st.scopes[id]? = some s →
      b ∈ s.bindings → b.2.captured? = some p → Refers st id p

section
variable {st : Store ν} {id p : ScopeId}

theorem Meets.lt_of_parent? (h : st.Meets .closed) (hp : st.parent? id = some p) : p < id := by
  obtain ⟨s, hs, hp⟩ := Option.bind_eq_some_iff.mp hp
  exact h.parent_lt hs hp

theorem Meets.exists_of_refers (h : st.Meets .closed) (refers : st.Refers id p) :
    ∃ s, st.scopes[p]? = some s := by
  have inside : p < st.scopes.size := by
    cases refers with
    | parent hs hp =>
      obtain ⟨inside, -⟩ := Array.getElem?_eq_some_iff.mp hs
      exact Nat.lt_trans (h.parent_lt hs hp) inside
    | captured hs hb hp =>
      obtain ⟨c, hc, hp⟩ := Option.bind_eq_some_iff.mp hp
      exact h.captured_lt hs hb hc hp
  exact ⟨_, Array.getElem?_eq_getElem inside⟩

theorem Meets.wellFounded (h : st.Meets .closed) :
    WellFounded fun p id => st.parent? id = some p :=
  Subrelation.wf (fun hp => h.lt_of_parent? hp) Nat.lt_wfRel.wf

end

/-! ## Look-up in so many steps -/

/-- Looks at one scope after the other outward, at `n` of them at most, and with no regard to their
numbers. There is no answer if this was not enough. -/
def lookupWithin (st : Store ν) (x : String) : Nat → Option ScopeId → Option (Option (Value ν))
  | _, none => some none
  | 0, some _ => none
  | n + 1, some id =>
    match st.scopes[id]? with
    | none => some none
    | some s =>
      match s.bindings.get? x with
      | some v => some (some v)
      | none => st.lookupWithin x n s.parent

theorem Meets.lookupWithin_eq {st : Store ν} (h : st.Meets .closed) (x : String) {id n : Nat}
    (enough : id + 1 ≤ n) : st.lookupWithin x n (some id) = some (st.lookup (some id) x) := by
  -- One step is left for each scope that may still come, as the next has a smaller number.
  induction n generalizing id with
  | zero => omega
  | succ n ih =>
    rw [lookupWithin, lookup, Option.bind_some, Store.lookupFrom]
    cases hs : st.scopes[id]? with
    | none => rfl
    | some s =>
      cases hb : s.bindings.get? x with
      | some v => simp only [hb]
      | none =>
        cases hp : s.parent with
        | none =>
          simp only [hb, hp]
          cases n <;> rfl
        | some p =>
          have lt : p < id := h.parent_lt hs hp
          simp only [hb, hp, lt, if_true]
          exact ih (Nat.lt_of_lt_of_le lt (Nat.le_of_succ_le_succ enough))

end Store

/-! ## Circles -/

/-- The node reads `(define (name params …) body)`. -/
def IsFunction (view : ν → Form ν) (node : ν) (name : String) (params : List String)
    (body : ν) : Prop :=
  ∃ head signature items, (view node).shape = .list [head, signature, body] ∧
    (view head).shape = .atom "define" ∧ (view signature).shape = .list items ∧
    items.map (fun a => (view a).shape) = (name :: params).map .atom

namespace Eval

variable {view : ν → Form ν}

theorem exec_signature {items : List ν} {names : List String}
    (h : items.map (fun a => (view a).shape) = names.map .atom) (m : Machine ν) :
    (signature view items).exec m = (.ok names, m) := by
  induction items generalizing names with
  | nil =>
    cases names with
    | nil => rfl
    | cons name names => simp at h
  | cons item items ih =>
    cases names with
    | nil => simp at h
    | cons name names =>
      simp only [List.map_cons, List.cons.injEq] at h
      obtain ⟨first, rest⟩ := h
      rw [signature, first]
      exact exec_bind_of_ok (ih rest)

/-- Where `define` means what it says, a function is bound in the scope that it was defined in. -/
theorem exec_function {limit depth : Nat} {id : ScopeId} {node body : ν} {name : String}
    {params : List String} (h : IsFunction view node name params body) (m : Machine ν)
    (free : m.store.lookup (some id) "define" = none) :
    ((eval view limit (depth + 2) (some id) node).exec m).2 =
      m.bind id name (.ofClosure ⟨name, params, body, some id⟩) := by
  obtain ⟨head, sig, items, shape, define, list, names⟩ := h
  have operator : (eval view limit (depth + 1) (some id) head).exec m =
      (.ok (.ofOperator "define"), m) := by
    rw [eval, define]
    change (Except.ok ((m.store.lookup (some id) "define").getD (.ofText "define")), m) = _
    rw [free]
    rfl
  rw [eval, shape]
  simp only [Eval.list]
  rw [exec_bind_of_ok operator]
  change ((Eval.define view (eval view limit (depth + 1)) (some id) (view node).position
    [sig, body]).exec m).2 = _
  rw [Eval.define, list]
  simp only [Eval.function]
  rw [exec_bind_of_ok (exec_signature names m)]
  rfl

end Eval

namespace Store

variable {view : ν → Form ν}

theorem refers_define {st : Store ν} {id p : ScopeId} (inside : id < st.scopes.size) (x : String)
    {v : Value ν} (hv : v.captured? = some p) : (st.define id x v).Refers id p := by
  have here : st.scopes[id]? = some st.scopes[id] := Array.getElem?_eq_getElem inside
  have bound : (x, v) ∈ st.scopes[id].bindings.set x v := by
    apply Bindings.mem_of_get?
    rw [Bindings.get?_set, if_pos rfl]
  exact .captured (scopes_define_self x v here) bound hv

/-- A function that is defined in a scope makes the scope refer to itself. -/
theorem refers_self {st : Store ν} {limit : Int} {id : ScopeId} {node body : ν} {name : String}
    {params : List String} (inside : id < st.scopes.size)
    (free : st.lookup (some id) "define" = none) (levels : 2 ≤ effectiveLimit limit)
    (function : IsFunction view node name params body) :
    (st.perform view (.run limit (some id) node)).Refers id id := by
  obtain ⟨depth, deep⟩ := Nat.exists_eq_add_of_le' levels
  have left : st.perform view (.run limit (some id) node) =
      st.define id name (.ofClosure ⟨name, params, body, some id⟩) := by
    rw [perform, run, deep]
    exact congrArg Machine.store (Eval.exec_function function ⟨st, #[]⟩ free)
  rw [left]
  exact refers_define inside name rfl

/-- Chains of scopes end. Whatever steps are taken, and at every moment of them, also in the midst
of an evaluation, scopes bear the numbers from one on in the order of their making, `id + 1` for the
scope `id`. All that a scope refers to exists, and the one that it is nested in has a smaller
number. So the way outward ends, and look-up comes to its answer in as many steps as the number of
the scope, although to define a function in a scope makes references go in a circle. -/
theorem chains_end (view : ν → Form ν) (steps : List (Step ν)) (admits : empty.Admits view steps) :
    grown (empty.chronicle view steps) = built view steps ∧
    (∀ past, past <+: empty.chronicle view steps →
      let st := grown past
      empty.numbers past = List.range' 1 st.scopes.size ∧ (empty.numbers past).Nodup ∧
      st.scopes.toList.map Scope.parent = parents past ∧
      (∀ (id n : Nat) (s : Scope ν), st.scopes[id]? = some s → (empty.numbers past)[id]? = some n →
        st.scopeText id = "[" ++ toString n ++ "]: " ++ Text.quoted s.name) ∧
      (∀ id p, st.Refers id p → ∃ s, st.scopes[p]? = some s) ∧
      (∀ id p, st.parent? id = some p → p < id) ∧
      WellFounded (fun p id => st.parent? id = some p) ∧
      ∀ x id n, id + 1 ≤ n → st.lookupWithin x n (some id) = some (st.lookup (some id) x)) ∧
    ∀ limit id node name params body, id < (built view steps).scopes.size →
      (built view steps).lookup (some id) "define" = none → 2 ≤ effectiveLimit limit →
      IsFunction view node name params body →
      (built view (steps ++ [.run limit (some id) node])).Refers id id := by
  have start : (empty : Store ν).Meets .closed := (Reachable.empty : Reachable view empty).closed
  have grounded : empty.Grounded (empty.chronicle view steps) := admits.grounded start
  refine ⟨foldl_change_chronicle view empty steps, ?_, ?_⟩
  · rintro past ⟨future, whole⟩ st
    rw [← whole, grounded_append] at grounded
    have closed : st.Meets .closed := start.changes view grounded.1
    have numbered := numbers_grown past
    refine ⟨numbered, ?_, ?_, ?_, ?_, ?_, closed.wellFounded, ?_⟩
    · rw [numbered]
      exact List.nodup_range'
    · exact map_parent_changes empty past
    · intro id n s hs hn
      exact scopeText_grown hs hn
    · intro id p refers
      exact closed.exists_of_refers refers
    · intro id p hp
      exact closed.lt_of_parent? hp
    · intro x id n enough
      exact closed.lookupWithin_eq x enough
  · intro limit id node name params body inside free levels function
    rw [built_concat]
    exact refers_self inside free levels function

/-- `(define (f) (define (h) 1))` and `(define g (f))` in a scope, a scope made in that of the call,
and `(+ (g) (f 1))` in it, which fails when `g` has been called. -/
def circlingSteps : List (Step Tree) :=
  [.change (.create none), .change (.rename 0 "root"),
    .run 5 (some 0) (.list none [.atom none "define", .list none [.atom none "f"],
      .list none [.atom none "define", .list none [.atom none "h"], .atom none "1"]]),
    .run 5 (some 0) (.list none [.atom none "define", .atom none "g",
      .list none [.atom none "f"]]),
    .change (.create (some 1)),
    .change (.define 2 "k" (.ofClosure ⟨"k", [], .atom none "1", some 1⟩)),
    .run 5 (some 2) (.list none [.atom none "+", .list none [.atom none "g"],
      .list none [.atom none "f", .atom none "1"]])]

/-- The outermost scope and that of the first call refer to each other. The first six changes end
inside this call. -/
theorem chains_end_circlingSteps :
    let changes := empty.chronicle Tree.form circlingSteps
    let st := built Tree.form circlingSteps
    let function : Tree := .list none [.atom none "define", .list none [.atom none "f"],
      .atom none "1"]
    empty.Admits Tree.form circlingSteps ∧ st.Refers 0 1 ∧ st.Refers 1 0 ∧
    empty.numbers changes = [1, 2, 3, 4] ∧ empty.numbers (changes.take 6) = [1, 2] ∧
    parents changes = [none, some 0, some 1, some 1] ∧
    st.lookupWithin "g" 4 (some 3) = some (st.lookup (some 3) "g") ∧
    (built Tree.form (circlingSteps ++ [.run 2 (some 3) function])).Refers 3 3 := by
  intro changes st function
  have admits : empty.Admits Tree.form circlingSteps := by decide +kernel
  have root : st.scopes[0]? = some ⟨"root", none,
      [("f", .ofClosure ⟨"f", [], .list none [.atom none "define", .list none [.atom none "h"],
          .atom none "1"], some 0⟩),
        ("g", .ofClosure ⟨"h", [], .atom none "1", some 1⟩)]⟩ := by
    with_unfolding_all rfl
  have call : st.scopes[1]? = some ⟨"f", some 0,
      [("h", .ofClosure ⟨"h", [], .atom none "1", some 1⟩)]⟩ := by
    with_unfolding_all rfl
  have size : st.scopes.size = 4 := by decide +kernel
  have inner : (grown (changes.take 6)).scopes.size = 2 := by decide +kernel
  obtain ⟨same, moments, circle⟩ := chains_end Tree.form circlingSteps admits
  obtain ⟨numbered, -, nested, -, -, -, -, found⟩ := moments changes (List.prefix_refl _)
  obtain ⟨first, -⟩ := moments (changes.take 6) (List.take_prefix 6 _)
  change grown changes = st at same
  rw [same] at numbered nested found
  refine ⟨admits, ?_, ?_, ?_, ?_, ?_, ?_, ?_⟩
  · exact .captured root (.tail _ (.head _)) rfl
  · exact .parent call rfl
  · rw [numbered, size]
    rfl
  · rw [first, inner]
    rfl
  · rw [← nested]
    decide +kernel
  · exact found "g" 3 4 (Nat.le_refl 4)
  · refine circle 2 3 function "f" [] (.atom none "1") ?_ ?_ (by decide) ?_
    · exact size ▸ by decide
    · decide +kernel
    · exact ⟨_, _, _, rfl, rfl, rfl, rfl⟩

end Store

end Lisplet
