import Lisplet.Proofs.History

/-! Evaluation writes to its own scope and to scopes it creates. Every other scope stays as it was,
and the scope of a call stays as the call left it. -/
namespace Lisplet

variable {ν : Type}

/-- `b` is `a` with names bound or bound anew. -/
structure Scope.Extends (a b : Scope ν) : Prop where
  name : b.name = a.name
  parent : b.parent = a.parent
  bound (x : String) : (a.bindings.get? x).isSome → (b.bindings.get? x).isSome

namespace Scope.Extends

variable {a b c : Scope ν}

theorem refl (a : Scope ν) : a.Extends a := ⟨rfl, rfl, fun _ => id⟩

theorem trans (h : a.Extends b) (h' : b.Extends c) : a.Extends c :=
  ⟨h'.name.trans h.name, h'.parent.trans h.parent, fun x hx => h'.bound x (h.bound x hx)⟩

theorem set (a : Scope ν) (x : String) (v : Value ν) :
    a.Extends { a with bindings := a.bindings.set x v } := by
  refine ⟨rfl, rfl, fun y hy => ?_⟩
  simp only [Bindings.get?_set]
  split
  · rfl
  · exact hy

end Scope.Extends

/-- What evaluation in the scope `s` leaves of a store. -/
structure Store.Frame (s : Option ScopeId) (st st' : Store ν) : Prop where
  size : st.scopes.size ≤ st'.scopes.size
  other (id : ScopeId) : id < st.scopes.size → s ≠ some id → st'.scopes[id]? = st.scopes[id]?
  kept {id : ScopeId} {a : Scope ν} : st.scopes[id]? = some a →
    ∃ b, st'.scopes[id]? = some b ∧ a.Extends b

namespace Store.Frame

variable {s : Option ScopeId} {st st₁ st' : Store ν}

theorem refl (s : Option ScopeId) (st : Store ν) : Store.Frame s st st :=
  ⟨Nat.le_refl _, fun _ _ _ => rfl, fun h => ⟨_, h, .refl _⟩⟩

theorem trans (h : Store.Frame s st st₁) (h' : Store.Frame s st₁ st') : Store.Frame s st st' := by
  refine ⟨Nat.le_trans h.size h'.size, fun id lt ne => ?_, fun ha => ?_⟩
  · rw [h'.other id (Nat.lt_of_lt_of_le lt h.size) ne, h.other id lt ne]
  · obtain ⟨b, hb, hab⟩ := h.kept ha
    obtain ⟨c, hc, hbc⟩ := h'.kept hb
    exact ⟨c, hc, hab.trans hbc⟩

theorem define (st : Store ν) (id : ScopeId) (x : String) (v : Value ν) :
    Store.Frame (some id) st (st.define id x v) := by
  refine ⟨Nat.le_of_eq (st.size_define id x v).symm, fun other _ ne => ?_, fun {other a} ha => ?_⟩
  · exact scopes_define_ne x v fun h => ne (h ▸ rfl)
  · by_cases h : other = id
    · subst h; exact ⟨_, scopes_define_self x v ha, .set a x v⟩
    · exact ⟨a, by rw [scopes_define_ne x v h, ha], .refl a⟩

/-- A call writes to no scope that was there before it. -/
theorem call (s : Option ScopeId) {m m' : Machine ν} (c : Closure ν) (vs : List (Value ν))
    (h : Store.Frame (some m.store.nextId) (m.enter c vs).store m'.store) :
    Store.Frame s m.store m'.store := by
  have grown : m.store.scopes.size < (m.enter c vs).store.scopes.size := by
    rw [m.size_enter]; exact Nat.lt_succ_self _
  have same {id : ScopeId} (lt : id < m.store.scopes.size) :
      m'.store.scopes[id]? = m.store.scopes[id]? := by
    have own : some m.store.nextId ≠ some id := fun e => Nat.ne_of_gt lt (Option.some.inj e)
    rw [h.other id (Nat.lt_trans lt grown) own, m.scopes_enter_lt c vs lt]
  refine ⟨Nat.le_trans (Nat.le_of_lt grown) h.size, fun id lt _ => same lt, fun {id a} ha => ?_⟩
  refine ⟨a, ?_, .refl a⟩
  obtain ⟨lt, -⟩ := Array.getElem?_eq_some_iff.mp ha
  rw [same lt, ha]

end Store.Frame

namespace History

variable {view : ν → Form ν} {limit : Nat} {s : Option ScopeId} {m m' : Machine ν}
variable {es : List (Event ν)}

theorem frame (h : History view limit s m es m') : Store.Frame s m.store m'.store := by
  induction h with
  | refl => exact .refl _ _
  | define x v _ ih => exact ih.trans (.define _ _ x v)
  | call c vs left _ _ _ ih ihBody => exact ih.trans (.call _ c vs ihBody)

/-- Names are bound in the scope of the evaluation or in scopes that it creates. -/
theorem define_mem (h : History view limit s m es m') {id : ScopeId} {x : String} {v : Value ν}
    (hd : .define id x v ∈ es) : s = some id ∨ m.store.scopes.size ≤ id := by
  induction h with
  | refl => cases hd
  | define y w _ ih =>
    rcases List.mem_append.mp hd with hd | hd
    · exact ih hd
    · cases List.mem_singleton.mp hd
      exact .inl rfl
  | @call s m m₁ m₂ es inner c vs left h _ _ ih ihBody =>
    rcases List.mem_append.mp hd with hd | hd
    · exact ih hd
    · have size := h.frame.size
      rcases ihBody (by simpa using hd) with own | new
      · cases own; exact .inr size
      · rw [m₁.size_enter] at new
        exact .inr (Nat.le_trans size (Nat.le_of_succ_le new))

end History

theorem Machine.size_le_replay (m : Machine ν) (es : List (Event ν)) :
    m.store.scopes.size ≤ (m.replay es).store.scopes.size := by
  rw [store_replay, Store.size_foldl_replay]
  exact Nat.le_add_right _ _

theorem Machine.replay_call (m : Machine ν) (before inner : List (Event ν)) (c : Closure ν)
    (vs : List (Value ν)) :
    m.replay (before ++ .apply c vs :: inner) = ((m.replay before).enter c vs).replay inner := by
  rw [replay_append, enter_eq_replay]
  rfl

/-- A call made after the events `before`, of which `inner` are its own, is over: nothing of `rest`
binds a name in its scope, and at the end the scope is as the call left it. -/
structure Sealed (view : ν → Form ν) (limit : Nat) (m : Machine ν) (before inner : List (Event ν))
    (c : Closure ν) (vs : List (Value ν)) (rest : List (Event ν)) : Prop where
  returned : ∃ left, ((eval view limit left (some (m.replay before).store.nextId) c.body).exec
    ((m.replay before).enter c vs)).2 = m.replay (before ++ .apply c vs :: inner)
  quiet (x : String) (v : Value ν) : .define (m.replay before).store.nextId x v ∉ rest
  scope : (m.replay (before ++ .apply c vs :: inner ++ rest)).store.scopes[
      (m.replay before).store.nextId]? =
    (m.replay (before ++ .apply c vs :: inner)).store.scopes[(m.replay before).store.nextId]?

namespace Sealed

variable {view : ν → Form ν} {limit : Nat} {m : Machine ν} {before inner rest : List (Event ν)}
variable {c : Closure ν} {vs : List (Value ν)}

theorem define (h : Sealed view limit m before inner c vs rest) {id : ScopeId}
    (lt : id < m.store.scopes.size) (x : String) (v : Value ν) :
    Sealed view limit m before inner c vs (rest ++ [.define id x v]) := by
  have ne : (m.replay before).store.nextId ≠ id :=
    Nat.ne_of_gt (Nat.lt_of_lt_of_le lt (m.size_le_replay before))
  refine ⟨h.returned, fun y w hm => ?_, ?_⟩
  · rcases List.mem_append.mp hm with hm | hm
    · exact h.quiet y w hm
    · cases List.mem_singleton.mp hm
      exact ne rfl
  · rw [← List.append_assoc, Machine.replay_append, ← Machine.bind_eq_replay, Machine.bind,
      Store.scopes_define_ne x v ne, h.scope]

/-- A later call binds names in scopes that are newer still. -/
theorem call (h : Sealed view limit m before inner c vs rest) {d : Closure ν}
    {ws : List (Value ν)} {es : List (Event ν)} {m₁ m₂ : Machine ν}
    (hm : m₁ = m.replay (before ++ .apply c vs :: inner ++ rest))
    (later : History view limit (some m₁.store.nextId) (m₁.enter d ws) es m₂) :
    Sealed view limit m before inner c vs (rest ++ .apply d ws :: es) := by
  have old : (m.replay before).store.nextId < m₁.store.scopes.size := by
    rw [hm, List.append_assoc, List.cons_append, Machine.replay_call]
    refine Nat.lt_of_lt_of_le ?_ (Machine.size_le_replay _ _)
    rw [Machine.size_enter]
    exact Nat.lt_succ_self _
  refine ⟨h.returned, fun y w he => ?_, ?_⟩
  · rcases List.mem_append.mp he with he | he
    · exact h.quiet y w he
    · rcases later.define_mem (by simpa using he) with own | new
      · exact Nat.ne_of_gt old (Option.some.inj own)
      · rw [Machine.size_enter] at new
        exact Nat.lt_irrefl _ (Nat.lt_of_lt_of_le old (Nat.le_of_succ_le new))
  · rw [← List.append_assoc, Machine.replay_call, ← hm, ← later.replayed,
      (Store.Frame.call none d ws later.frame).other _ old (by simp), hm, h.scope]

theorem shift {pre : List (Event ν)}
    (h : Sealed view limit (m.replay pre) before inner c vs rest) :
    Sealed view limit m (pre ++ before) inner c vs rest := by
  refine ⟨?_, ?_, ?_⟩
  · simpa only [List.append_assoc, Machine.replay_append] using h.returned
  · simpa only [Machine.replay_append] using h.quiet
  · simpa only [List.append_assoc, Machine.replay_append] using h.scope

end Sealed

/-- Every call that a history tells of is over at its end. -/
theorem History.sealed {view : ν → Form ν} {limit : Nat} {s : Option ScopeId} {m m' : Machine ν}
    {es : List (Event ν)} (h : History view limit s m es m')
    (hs : ∀ id, s = some id → id < m.store.scopes.size)
    {before later : List (Event ν)} {c : Closure ν} {vs : List (Value ν)}
    (split : es = before ++ .apply c vs :: later) :
    ∃ inner rest, later = inner ++ rest ∧ Sealed view limit m before inner c vs rest := by
  induction h generalizing before later with
  | refl => simp at split
  | @define id m m₁ es x v h ih =>
    -- The last event binds a name, so the call is told of before it.
    obtain rfl | ⟨later, e, rfl⟩ := List.eq_nil_or_concat later
    · exact absurd (List.append_inj_right' split rfl) (by simp)
    · rw [List.concat_eq_append, ← List.cons_append, ← List.append_assoc] at split
      obtain ⟨rfl, last⟩ := List.append_inj' split rfl
      cases last
      obtain ⟨inner, rest, rfl, done⟩ := ih hs rfl
      exact ⟨inner, rest ++ [.define id x v], by simp, done.define (hs id rfl) x v⟩
  | @call s m m₁ m₂ es inner d ws left h body hbody ih ihBody =>
    have opened : m₁.enter d ws = m.replay (es ++ [.apply d ws]) := by
      rw [Machine.replay_append, ← h.replayed, Machine.enter_eq_replay]
    have itself : Sealed view limit m es inner d ws [] := by
      refine ⟨⟨left, ?_⟩, by simp, by simp⟩
      rw [Machine.replay_call, ← h.replayed, body]
      exact hbody.replayed
    rcases List.append_eq_append_iff.mp split with ⟨tail, rfl, rest⟩ | ⟨tail, rfl, rest⟩
    · cases tail with
      | nil =>
        cases rest
        exact ⟨inner, [], by simp, by simpa using itself⟩
      | cons e tail =>
        -- The call is told of inside the body of this one.
        cases rest
        have new : ∀ id, some m₁.store.nextId = some id →
            id < (m₁.enter d ws).store.scopes.size := by
          rintro _ ⟨rfl⟩
          rw [m₁.size_enter]
          exact Nat.lt_succ_self _
        obtain ⟨inner', rest, rfl, done⟩ := ihBody new rfl
        rw [opened] at done
        exact ⟨inner', rest, rfl, by simpa using done.shift⟩
    · cases tail with
      | nil =>
        cases rest
        exact ⟨inner, [], by simp, by simpa using itself⟩
      | cons e tail =>
        -- The call is told of before this one.
        cases rest
        obtain ⟨inner', rest, rfl, done⟩ := ih hs rfl
        exact ⟨inner', rest ++ .apply d ws :: inner, by simp,
          done.call (by rw [h.replayed]; simp) hbody⟩

/-- Evaluation in a scope, whatever comes of it, leaves every other scope as it was, and unbinds no
name. The events tell all that it did, and by them the scope of each call is never changed again
once the call is over. -/
theorem run_frame (view : ν → Form ν) (limit : Int) (env : ScopeId) (node : ν) (st : Store ν)
    (henv : env < st.scopes.size) :
    let m := (run view limit (some env) node st).2
    (∀ id, id < st.scopes.size → id ≠ env → m.store.scopes[id]? = st.scopes[id]?) ∧
    (∀ (id : ScopeId) (a : Scope ν), st.scopes[id]? = some a →
      ∃ b, m.store.scopes[id]? = some b ∧ a.Extends b) ∧
    m = Machine.replay ⟨st, #[]⟩ m.trace.toList ∧
    ∀ before c vs later, m.trace.toList = before ++ .apply c vs :: later →
      ∃ inner rest, later = inner ++ rest ∧
        Sealed view (effectiveLimit limit) ⟨st, #[]⟩ before inner c vs rest := by
  obtain ⟨es, h⟩ := eval_history view (effectiveLimit limit) (effectiveLimit limit) (some env) node
    ⟨st, #[]⟩
  change History _ _ _ _ _ (run view limit (some env) node st).2 at h
  have events : (run view limit (some env) node st).2.trace.toList = es := by
    rw [h.replayed, Machine.trace_replay]
    rfl
  refine ⟨fun id lt ne => ?_, fun id a ha => h.frame.kept ha, ?_, fun before c vs later split => ?_⟩
  · exact h.frame.other id lt fun e => ne (Option.some.inj e).symm
  · rw [events]
    exact h.replayed
  · refine h.sealed (fun id own => ?_) (events.symm.trans split)
    cases own
    exact henv

/-- `(define (f x) (define y x))`, as a value. -/
def Closure.keeper : Closure Tree :=
  ⟨"f", ["x"], .list none [.atom none "define", .atom none "y", .atom none "x"], some 0⟩

/-- `(if (define (f x) (define y x)) (define z (f 5)))`. -/
def Tree.keeping : Tree :=
  .list none [.atom none "if",
    .list none [.atom none "define", .list none [.atom none "f", .atom none "x"],
      Closure.keeper.body],
    .list none [.atom none "define", .atom none "z", .list none [.atom none "f", .atom none "5"]]]

theorem run_frame_keeping :
    (run Tree.form 10 (some 0) .keeping (Store.empty.create none "root")).2.trace.toList =
      [.define 0 "f" (.ofClosure .keeper), .apply .keeper [.ofInt 5], .define 1 "y" (.ofInt 5),
        .define 0 "z" (.ofInt 5)] ∧
    ∃ inner rest, [.define 1 "y" (.ofInt 5), .define 0 "z" (.ofInt 5)] = inner ++ rest ∧
      Sealed Tree.form 10 ⟨Store.empty.create none "root", #[]⟩
        [.define 0 "f" (.ofClosure .keeper)] inner .keeper [.ofInt 5] rest := by
  have trace :
      (run Tree.form 10 (some 0) .keeping (Store.empty.create none "root")).2.trace.toList =
      [.define 0 "f" (.ofClosure .keeper), .apply .keeper [.ofInt 5], .define 1 "y" (.ofInt 5),
        .define 0 "z" (.ofInt 5)] := by
    with_unfolding_all rfl
  have frame := run_frame Tree.form 10 0 .keeping (Store.empty.create none "root") (by decide)
  exact ⟨trace, frame.2.2.2 _ .keeper [.ofInt 5] _ trace⟩

end Lisplet
