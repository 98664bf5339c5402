import Lisplet.Proofs.Congruence

/-! The depth limit of §4.3 cuts evaluation off and does nothing else. A run that ends within a
limit is the same run under every higher one, and a run that is cut off did nothing that a higher
limit would not have done first. -/
namespace Lisplet

variable {ν : Type}

/-- Whether the depth limit ended the evaluation. -/
def Halt.isCut : Halt → Bool
  | .error ⟨.depthExceeded _, _⟩ => true
  | _ => false

namespace Eval

variable {α β γ δ : Type} {R : α → β → Prop}

/-- `x` is `y` under a lower limit. -/
structure Cut (R : α → β → Prop) (x : Eval ν α) (y : Eval ν β) : Prop where
  value {m m' : Machine ν} {a : α} : x.exec m = (.ok a, m') → ∃ b, R a b ∧ y.exec m = (.ok b, m')
  halt {m m' : Machine ν} {h : Halt} : x.exec m = (.error h, m') → h.isCut = false →
    y.exec m = (.error h, m')
  cut {m m' : Machine ν} {h : Halt} : x.exec m = (.error h, m') → h.isCut = true →
    m'.trace.toList <+: (y.exec m).2.trace.toList
  /-- What `y` does after `x` was cut off comes behind. -/
  grows (m : Machine ν) : m.trace.toList <+: (y.exec m).2.trace.toList
  covers {m m' : Machine ν} {b : β} : y.exec m = (.ok b, m') → ∃ a, R a b

namespace Cut

theorem pure {a : α} {b : β} (h : R a b) :
    Cut R (Pure.pure a : Eval ν α) (Pure.pure b) where
  value hx := by cases hx; exact ⟨b, h, rfl⟩
  halt hx := by cases hx
  cut hx := by cases hx
  grows _ := List.prefix_refl _
  covers hy := by cases hy; exact ⟨a, h⟩

/-- A computation that ends at once in the same way on both sides. -/
theorem halted (e : Halt) : Cut R (throw e : Eval ν α) (throw e) where
  value hx := by cases hx
  halt hx _ := by cases hx; rfl
  cut hx _ := by cases hx; exact List.prefix_refl _
  grows _ := List.prefix_refl _
  covers hy := by cases hy

/-- A computation cut off at its start has done nothing that the other has not. -/
theorem stopped {R : β → β → Prop} {e : Halt} (he : e.isCut = true) {y : Eval ν β}
    (hy : Cut R y y) : Cut R (throw e) y where
  value hx := by cases hx
  halt hx h := by cases hx; rw [he] at h; cases h
  cut hx _ := by cases hx; exact hy.grows _
  grows := hy.grows
  covers := hy.covers

theorem bind {Q : γ → δ → Prop} {x : Eval ν α} {y : Eval ν β} {f : α → Eval ν γ}
    {g : β → Eval ν δ} (hx : Cut R x y) (hf : ∀ a b, R a b → Cut Q (f a) (g b)) :
    Cut Q (x >>= f) (y >>= g) := by
  -- A result of `y` belongs to one of `x`, so `hf` also tells how `g` goes on after a cut.
  have after (m : Machine ν) :
      (y.exec m).2.trace.toList <+: ((y >>= g).exec m).2.trace.toList := by
    obtain ⟨e, m₁, hy, hb⟩ | ⟨b, m₁, hy, hb⟩ := exec_bind_cases y g m
    · simp only [hy, hb, List.prefix_refl]
    · obtain ⟨a, hab⟩ := hx.covers hy
      rw [hy, hb]
      exact (hf a b hab).grows m₁
  refine ⟨?_, ?_, ?_, fun m => (hx.grows m).trans (after m), ?_⟩
  · intro m m' c h
    obtain ⟨e, m₁, hr, hb⟩ | ⟨a, m₁, hr, hb⟩ := exec_bind_cases x f m
    · rw [h] at hb; cases hb
    · obtain ⟨b, hab, hy⟩ := hx.value hr
      obtain ⟨d, hcd, hg⟩ := (hf a b hab).value (hb.symm.trans h)
      exact ⟨d, hcd, (exec_bind_of_ok hy).trans hg⟩
  · intro m m' e h he
    obtain ⟨e', m₁, hr, hb⟩ | ⟨a, m₁, hr, hb⟩ := exec_bind_cases x f m
    · cases hb.symm.trans h
      exact exec_bind_of_error (hx.halt hr he)
    · obtain ⟨b, hab, hy⟩ := hx.value hr
      exact (exec_bind_of_ok hy).trans ((hf a b hab).halt (hb.symm.trans h) he)
  · intro m m' e h he
    obtain ⟨e', m₁, hr, hb⟩ | ⟨a, m₁, hr, hb⟩ := exec_bind_cases x f m
    · cases hb.symm.trans h
      exact (hx.cut hr he).trans (after m)
    · obtain ⟨b, hab, hy⟩ := hx.value hr
      rw [exec_bind_of_ok hy]
      exact (hf a b hab).cut (hb.symm.trans h) he
  · intro m m' d h
    obtain ⟨e, m₁, hr, hb⟩ | ⟨b, m₁, hr, hb⟩ := exec_bind_cases y g m
    · rw [h] at hb; cases hb
    · obtain ⟨a, hab⟩ := hx.covers hr
      exact (hf a b hab).covers (hb.symm.trans h)

/-- A computation that always succeeds, against itself. -/
theorem same {x : Eval ν α} (total : ∀ m : Machine ν, ∃ a, x.exec m = (.ok a, (x.exec m).2))
    (grows : ∀ m : Machine ν, m.trace.toList <+: (x.exec m).2.trace.toList) :
    Cut (· = ·) x x where
  value hx := ⟨_, rfl, hx⟩
  halt {m _ _} hx := by
    obtain ⟨a, ha⟩ := total m
    rw [hx] at ha; cases ha
  cut {m _ _} hx := by
    obtain ⟨a, ha⟩ := total m
    rw [hx] at ha; cases ha
  grows := grows
  covers {_ _ b} _ := ⟨b, rfl⟩

theorem assign (s : Option ScopeId) (x : String) (v : Value ν) :
    Cut (· = ·) (Eval.assign s x v) (Eval.assign s x v) := by
  cases s with
  | none => exact halted _
  | some id =>
    refine same (fun m => ⟨(), rfl⟩) fun m => ?_
    change m.trace.toList <+: (m.trace.push _).toList
    rw [Array.toList_push]
    exact List.prefix_append _ _

theorem enter (c : Closure ν) (vs : List (Value ν)) :
    Cut (· = ·) (Eval.enter c vs) (Eval.enter c vs) := by
  refine same (fun m => ⟨m.store.nextId, rfl⟩) fun m => ?_
  change m.trace.toList <+: (m.trace.push _).toList
  rw [Array.toList_push]
  exact List.prefix_append _ _

theorem atom (s : Option ScopeId) (text : String) :
    Cut Value.Same (Eval.atom s text : Eval ν (Value ν)) (Eval.atom s text) where
  value hx := by cases hx; exact ⟨_, Value.Same.refl _, rfl⟩
  halt hx := by cases hx
  cut hx := by cases hx
  grows _ := List.prefix_refl _
  covers {_ _ b} _ := ⟨b, Value.Same.refl b⟩

variable {view : ν → Form ν} {ev ev' : Evaluator ν}

/-- Evaluators of which one is the other under a lower limit remain so one level further out. -/
theorem congruence (h : ∀ s a, Cut Value.Same (ev s a) (ev' s a)) (s : Option ScopeId) :
    Congruence ⟨(· = ·), (· = ·), (· = ·), Cut⟩ view ev ev' s s where
  here := rfl
  shape hab := by subst hab; exact .refl (fun _ => rfl) _
  place hab := by rw [hab]
  pure := Cut.pure
  bind := Cut.bind
  fail cause hp := by subst hp; exact halted _
  fault f := halted _
  eval hab := by subst hab; exact h s _
  assign x hv := by cases Value.Same.eq hv; exact Cut.assign s x _
  call hc hvs := by
    cases hc.eq
    cases Value.Same.all_eq hvs
    exact (Cut.enter _ _).bind fun k k' hk => by subst hk; exact h _ _

end Cut

variable (view : ν → Form ν) {d d' : Nat}

theorem eval_cut_succ {n n' : Nat}
    (h : ∀ s a, Cut Value.Same (eval view d n s a) (eval view d' n' s a))
    (s : Option ScopeId) (a : ν) :
    Cut Value.Same (eval view d (n + 1) s a) (eval view d' (n' + 1) s a) := by
  simp only [eval]
  split
  · exact Cut.halted _
  · exact Cut.halted _
  · exact Cut.atom s _
  · exact (Cut.congruence h s).list rfl (List.forall₂_same.mpr fun _ _ => rfl)

theorem eval_cut_self (n : Nat) (s : Option ScopeId) (a : ν) :
    Cut Value.Same (eval view d n s a) (eval view d n s a) := by
  induction n generalizing s a with
  | zero =>
    simp only [eval]
    split
    · exact Cut.halted _
    · exact Cut.halted _
  | succ n ih => exact eval_cut_succ view ih s a

/-- The levels left decide how far a run gets, the limit only what its error says. -/
theorem eval_cut {n n' : Nat} (hn : n ≤ n') (s : Option ScopeId) (a : ν) :
    Cut Value.Same (eval view d n s a) (eval view d' n' s a) := by
  induction n generalizing n' s a with
  | zero =>
    have self := eval_cut_self view (d := d') n' s a
    have absent (h : (view a).shape = .absent) : eval view d' n' s a = fault .missing := by
      cases n' <;> simp only [eval, h]
    simp only [eval]
    split
    · rename_i h
      rw [absent h]
      exact Cut.halted _
    · exact Cut.stopped rfl self
  | succ n ih =>
    obtain ⟨k, rfl⟩ : ∃ k, n' = k + 1 := ⟨n' - 1, by omega⟩
    exact eval_cut_succ view (fun s a => ih (by omega) s a) s a

end Eval

/-- **Raising the limit changes no result.** A run that is not cut off is the same run under a
higher limit, in its value or error, the store and the events. Of a run that is cut off the events
are the first ones of the run under the higher limit. -/
theorem run_limit_mono (view : ν → Form ν) (a b : Int)
    (hab : effectiveLimit a ≤ effectiveLimit b) (scope : Option ScopeId) (node : ν)
    (st : Store ν) :
    ((∀ h, (run view a scope node st).1 = .error h → h.isCut = false) →
      run view b scope node st = run view a scope node st) ∧
    (∀ h, (run view a scope node st).1 = .error h → h.isCut = true →
      (run view a scope node st).2.trace.toList <+:
        (run view b scope node st).2.trace.toList) := by
  have cut : Eval.Cut Value.Same (eval view (effectiveLimit a) (effectiveLimit a) scope node)
      (eval view (effectiveLimit b) (effectiveLimit b) scope node) :=
    Eval.eval_cut view hab scope node
  rcases hr : run view a scope node st with ⟨h | v, m⟩
  · refine ⟨fun settled => cut.halt hr (settled h rfl), fun h' hh => ?_⟩
    cases hh
    exact cut.cut hr
  · refine ⟨fun _ => ?_, fun h hh => by cases hh⟩
    obtain ⟨w, hw, hb⟩ := cut.value hr
    rw [hw.eq]
    exact hb

/-- `(+ (define x 1) (+ 1 (+ 2 3)))`, which takes four levels. -/
def Tree.nestedSum : Tree :=
  .list none [.atom none "+",
    .list none [.atom none "define", .atom none "x", .atom none "1"],
    .list none [.atom none "+", .atom none "1",
      .list none [.atom none "+", .atom none "2", .atom none "3"]]]

theorem run_limit_mono_nestedSum :
    let st : Store Tree := Store.empty.create none "root"
    ((run Tree.form 3 (some 0) .nestedSum st).1 = .error (.error ⟨.depthExceeded 3, .nowhere⟩) ∧
      (run Tree.form 3 (some 0) .nestedSum st).2.trace.toList <+:
        (run Tree.form 4 (some 0) .nestedSum st).2.trace.toList) ∧
    (run Tree.form 4 (some 0) .nestedSum st).1 = .ok (.ofInt 7) ∧
      run Tree.form 0 (some 0) .nestedSum st = run Tree.form 4 (some 0) .nestedSum st := by
  intro st
  have low : (run Tree.form 3 (some 0) .nestedSum st).1 =
      .error (.error ⟨.depthExceeded 3, .nowhere⟩) := by with_unfolding_all rfl
  have high : (run Tree.form 4 (some 0) .nestedSum st).1 = .ok (.ofInt 7) := by
    with_unfolding_all rfl
  refine ⟨⟨low, ?_⟩, high, ?_⟩
  · exact (run_limit_mono Tree.form 3 4 (by decide) (some 0) .nestedSum st).2 _ low rfl
  · refine (run_limit_mono Tree.form 4 0 (by decide) (some 0) .nestedSum st).1 fun h he => ?_
    rw [high] at he
    cases he

end Lisplet
