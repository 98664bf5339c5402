import Lisplet.Proofs.Descent
import Lisplet.Proofs.Yield

/-! Which token is blamed. Tokens that are no expressions have one that cannot stand where it does,
and then the first of these is blamed, or else lists that are not closed, and then the innermost of
these. -/
namespace Lisplet

namespace Parser

/-- How many lists are open behind a token, if some are open in front of it. -/
def depthAfter (depth : Nat) (t : Token) : Nat :=
  match t.kind with
  | .openParen => depth + 1
  | .closeParen => depth - 1
  | _ => depth

/-- How many lists are open behind the tokens. -/
def openLists (ts : List Token) : Nat := ts.foldl depthAfter 0

/-- The token closes a list where none is open, or is none that expressions are made of. -/
def Misplaced (front : List Token) (t : Token) : Prop :=
  (t.kind = .closeParen ∧ openLists front = 0) ∨
    (t.kind.isAtom = false ∧ t.kind ≠ .openParen ∧ t.kind ≠ .closeParen)

/-- Each token can stand where it does. -/
def Orderly (ts : List Token) : Prop := ∀ front t, front ++ [t] <+: ts → ¬Misplaced front t

/-- The first token that cannot stand where it does. -/
def FirstMisplaced (ts : List Token) (t : Token) : Prop :=
  ∃ front, front ++ [t] <+: ts ∧ Misplaced front t ∧ Orderly front

/-- The token opens a list, and none of those behind it closes that list. -/
def Unmatched (t : Token) (back : List Token) : Prop :=
  t.kind = .openParen ∧ ∀ inside c, inside ++ [c] <+: back → ¬Expression (t :: inside ++ [c])

/-- Each list that is opened is closed. -/
def Matched (ts : List Token) : Prop := ∀ t back, t :: back <:+ ts → ¬Unmatched t back

/-- The last token that opens a list which is not closed. -/
def LastUnmatched (ts : List Token) (t : Token) : Prop :=
  ∃ back, t :: back <:+ ts ∧ Unmatched t back ∧ Matched back

/-! ## Tokens that cannot stand where they do -/

namespace State

theorem length_stack_step {s s' : State} {t : Token} (h : s.step t = .ok s') :
    s'.stack.length = depthAfter s.stack.length t := by
  obtain ⟨ho, rfl⟩ | ⟨hc, f, fs, hstack, rfl⟩ | ⟨ha, rfl⟩ := step_cases h
  · simp [depthAfter, ho]
  · simp [depthAfter, hc, hstack, length_stack_add]
  · rw [length_stack_add]
    rcases Token.Kind.isAtom_cases ha with hk | hk | hk | hk | hk | hk | hk <;>
      simp only [depthAfter, hk]

theorem length_stack_feed {s s' : State} {ts : List Token} (h : s.feed ts = .ok s') :
    s'.stack.length = ts.foldl depthAfter s.stack.length := by
  induction ts generalizing s with
  | nil =>
    cases h
    rfl
  | cons t ts ih =>
    rw [feed_cons] at h
    cases hstep : s.step t with
    | error u =>
      rw [hstep] at h
      cases h
    | ok mid =>
      rw [hstep] at h
      rw [ih h, length_stack_step hstep, List.foldl_cons]

/-- The machine refuses a token just if that closes no list or is of no kind it knows. -/
theorem step_error_iff {s : State} {t : Token} : s.step t = .error t ↔
    (t.kind = .closeParen ∧ s.stack = []) ∨
      (t.kind.isAtom = false ∧ t.kind ≠ .openParen ∧ t.kind ≠ .closeParen) := by
  obtain ⟨trees, stack⟩ := s
  cases hk : t.kind with
  | closeParen => cases stack <;> simp [step, hk, Token.Kind.isAtom, Token.Kind.isOperator]
  | openParen | eof | invalid | number | string | symbol | plus | minus | star | slash =>
    simp [step, hk, Token.Kind.isAtom, Token.Kind.isOperator]

/-- Where the machine has come to, a token is refused just if it is misplaced. -/
theorem step_error_iff_misplaced {s : State} {front : List Token} (h : start.feed front = .ok s)
    (t : Token) : s.step t = .error t ↔ Misplaced front t := by
  have depth : openLists front = s.stack.length := (length_stack_feed h).symm
  rw [step_error_iff, Misplaced, depth, List.length_eq_zero_iff]

/-- The machine stops at the token that it refuses. -/
theorem feed_error_split {s : State} {ts : List Token} {t : Token} (h : s.feed ts = .error t) :
    ∃ front back s', ts = front ++ t :: back ∧ s.feed front = .ok s' ∧ s'.step t = .error t := by
  induction ts generalizing s with
  | nil => cases h
  | cons u ts ih =>
    rw [feed_cons] at h
    cases hstep : s.step u with
    | error v =>
      rw [hstep] at h
      cases h
      obtain rfl := step_error hstep
      exact ⟨[], ts, s, rfl, rfl, hstep⟩
    | ok mid =>
      rw [hstep] at h
      obtain ⟨front, back, s', rfl, fed, refused⟩ := ih h
      refine ⟨u :: front, back, s', rfl, ?_, refused⟩
      rw [feed_cons, hstep]
      exact fed

/-- Whatever the machine goes through, it also goes through the first tokens of. -/
theorem feed_of_append {s s' : State} {front back : List Token}
    (h : s.feed (front ++ back) = .ok s') :
    ∃ mid, s.feed front = .ok mid ∧ mid.feed back = .ok s' := by
  rw [feed_append] at h
  cases fed : s.feed front with
  | error t =>
    rw [fed] at h
    cases h
  | ok mid =>
    rw [fed] at h
    exact ⟨mid, rfl, h⟩

end State

theorem orderly_of_feed {ts : List Token} {s : State} (h : State.start.feed ts = .ok s) :
    Orderly ts := by
  rintro front t ⟨back, rfl⟩ misplaced
  rw [List.append_assoc] at h
  obtain ⟨mid, fed, rest⟩ := State.feed_of_append h
  have refused := (State.step_error_iff_misplaced fed t).mpr misplaced
  rw [List.singleton_append, State.feed_cons, refused] at rest
  cases rest

theorem firstMisplaced_of_feed {ts : List Token} {t : Token}
    (h : State.start.feed ts = .error t) : FirstMisplaced ts t := by
  obtain ⟨front, back, s, rfl, fed, refused⟩ := State.feed_error_split h
  refine ⟨front, ⟨back, by simp⟩, ?_, orderly_of_feed fed⟩
  exact (State.step_error_iff_misplaced fed t).mp refused

/-! ## Lists that are not closed -/

theorem feed_expressions {ts : List Token} (h : Expressions ts) :
    ∃ trees, State.start.feed ts = .ok ⟨trees, []⟩ := by
  obtain ⟨trees, built⟩ := expressions_iff.mp h
  refine ⟨trees, ?_⟩
  simpa [State.behind, State.start] using feed_of_outcome_ok (outcome_ok_iff.mpr built)

theorem Expression.inside {t c : Token} {inside : List Token}
    (h : Expression (t :: inside ++ [c])) : Expressions inside ∧ c.kind = .closeParen := by
  generalize he : t :: inside ++ [c] = e at h
  cases h with
  | atom => simp at he
  | @list opening closing items _ hc each =>
    simp only [List.cons_append, List.cons.injEq] at he
    obtain ⟨same, last⟩ := List.append_inj' he.2 rfl
    obtain rfl := List.singleton_inj.mp last
    exact ⟨⟨items, each, same.symm⟩, hc⟩

/-- A list is not closed by anything in front of which there are only whole expressions. -/
theorem unmatched_of_expressions {t : Token} (ht : t.kind = .openParen) {back : List Token}
    (h : Expressions back) : Unmatched t back := by
  refine ⟨ht, ?_⟩
  rintro inside c ⟨rest, rfl⟩ closed
  obtain ⟨whole, hc⟩ := closed.inside
  obtain ⟨trees, fed⟩ := feed_expressions whole
  obtain ⟨all, through⟩ := feed_expressions h
  -- Behind the whole expressions no list is open that the token could close.
  have misplaced : Misplaced inside c :=
    .inl ⟨hc, (State.length_stack_feed fed).symm⟩
  exact orderly_of_feed through inside c (List.prefix_append _ _) misplaced

theorem Unmatched.shorten {t : Token} {mid back : List Token} (h : Unmatched t back)
    (front : mid <+: back) : Unmatched t mid :=
  ⟨h.1, fun inside c first => h.2 inside c (first.trans front)⟩

theorem suffix_append_cases {α : Type} {a : α} {back front rest : List α}
    (h : a :: back <:+ front ++ rest) :
    a :: back <:+ rest ∨ ∃ mid, a :: mid <:+ front ∧ back = mid ++ rest := by
  obtain ⟨before, split⟩ := h
  obtain ⟨mid, rfl, tail⟩ | ⟨mid, rfl, rfl⟩ := List.append_eq_append_iff.mp split
  · obtain ⟨-, rfl⟩ | ⟨mid, rfl, rfl⟩ := List.cons_eq_append_iff.mp tail
    · exact .inl (List.suffix_refl _)
    · exact .inr ⟨mid, List.suffix_append _ _, rfl⟩
  · exact .inl (List.suffix_append _ _)

theorem matched_flatten {items : List (List Token)} (each : ∀ item ∈ items, Matched item) :
    Matched items.flatten := by
  induction items with
  | nil =>
    intro t back h
    simp at h
  | cons item items ih =>
    obtain ⟨head, each⟩ := List.forall_mem_cons.mp each
    intro t back h unmatched
    rw [List.flatten_cons] at h
    obtain later | ⟨mid, here, rfl⟩ := suffix_append_cases h
    · exact ih each t back later unmatched
    · exact head t mid here (unmatched.shorten (List.prefix_append _ _))

/-- Inside of an expression each list is closed. -/
theorem Expression.matched {ts : List Token} (h : Expression ts) : Matched ts := by
  induction h with
  | @atom u ha =>
    rintro t back hs ⟨ht, -⟩
    obtain ⟨rfl, -⟩ : t = u ∧ back = [] := by simpa [List.suffix_cons_iff] using hs
    rw [ht] at ha
    cases ha
  | @list opening closing items ho hc each ih =>
    intro t back hs unmatched
    obtain last | ⟨mid, here, rfl⟩ := suffix_append_cases hs
    · obtain ⟨rfl, -⟩ : t = closing ∧ back = [] := by simpa [List.suffix_cons_iff] using last
      rw [unmatched.1] at hc
      cases hc
    · obtain whole | inner := List.suffix_cons_iff.mp here
      · cases whole
        exact unmatched.2 items.flatten closing (List.prefix_refl _) (.list ho hc each)
      · exact matched_flatten ih t mid inner (unmatched.shorten (List.prefix_append _ _))

theorem Expressions.matched {ts : List Token} (h : Expressions ts) : Matched ts := by
  obtain ⟨items, each, rfl⟩ := h
  exact matched_flatten fun item hi => (each item hi).matched

/-- Behind the token that opened the innermost list there are only whole expressions. -/
theorem exists_innermost {ts : List Token} {s : State} {f : Frame} {fs : List Frame}
    (h : State.start.feed ts = .ok s) (hs : s.stack = f :: fs) :
    f.opening.kind = .openParen ∧ ∃ back, f.opening :: back <:+ ts ∧ Expressions back := by
  have sound : State.start.Sound := ⟨nofun, nofun⟩
  obtain ⟨built, written⟩ := sound.feed h
  obtain ⟨opens, faithful⟩ := built.frames f (by rw [hs]; exact List.mem_cons_self)
  refine ⟨opens, ?_⟩
  have split : ts.map Token.normal =
      (s.trees.flatMap Tree.tokens ++
        fs.reverse.flatMap fun f => f.opening :: f.items.reverse.flatMap Tree.tokens) ++
      f.opening :: f.items.reverse.flatMap Tree.tokens := by
    simpa [State.tokens, State.start, hs] using written.symm
  obtain ⟨front, tail, rfl, -, rest⟩ := List.map_eq_append_iff.mp split
  obtain ⟨t, back, rfl, ht, inside⟩ := List.map_eq_cons_iff.mp rest
  have same : t = f.opening := by
    rw [← ht, Token.normal_of_open]
    rw [← Token.kind_normal, ht, opens]
  rw [← same]
  refine ⟨back, List.suffix_append _ _, ?_⟩
  refine expressions_iff.mpr ⟨_, fun tree ht => faithful tree ?_, inside.symm⟩
  exact List.mem_reverse.mp ht

theorem lastUnmatched_of_feed {ts : List Token} {s : State} {f : Frame} {fs : List Frame}
    (h : State.start.feed ts = .ok s) (hs : s.stack = f :: fs) : LastUnmatched ts f.opening := by
  obtain ⟨opens, back, place, whole⟩ := exists_innermost h hs
  exact ⟨back, place, unmatched_of_expressions opens whole, whole.matched⟩

theorem matched_of_feed {ts : List Token} {s : State} (h : State.start.feed ts = .ok s)
    (hs : s.stack = []) : Matched ts := by
  obtain ⟨trees, stack⟩ := s
  obtain rfl : stack = [] := hs
  have read : outcome (State.start.feed ts) = .ok trees := by
    rw [h]
    rfl
  exact Expressions.matched (expressions_iff.mpr ⟨trees, outcome_ok_iff.mp read⟩)

theorem FirstMisplaced.not_orderly {ts : List Token} {t : Token} (h : FirstMisplaced ts t) :
    ¬Orderly ts := by
  obtain ⟨front, place, misplaced, -⟩ := h
  exact fun orderly => orderly front t place misplaced

theorem LastUnmatched.not_matched {ts : List Token} {t : Token} (h : LastUnmatched ts t) :
    ¬Matched ts := by
  obtain ⟨back, place, unmatched, -⟩ := h
  exact fun matched => matched t back place unmatched

/-- All that the parser can make of tokens. -/
theorem all_cases (ts : List Token) :
    (∃ t, FirstMisplaced (beforeEnd ts) t ∧ (all ts).1 = .error (.unexpectedToken t)) ∨
    (Orderly (beforeEnd ts) ∧
      ∃ t, LastUnmatched (beforeEnd ts) t ∧ (all ts).1 = .error (.missingClose t)) ∨
    (Orderly (beforeEnd ts) ∧ Matched (beforeEnd ts) ∧ ∃ trees, (all ts).1 = .ok trees) := by
  rw [all_eq_outcome_beforeEnd]
  cases fed : State.start.feed (beforeEnd ts) with
  | error t => exact .inl ⟨t, firstMisplaced_of_feed fed, rfl⟩
  | ok s =>
    have orderly := orderly_of_feed fed
    obtain ⟨trees, _ | ⟨f, fs⟩⟩ := s
    · exact .inr (.inr ⟨orderly, matched_of_feed fed rfl, trees, rfl⟩)
    · exact .inr (.inl ⟨orderly, f.opening, lastUnmatched_of_feed fed rfl, rfl⟩)

/-- Where the tokens end too early a list is open, and its parenthesis is blamed. -/
theorem all_ne_unexpectedEnd (ts : List Token) (eof : Token) :
    (all ts).1 ≠ .error (.unexpectedEnd eof) := by
  intro ended
  obtain ⟨t, -, blamed⟩ | ⟨-, t, -, blamed⟩ | ⟨-, -, trees, read⟩ := all_cases ts
  · cases blamed.symm.trans ended
  · cases blamed.symm.trans ended
  · cases read.symm.trans ended

/-- The first misplaced token is blamed if there is one, or else the innermost list that is not
closed, and without any of these the tokens are read. The end of the tokens is never blamed by
itself. Reading by descent is the same, so none of its own checks fails. -/
theorem all_blames (ts : List Token) :
    (¬Orderly (beforeEnd ts) →
      ∃ t, FirstMisplaced (beforeEnd ts) t ∧ (all ts).1 = .error (.unexpectedToken t)) ∧
    (Orderly (beforeEnd ts) → ¬Matched (beforeEnd ts) →
      ∃ t, LastUnmatched (beforeEnd ts) t ∧ (all ts).1 = .error (.missingClose t)) ∧
    (Orderly (beforeEnd ts) → Matched (beforeEnd ts) → ∃ trees, (all ts).1 = .ok trees) ∧
    (∀ t, (all ts).1 ≠ .error (.unexpectedEnd t)) ∧
    ∀ level, 2 * ts.length + 1 < level →
      Descent.every level ts = ((all ts).1.mapError .syntactic, (all ts).2) := by
  refine ⟨?_, ?_, ?_, all_ne_unexpectedEnd ts, fun level enough => Descent.every_eq enough⟩
  · intro disorder
    obtain first | ⟨orderly, -⟩ | ⟨orderly, -⟩ := all_cases ts
    · exact first
    · exact absurd orderly disorder
    · exact absurd orderly disorder
  · intro orderly unmatched
    obtain ⟨t, first, -⟩ | ⟨-, last⟩ | ⟨-, matched, -⟩ := all_cases ts
    · exact absurd orderly first.not_orderly
    · exact last
    · exact absurd matched unmatched
  · intro orderly matched
    obtain ⟨t, first, -⟩ | ⟨-, t, last, -⟩ | ⟨-, -, read⟩ := all_cases ts
    · exact absurd orderly first.not_orderly
    · exact absurd matched last.not_matched
    · exact read

end Parser

end Lisplet
