import Lisplet.Proofs.Fallible
import Lisplet.Tree.Parser

/-! Building trees token by token. The parser does the same as a machine that takes one token after
the other, so reading some tokens behind others goes on from where those left it. -/
namespace Lisplet

namespace Parser

/-- The expressions read so far, and the lists still open, the innermost one first. -/
structure State where
  trees : List Tree
  stack : List Frame

namespace State

def start : State := ⟨[], []⟩

/-- An expression is complete. -/
def add (s : State) (t : Tree) : State :=
  match s.stack with
  | [] => ⟨s.trees ++ [t], []⟩
  | f :: fs => ⟨s.trees, f.push t :: fs⟩

/-- What one token does, or the token itself if it cannot stand where it does. -/
def step (s : State) (t : Token) : Except Token State :=
  match t.kind with
  | .openParen => .ok ⟨s.trees, ⟨t, []⟩ :: s.stack⟩
  | .closeParen =>
    match s.stack with
    | [] => .error t
    | f :: fs => .ok (add ⟨s.trees, fs⟩ f.close)
  | .eof | .invalid _ => .error t
  | .number | .string | .symbol | .plus | .minus | .star | .slash =>
    .ok (s.add (.atom (some t) t.lexeme))

def feed (s : State) (ts : List Token) : Except Token State := ts.foldlM step s

/-- The expressions, if the tokens may end here. -/
def finish (s : State) : Except SyntaxError (List Tree) :=
  match s.stack with
  | [] => .ok s.trees
  | f :: _ => .error (.missingClose f.opening)

/-- The same with expressions in front. -/
def behind (trees : List Tree) (s : State) : State := ⟨trees ++ s.trees, s.stack⟩

theorem add_behind (trees : List Tree) (s : State) (t : Tree) :
    (s.behind trees).add t = (s.add t).behind trees := by
  obtain ⟨ts, _ | ⟨f, fs⟩⟩ := s
  · simp [add, behind]
  · rfl

theorem length_stack_add (s : State) (t : Tree) : (s.add t).stack.length = s.stack.length := by
  obtain ⟨trees, _ | ⟨f, fs⟩⟩ := s <;> rfl

theorem step_behind (trees : List Tree) (s : State) (t : Token) :
    (s.behind trees).step t = (s.step t).map (behind trees) := by
  have close (f : Frame) (fs : List Frame) :
      add ⟨trees ++ s.trees, fs⟩ f.close = (add ⟨s.trees, fs⟩ f.close).behind trees :=
    add_behind trees ⟨s.trees, fs⟩ f.close
  obtain ⟨ts, stack⟩ := s
  unfold step
  cases t.kind with
  | openParen | eof | invalid => rfl
  | closeParen =>
    cases stack with
    | nil => rfl
    | cons f fs => exact congrArg Except.ok (close f fs)
  | number | string | symbol | plus | minus | star | slash =>
    exact congrArg Except.ok (add_behind trees ⟨ts, stack⟩ _)

theorem feed_cons (s : State) (t : Token) (ts : List Token) :
    s.feed (t :: ts) = s.step t >>= fun s => s.feed ts := rfl

theorem feed_append (s : State) (ts us : List Token) :
    s.feed (ts ++ us) = s.feed ts >>= fun s => s.feed us := by
  simp only [feed, List.foldlM_append]

theorem feed_behind (trees : List Tree) (s : State) (ts : List Token) :
    (s.behind trees).feed ts = (s.feed ts).map (behind trees) := by
  induction ts generalizing s with
  | nil => rfl
  | cons t ts ih =>
    rw [feed_cons, feed_cons, step_behind]
    cases s.step t with
    | error u => rfl
    | ok s => exact ih s

theorem finish_behind (trees : List Tree) (s : State) :
    (s.behind trees).finish = s.finish.map (trees ++ ·) := by
  obtain ⟨ts, _ | ⟨f, fs⟩⟩ := s <;> rfl

end State

/-- What a run of the machine makes of a source. -/
def outcome : Except Token State → Except SyntaxError (List Tree)
  | .error t => .error (.unexpectedToken t)
  | .ok s => s.finish

theorem all_of_atEnd {ts : List Token} (h : atEnd ts = true) : all ts = (.ok [], ts) := by
  rw [all, if_pos h]

theorem all_of_not_atEnd {ts : List Token} (h : atEnd ts = false) :
    all ts = match expression [] ts with
      | (.error e, rest) => (.error e, rest)
      | (.ok tree, rest) => ((all rest).1.map (tree :: ·), (all rest).2) := by
  rw [all, h]
  simp only [Bool.false_eq_true, if_false]
  split
  · rename_i e rest he
    rw [he]
  · rename_i tree rest he
    rw [he]
    dsimp only
    rcases all rest with ⟨e | trees, tail⟩ <;> rfl

/-- All expressions, given the first one. -/
def thenAll : Except SyntaxError Tree × List Token → Except SyntaxError (List Tree)
  | (.error e, _) => .error e
  | (.ok tree, rest) => (all rest).1.map (tree :: ·)

/-- All expressions of the tokens, read from inside some lists. -/
def resume : List Frame → List Token → Except SyntaxError (List Tree)
  | [], ts => (all ts).1
  | f :: fs, ts => thenAll (expression (f :: fs) ts)

theorem resume_of_not_atEnd (stack : List Frame) {ts : List Token} (h : atEnd ts = false) :
    resume stack ts = thenAll (expression stack ts) := by
  cases stack with
  | cons f fs => rfl
  | nil =>
    rw [resume, all_of_not_atEnd h]
    rcases expression [] ts with ⟨e | tree, rest⟩ <;> rfl

theorem resume_of_atEnd (stack : List Frame) {ts : List Token} (h : atEnd ts = true) :
    resume stack ts = State.finish ⟨[], stack⟩ := by
  cases stack with
  | nil =>
    rw [resume, all_of_atEnd h]
    rfl
  | cons f fs =>
    cases ts with
    | nil => rfl
    | cons t ts =>
      have ht : t.kind = .eof := by simpa [atEnd] using h
      simp only [resume, expression, ht]
      rfl

/-- Once an expression is complete the parser goes on with the lists around it. -/
theorem resume_add (stack : List Frame) (t : Tree) (ts : List Token) :
    (resume (State.add ⟨[], stack⟩ t).stack ts).map ((State.add ⟨[], stack⟩ t).trees ++ ·) =
      match stack with
      | [] => thenAll (.ok t, ts)
      | f :: fs => thenAll (expression (f.push t :: fs) ts) := by
  cases stack with
  | nil => rfl
  | cons f fs => exact Fallible.map_append_nil _

/-- What the parser makes of the tokens behind a step of the machine. -/
def goOn (ts : List Token) : Except Token State → Except SyntaxError (List Tree)
  | .error t => .error (.unexpectedToken t)
  | .ok s => (resume s.stack ts).map (s.trees ++ ·)

/-- One token of the parser's input is one step of the machine. -/
theorem resume_cons (stack : List Frame) {t : Token} (ht : t.kind ≠ .eof) (ts : List Token) :
    resume stack (t :: ts) = goOn ts (State.step ⟨[], stack⟩ t) := by
  have more : atEnd (t :: ts) = false := by simpa [atEnd] using ht
  rw [resume_of_not_atEnd stack more]
  unfold expression State.step
  generalize t.kind = kind at ht ⊢
  cases kind with
  | openParen => exact (Fallible.map_append_nil _).symm
  | closeParen =>
    rcases stack with _ | ⟨f, _ | ⟨g, fs⟩⟩
    · rfl
    · exact (resume_add [] f.close ts).symm
    · exact (resume_add (g :: fs) f.close ts).symm
  | eof => exact absurd rfl ht
  | invalid code => rfl
  | number | string | symbol | plus | minus | star | slash =>
    refine Eq.trans ?_ (resume_add stack _ ts).symm
    cases stack <;> rfl

/-- The parser is the machine. -/
theorem resume_append (stack : List Frame) {body tail : List Token}
    (noEnd : ∀ t ∈ body, t.kind ≠ .eof) (ended : atEnd tail = true) :
    resume stack (body ++ tail) = outcome (State.feed ⟨[], stack⟩ body) := by
  induction body generalizing stack with
  | nil => exact resume_of_atEnd stack ended
  | cons t body ih =>
    obtain ⟨ht, noEnd⟩ := List.forall_mem_cons.mp noEnd
    rw [List.cons_append, resume_cons stack ht, State.feed_cons]
    cases State.step ⟨[], stack⟩ t with
    | error u => rfl
    | ok s =>
      -- What the step has completed is out of the way, and the rest is read from the lists alone.
      have split : s.feed body = (State.feed ⟨[], s.stack⟩ body).map (State.behind s.trees) := by
        rw [← State.feed_behind, State.behind, List.append_nil]
      change (resume s.stack (body ++ tail)).map (s.trees ++ ·) = outcome (s.feed body)
      rw [ih s.stack noEnd, split]
      cases State.feed ⟨[], s.stack⟩ body with
      | error u => rfl
      | ok s' => exact (s'.finish_behind s.trees).symm

theorem all_eq_outcome {body tail : List Token} (noEnd : ∀ t ∈ body, t.kind ≠ .eof)
    (ended : atEnd tail = true) : (all (body ++ tail)).1 = outcome (State.start.feed body) :=
  resume_append [] noEnd ended

theorem feed_of_outcome_ok {r : Except Token State} {trees : List Tree}
    (h : outcome r = .ok trees) : r = .ok (State.start.behind trees) := by
  obtain t | ⟨ts, _ | ⟨f, fs⟩⟩ := r
  · cases h
  · cases h
    simp [State.behind, State.start]
  · cases h

/-- Behind complete expressions the machine starts over. -/
theorem outcome_append {body later : List Token} {trees : List Tree}
    (h : outcome (State.start.feed body) = .ok trees) :
    outcome (State.start.feed (body ++ later)) =
      (outcome (State.start.feed later)).map (trees ++ ·) := by
  rw [State.feed_append, feed_of_outcome_ok h]
  change outcome ((State.start.behind trees).feed later) = _
  rw [State.feed_behind]
  cases State.start.feed later with
  | error t => rfl
  | ok s => exact s.finish_behind trees

/-- A token that cannot stand where it does is in the way of all that follows. -/
theorem outcome_append_of_unexpected {body : List Token} {t : Token}
    (h : outcome (State.start.feed body) = .error (.unexpectedToken t)) (later : List Token) :
    outcome (State.start.feed (body ++ later)) = .error (.unexpectedToken t) := by
  have stuck : State.start.feed body = .error t := by
    generalize State.start.feed body = r at h
    obtain u | ⟨ts, _ | ⟨f, fs⟩⟩ := r
    · cases h
      rfl
    · cases h
    · cases h
  rw [State.feed_append, stuck]
  rfl

end Parser

end Lisplet
