import Lisplet.Proofs.Yield

/-! Several calls on the same tokens, each from where the one before it stopped. A call stops behind
what it has read, in front of a token that cannot stand there, or at the end. From the last two no
later call gets away. -/
namespace Lisplet

namespace Parser

inductive Call where
  /-- One expression. -/
  | one
  /-- All expressions up to the end. -/
  | all
  deriving DecidableEq, Repr

/-- What a call returns, and the tokens it leaves. -/
def Call.answer : Call → List Token → Except SyntaxError (List Tree) × List Token
  | .one, ts => ((expression [] ts).1.map ([·]), (expression [] ts).2)
  | .all, ts => Parser.all ts

/-- The tokens that are left after some calls. -/
def left (ts : List Token) (calls : List Call) : List Token :=
  calls.foldl (fun rest call => (call.answer rest).2) ts

/-- How many tokens some calls have taken. -/
def cursor (ts : List Token) (calls : List Call) : Nat := ts.length - (left ts calls).length

/-- Tokens that an expression cannot start with, and that are not the end. -/
def Refused (t : Token) : Prop := t.kind = .closeParen ∨ ∃ code, t.kind = .invalid code

/-- A call takes tokens in front of the end. It returns what these are read as, or stops at a token
that it refuses, or at the end. -/
inductive Reads {α : Type} (as : List Token → α → Prop) (ts : List Token) :
    Except SyntaxError α × List Token → Prop
  | ok {taken rest : List Token} {a : α} : ts = taken ++ rest → (∀ t ∈ taken, t.kind ≠ .eof) →
      as taken a → Reads as ts (.ok a, rest)
  | refused {taken rest : List Token} {t : Token} : ts = taken ++ t :: rest →
      (∀ u ∈ taken, u.kind ≠ .eof) → Refused t →
      Reads as ts (.error (.unexpectedToken t), t :: rest)
  | ended {taken rest : List Token} {e : SyntaxError} : ts = taken ++ rest →
      (∀ t ∈ taken, t.kind ≠ .eof) → atEnd rest = true → (∀ t, e ≠ .unexpectedToken t) →
      Reads as ts (.error e, rest)

section
variable {α β : Type} {as as' : List Token → α → Prop} {bs : List Token → β → Prop}
variable {ts : List Token} {read : Except SyntaxError α × List Token}

/-- Tokens in front belong to what is taken. -/
theorem Reads.append (h : Reads as ts read) {front : List Token}
    (noEnd : ∀ t ∈ front, t.kind ≠ .eof) (whole : ∀ taken a, as taken a → as' (front ++ taken) a) :
    Reads as' (front ++ ts) read := by
  have clear {taken : List Token} (h : ∀ t ∈ taken, t.kind ≠ .eof) :
      ∀ t ∈ front ++ taken, t.kind ≠ .eof := List.forall_mem_append.mpr ⟨noEnd, h⟩
  cases h with
  | ok split taken here =>
    exact .ok (by rw [split, List.append_assoc]) (clear taken) (whole _ _ here)
  | refused split taken here =>
    exact .refused (by rw [split, List.append_assoc]) (clear taken) here
  | ended split taken here other =>
    exact .ended (by rw [split, List.append_assoc]) (clear taken) here other

theorem Reads.map (h : Reads as ts read) (f : α → β)
    (each : ∀ taken a, as taken a → bs taken (f a)) : Reads bs ts (read.1.map f, read.2) := by
  cases h with
  | ok split taken here => exact .ok split taken (each _ _ here)
  | refused split taken here => exact .refused split taken here
  | ended split taken here other => exact .ended split taken here other

end

theorem endError_ne (eof : Token) (stack : List Frame) (t : Token) :
    endError eof stack ≠ .unexpectedToken t := by
  cases stack <;> simp [endError]

/-- One expression is read from the tokens that complete it. -/
theorem expression_reads (stack : List Frame) (ts : List Token) :
    Reads (fun taken tree => State.feed ⟨[], stack⟩ taken = .ok ⟨[tree], []⟩) ts
      (expression stack ts) := by
  induction ts generalizing stack with
  | nil => exact .ended (List.append_nil []).symm (by simp) rfl (endError_ne _ _)
  | cons t ts ih =>
    by_cases eof : t.kind = .eof
    · simp only [expression, eof]
      exact .ended (List.nil_append _).symm (by simp) (by simp [atEnd, eof]) (endError_ne _ _)
    · have first : ∀ u ∈ [t], u.kind ≠ .eof := by simpa using eof
      -- The token completes the expression, or the rest is read inside other lists.
      have done {tree : Tree} (step : State.step ⟨[], stack⟩ t = .ok ⟨[tree], []⟩) :
          Reads (fun taken tree => State.feed ⟨[], stack⟩ taken = .ok ⟨[tree], []⟩) (t :: ts)
            (.ok tree, ts) := by
        refine .ok (List.singleton_append).symm first ?_
        rw [State.feed_cons, step]
        rfl
      have deeper {stack' : List Frame} (step : State.step ⟨[], stack⟩ t = .ok ⟨[], stack'⟩) :
          Reads (fun taken tree => State.feed ⟨[], stack⟩ taken = .ok ⟨[tree], []⟩) (t :: ts)
            (expression stack' ts) := by
        refine (ih stack').append first fun taken tree fed => ?_
        rw [List.singleton_append, State.feed_cons, step]
        exact fed
      unfold expression
      cases kind : t.kind with
      | openParen => exact deeper (State.step_open _ kind)
      | closeParen =>
        rcases stack with _ | ⟨f, _ | ⟨g, fs⟩⟩
        · exact .refused (List.nil_append _).symm (by simp) (.inl kind)
        · exact done (State.step_close [] f [] kind)
        · exact deeper (State.step_close [] f (g :: fs) kind)
      | eof => exact absurd kind eof
      | invalid code => exact .refused (List.nil_append _).symm (by simp) (.inr ⟨code, kind⟩)
      | number | string | symbol | plus | minus | star | slash =>
        have step := State.step_atom ⟨[], stack⟩ (t := t) (by rw [kind]; rfl)
        cases stack with
        | nil => exact done step
        | cons f fs => exact deeper step

/-- All expressions are read from the tokens up to the end. -/
theorem all_reads (ts : List Token) :
    Reads (fun taken trees => State.start.feed taken = .ok ⟨trees, []⟩) ts (all ts) := by
  induction size : ts.length using Nat.strong_induction_on generalizing ts with
  | _ size ih =>
    by_cases ended : atEnd ts = true
    · rw [all_of_atEnd ended]
      exact .ok (List.nil_append _).symm (by simp) rfl
    · rw [all_of_not_atEnd (Bool.eq_false_iff.mpr ended)]
      have head := expression_reads [] ts
      cases read : expression [] ts with
      | mk result rest =>
        rw [read] at head
        cases head with
        | refused split taken here => exact .refused split taken here
        | ended split taken here other => exact .ended split taken here other
        | @ok front _ tree split taken here =>
          have shorter := length_expression_lt read
          have tail := ih rest.length (by omega) rest rfl
          have behind (later : List Token) (trees : List Tree)
              (fed : State.start.feed later = .ok ⟨trees, []⟩) :
              State.feed ⟨[tree], []⟩ later = .ok ⟨tree :: trees, []⟩ := by
            have moved := State.feed_behind [tree] .start later
            rw [fed] at moved
            exact moved
          have moved : Reads (fun later trees => State.feed ⟨[tree], []⟩ later = .ok ⟨trees, []⟩)
              rest ((all rest).1.map (tree :: ·), (all rest).2) := tail.map (tree :: ·) behind
          rw [split]
          refine moved.append taken fun later trees fed => ?_
          rw [State.feed_append]
          change State.feed ⟨[], []⟩ front >>= _ = _
          rw [here]
          exact fed

/-- What a call does, whatever it asks for. -/
theorem Call.answer_reads (call : Call) (ts : List Token) :
    Reads (fun taken trees => State.start.feed taken = .ok ⟨trees, []⟩) ts (call.answer ts) := by
  cases call with
  | one => exact (expression_reads [] ts).map ([·]) fun taken tree fed => fed
  | all => exact all_reads ts

/-! ## Where no call moves -/

theorem Refused.answer {t : Token} (h : Refused t) (call : Call) (rest : List Token) :
    call.answer (t :: rest) = (.error (.unexpectedToken t), t :: rest) := by
  have stuck : expression [] (t :: rest) = (.error (.unexpectedToken t), t :: rest) := by
    obtain kind | ⟨code, kind⟩ := h <;> simp only [expression, kind]
  cases call with
  | one =>
    rw [Call.answer, stuck]
    rfl
  | all =>
    have more : atEnd (t :: rest) = false := by
      obtain kind | ⟨code, kind⟩ := h <;> simp [atEnd, kind]
    rw [Call.answer, all_of_not_atEnd more, stuck]

theorem one_answer_of_atEnd {ts : List Token} (h : atEnd ts = true) :
    ∃ eof, Call.one.answer ts = (.error (.unexpectedEnd eof), ts) := by
  cases ts with
  | nil => exact ⟨_, rfl⟩
  | cons t ts =>
    have kind : t.kind = .eof := by simpa [atEnd] using h
    refine ⟨t, ?_⟩
    simp only [Call.answer, expression, kind]
    rfl

theorem all_answer_of_atEnd {ts : List Token} (h : atEnd ts = true) :
    Call.all.answer ts = (.ok [], ts) :=
  all_of_atEnd h

theorem left_append (ts : List Token) (calls later : List Call) :
    left ts (calls ++ later) = left (left ts calls) later := List.foldl_append

theorem left_of_stays {ts : List Token} (h : ∀ call : Call, (call.answer ts).2 = ts)
    (calls : List Call) : left ts calls = ts := by
  induction calls with
  | nil => rfl
  | cons call calls ih =>
    change left (call.answer ts).2 calls = ts
    rw [h call, ih]

/-! ## The cursor -/

/-- A call takes tokens that are in front of the end. -/
theorem Call.exists_taken (call : Call) (ts : List Token) :
    ∃ taken, ts = taken ++ (call.answer ts).2 ∧ ∀ t ∈ taken, t.kind ≠ .eof := by
  have reads := call.answer_reads ts
  generalize call.answer ts = answer at reads
  cases reads with
  | ok split clear _ => exact ⟨_, split, clear⟩
  | refused split clear _ => exact ⟨_, split, clear⟩
  | ended split clear _ _ => exact ⟨_, split, clear⟩

theorem exists_taken (ts : List Token) (calls : List Call) :
    ∃ taken, ts = taken ++ left ts calls ∧ ∀ t ∈ taken, t.kind ≠ .eof := by
  induction calls generalizing ts with
  | nil => exact ⟨[], rfl, by simp⟩
  | cons call calls ih =>
    obtain ⟨first, split, clear⟩ := call.exists_taken ts
    obtain ⟨later, split', clear'⟩ := ih (call.answer ts).2
    refine ⟨first ++ later, ?_, List.forall_mem_append.mpr ⟨clear, clear'⟩⟩
    rw [List.append_assoc]
    change ts = first ++ (later ++ left (call.answer ts).2 calls)
    rw [← split', ← split]

/-- The cursor stands behind tokens that are in front of the end. -/
theorem cursor_cases (ts : List Token) (calls : List Call) :
    ∃ taken, ts = taken ++ left ts calls ∧ cursor ts calls = taken.length ∧
      taken <+: beforeEnd ts := by
  obtain ⟨taken, split, clear⟩ := exists_taken ts calls
  refine ⟨taken, split, ?_, ?_⟩
  · have count := congrArg List.length split
    rw [List.length_append] at count
    unfold cursor
    omega
  · rw [split, beforeEnd, List.takeWhile_append_of_pos (by simpa using clear)]
    exact List.prefix_append _ _

theorem cursor_mono (ts : List Token) (calls later : List Call) :
    cursor ts calls ≤ cursor ts (calls ++ later) := by
  obtain ⟨taken, split, -⟩ := exists_taken (left ts calls) later
  have count := congrArg List.length split
  rw [List.length_append, ← left_append] at count
  unfold cursor
  omega

/-! ## What an answer tells about the tokens that are left -/

/-- An expression is read from the tokens that it is written with, and these are some. -/
theorem one_answer_ok {ts : List Token} {trees : List Tree}
    (h : (Call.one.answer ts).1 = .ok trees) :
    ∃ tree taken, trees = [tree] ∧ taken ≠ [] ∧ ts = taken ++ (Call.one.answer ts).2 ∧
      tree.Faithful ∧ tree.tokens = taken.map Token.normal := by
  have reads := expression_reads [] ts
  simp only [Call.answer] at h ⊢
  generalize expression [] ts = answer at reads h ⊢
  cases reads with
  | refused | ended => cases h
  | @ok taken rest tree split _ fed =>
    have read : outcome (State.start.feed taken) = .ok [tree] := by
      change outcome (State.feed ⟨[], []⟩ taken) = _
      rw [fed]
      rfl
    obtain ⟨faithful, written⟩ := outcome_ok_iff.mp read
    refine ⟨tree, taken, (Except.ok.inj h).symm, ?_, split, faithful tree List.mem_cons_self, ?_⟩
    · rintro rfl
      cases fed
    · rwa [List.flatMap_singleton] at written

theorem Call.answer_unexpectedToken {call : Call} {ts : List Token} {t : Token}
    (h : (call.answer ts).1 = .error (.unexpectedToken t)) :
    Refused t ∧ ∃ rest, (call.answer ts).2 = t :: rest := by
  have reads := call.answer_reads ts
  generalize call.answer ts = answer at reads h ⊢
  cases reads with
  | ok => cases h
  | refused _ _ here =>
    cases h
    exact ⟨here, _, rfl⟩
  | ended _ _ _ other =>
    cases h
    exact absurd rfl (other t)

theorem Call.answer_missingClose {call : Call} {ts : List Token} {t : Token}
    (h : (call.answer ts).1 = .error (.missingClose t)) : atEnd (call.answer ts).2 = true := by
  have reads := call.answer_reads ts
  generalize call.answer ts = answer at reads h ⊢
  cases reads with
  | ok | refused => cases h
  | ended _ _ here _ => exact here

/-- Calls on the same tokens move forward and never past the end. An expression takes the tokens
that it is written with. Where a token was unexpected each later call stops at it again, and where a
list was not closed nothing more is there for the later ones. -/
theorem calls_share_cursor (ts : List Token) (calls : List Call) :
    (left ts calls = ts.drop (cursor ts calls) ∧
      (∀ later, cursor ts calls ≤ cursor ts (calls ++ later)) ∧
      cursor ts calls ≤ ts.length ∧ cursor ts calls ≤ (beforeEnd ts).length) ∧
    (∀ trees, (Call.one.answer (left ts calls)).1 = .ok trees →
      ∃ tree taken, trees = [tree] ∧ taken ≠ [] ∧
        left ts calls = taken ++ left ts (calls ++ [.one]) ∧
        tree.Faithful ∧ tree.tokens = taken.map Token.normal) ∧
    (∀ call t, (call.answer (left ts calls)).1 = .error (.unexpectedToken t) →
      (left ts (calls ++ [call])).head? = some t ∧
      ∀ later next, (Call.answer next (left ts (calls ++ call :: later))).1 =
        .error (.unexpectedToken t)) ∧
    ∀ call t, (call.answer (left ts calls)).1 = .error (.missingClose t) → ∀ later,
      (∃ eof, (Call.one.answer (left ts (calls ++ call :: later))).1 =
        .error (.unexpectedEnd eof)) ∧
      (Call.all.answer (left ts (calls ++ call :: later))).1 = .ok [] := by
  have next (call : Call) (later : List Call) :
      left ts (calls ++ call :: later) = left (call.answer (left ts calls)).2 later := by
    rw [left_append]
    rfl
  refine ⟨⟨?_, cursor_mono ts calls, ?_⟩, fun trees h => ?_, fun call t h => ?_, fun call t h => ?_⟩
  · obtain ⟨taken, split, count, -⟩ := cursor_cases ts calls
    have dropped := congrArg (List.drop taken.length) split
    rw [List.drop_left] at dropped
    rw [count, dropped]
  · obtain ⟨taken, split, count, inFront⟩ := cursor_cases ts calls
    have shorter : (beforeEnd ts).length ≤ ts.length := (List.takeWhile_prefix _).length_le
    rw [count]
    exact ⟨Nat.le_trans inFront.length_le shorter, inFront.length_le⟩
  · obtain ⟨tree, taken, one, nonempty, split, faithful, written⟩ := one_answer_ok h
    refine ⟨tree, taken, one, nonempty, ?_, faithful, written⟩
    rw [next]
    exact split
  · obtain ⟨refused, rest, stops⟩ := Call.answer_unexpectedToken h
    have stays (later : List Call) : left ts (calls ++ call :: later) = t :: rest := by
      rw [next, stops]
      exact left_of_stays (fun call => by rw [refused.answer]) later
    refine ⟨by rw [stays]; rfl, fun later next => ?_⟩
    rw [stays, refused.answer]
  · intro later
    have ended := Call.answer_missingClose h
    obtain ⟨eof, one⟩ := one_answer_of_atEnd ended
    have all := all_answer_of_atEnd ended
    have stays : left ts (calls ++ call :: later) = (call.answer (left ts calls)).2 := by
      rw [next]
      refine left_of_stays (fun call => ?_) later
      cases call with
      | one => rw [one]
      | all => rw [all]
    rw [stays, one, all]
    exact ⟨⟨eof, rfl⟩, rfl⟩

end Parser

end Lisplet
