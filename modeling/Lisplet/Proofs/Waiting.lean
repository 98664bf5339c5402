import Lisplet.Proofs.Interactive

/-! A session between two inputs. Lines are pending if and only if the prompt asks for more, and
until they are complete nothing has been written or evaluated because of them. -/
namespace Lisplet

namespace Session

/-- After some inputs, each with its response, the session has not ended and waits for the next
one. -/
inductive Awaits (start : Session) : List Input → List Response → Session → Prop
  | start : Awaits start [] [] start
  | next {inputs : List Input} {responses : List Response} {s s' : Session} {input : Input}
      {response : Response} : Awaits start inputs responses s →
      s.step input = (s', response, none) →
      Awaits start (inputs ++ [input]) (responses ++ [response]) s'

/-- The prompt that was set last, or the one that a session starts with. -/
def promptAfter (responses : List Response) : Prompt :=
  (responses.flatMap Response.prompts).getLast?.getD .fresh

theorem promptAfter_concat (responses : List Response) (response : Response) :
    promptAfter (responses ++ [response]) =
      response.prompts.getLast?.getD (promptAfter responses) := by
  unfold promptAfter
  cases h : response.prompts.getLast? <;> simp [h]

/-- All that was written to one of the outputs. -/
def written (output : Response → String) (responses : List Response) : String :=
  String.join (responses.map output)

theorem written_append (output : Response → String) (before after : List Response) :
    written output (before ++ after) = written output before ++ written output after := by
  rw [written, List.map_append, String.join_append]
  rfl

/-! ## What an input does -/

/-- The session keeps a line that does not complete the pending ones. -/
structure Keeps (s : Session) (line : List UInt8) (s' : Session) (response : Response) : Prop where
  incomplete : ∃ e, parse (joinLines (s.pending ++ [line])) = .error e ∧ e.isIncomplete = true
  session : s' = { s with pending := s.pending ++ [line] }
  response : response = ⟨"", "", [.continuation]⟩

/-- The session starts afresh: nothing is pending, and the prompt says so. -/
structure Resets (s' : Session) (response : Response) : Prop where
  pending : s'.pending = []
  prompts : response.prompts = [.fresh]

theorem accept_cases {s s' : Session} {line : List UInt8} {response : Response}
    (h : s.accept line = (s', response, none)) :
    s.Keeps line s' response ∨ Resets s' response := by
  unfold accept at h
  cases hp : parse (joinLines (s.pending ++ [line])) with
  | error e =>
    simp only [hp] at h
    split at h
    · rename_i more
      cases h
      exact .inl ⟨⟨e, hp, more⟩, rfl, rfl⟩
    · cases h
      exact .inr ⟨rfl, rfl⟩
  | ok trees =>
    simp only [hp, evaluate] at h
    split at h <;> cases h
    · exact .inr ⟨rfl, rfl⟩
    · exact .inr ⟨rfl, rfl⟩

/-- What an input can do to a session that goes on. -/
theorem step_cases {s s' : Session} {input : Input} {response : Response}
    (h : s.step input = (s', response, none)) :
    (s.pending = [] ∧ s' = s ∧ response = .silent) ∨
    (∃ line, input = .line line ∧ s.Keeps line s' response) ∨ Resets s' response := by
  cases input with
  | interrupt =>
    cases h
    exact .inr (.inr ⟨rfl, rfl⟩)
  | endOfInput => cases h
  | failure => cases h
  | line line =>
    simp only [step] at h
    split at h
    · rename_i skipped
      cases h
      exact .inl ⟨List.isEmpty_iff.mp (Bool.and_eq_true_iff.mp skipped).1, rfl, rfl⟩
    · split at h
      · cases h
      · exact .inr ((accept_cases h).imp_left fun kept => ⟨line, rfl, kept⟩)

/-! ## Between two inputs -/

/-- The pending lines only lack others behind them, the prompt tells that there are some, and they
are all that has happened since the session waited with nothing pending. -/
structure Steady (start : Session) (inputs : List Input) (responses : List Response)
    (s : Session) : Prop where
  held : s.pending = [] ∨ ∃ e, parse (joinLines s.pending) = .error e ∧ e.isIncomplete = true
  prompt : promptAfter responses = if s.pending = [] then .fresh else .continuation
  since : ∃ earlier before after s₁, start.Awaits earlier before s₁ ∧ s₁.pending = [] ∧
    inputs = earlier ++ s.pending.map .line ∧ responses = before ++ after ∧
    written Response.out after = "" ∧ written Response.err after = "" ∧
    s.interpreter = s₁.interpreter

/-- Nothing is pending, so nothing has happened since. -/
theorem Steady.of_pending {start s : Session} {inputs : List Input} {responses : List Response}
    (awaits : start.Awaits inputs responses s) (none : s.pending = [])
    (prompt : promptAfter responses = .fresh) : start.Steady inputs responses s := by
  refine ⟨.inl none, by rw [prompt, none, if_pos rfl], inputs, responses, [], s, awaits, none, ?_⟩
  simp [none, written]

theorem Awaits.steady {start s : Session} {inputs : List Input} {responses : List Response}
    (fresh : start.pending = []) (h : start.Awaits inputs responses s) :
    start.Steady inputs responses s := by
  induction h with
  | start => exact .of_pending .start fresh rfl
  | @next inputs responses s s' input response awaits step ih =>
    have now := promptAfter_concat responses response
    obtain ⟨none, rfl, rfl⟩ | ⟨line, rfl, kept⟩ | reset := step_cases step
    · rw [ih.prompt, none, if_pos rfl] at now
      exact .of_pending (awaits.next step) none now
    · obtain ⟨incomplete, rfl, rfl⟩ := kept
      obtain ⟨earlier, before, after, s₁, first, none, read, answered, out, err, same⟩ := ih.since
      refine ⟨.inr incomplete, by simp [now], earlier, before, after ++ [⟨"", "", [.continuation]⟩],
        s₁, first, none, ?_, ?_, ?_, ?_, same⟩
      · simp [read]
      · simp [answered]
      · rw [written_append, out]
        rfl
      · rw [written_append, err]
        rfl
    · rw [reset.prompts] at now
      exact .of_pending (awaits.next step) reset.pending now

/-! ## In the course of a run -/

theorem Awaits.cons {s s' t : Session} {input : Input} {response : Response}
    (step : s.step input = (s', response, none)) {inputs : List Input} {responses : List Response}
    (h : s'.Awaits inputs responses t) : s.Awaits (input :: inputs) (response :: responses) t := by
  induction h with
  | start => exact .next .start step
  | next _ last ih => exact .next ih last

/-- A run takes one input for each response, and waits before it. -/
theorem exists_awaits {s : Session} {inputs : List Input} {k : Nat}
    (hk : k < (s.run inputs).responses.length) :
    ∃ t, s.Awaits (inputs.take k) ((s.run inputs).responses.take k) t := by
  induction inputs generalizing s k with
  | nil =>
    obtain rfl : k = 0 := Nat.lt_one_iff.mp hk
    exact ⟨s, .start⟩
  | cons input inputs ih =>
    cases k with
    | zero => exact ⟨s, .start⟩
    | succ k =>
      unfold run at hk ⊢
      rcases hs : s.step input with ⟨s', response, _ | ending⟩
      · simp only [hs, List.length_cons, Nat.add_lt_add_iff_right] at hk
        obtain ⟨t, rest⟩ := ih hk
        exact ⟨t, .cons hs rest⟩
      · simp [hs] at hk

theorem Awaits.length_eq {start s : Session} {inputs : List Input} {responses : List Response}
    (h : start.Awaits inputs responses s) : responses.length = inputs.length := by
  induction h with
  | start => rfl
  | next _ _ ih => simp only [List.length_append, ih, List.length_singleton]

/-- At each of its reads a session is steady: the pending lines, if there are any, make a text that
more could complete, and the prompt asks for more if and only if there are some. They are all that
was read since some earlier read with nothing pending, and nothing was written or evaluated since
then. -/
theorem run_steady (settings : Settings) (i : Interpreter) (inputs : List Input) (k : Nat)
    (hk : k < (run ⟨settings, i, []⟩ inputs).responses.length) :
    let start : Session := ⟨settings, i, []⟩
    let responses := (start.run inputs).responses
    ∃ s, start.Awaits (inputs.take k) (responses.take k) s ∧
      (s.pending = [] ∨ ∃ e, parse (joinLines s.pending) = .error e ∧ e.isIncomplete = true) ∧
      ((promptAfter (responses.take k)).text = ". " ↔ s.pending ≠ []) ∧
      ((promptAfter (responses.take k)).text = "> " ↔ s.pending = []) ∧
      ∃ j s₁, start.Awaits (inputs.take j) (responses.take j) s₁ ∧ s₁.pending = [] ∧
        inputs.take k = inputs.take j ++ s.pending.map .line ∧
        written Response.out (responses.take k) = written Response.out (responses.take j) ∧
        written Response.err (responses.take k) = written Response.err (responses.take j) ∧
        s.interpreter = s₁.interpreter := by
  intro start responses
  obtain ⟨s, awaits⟩ := exists_awaits hk
  have steady : start.Steady _ _ s := awaits.steady rfl
  obtain ⟨earlier, before, after, s₁, first, none, read, answered, out, err, same⟩ := steady.since
  change responses.take k = _ at answered
  have front : inputs.take earlier.length = earlier := by
    have part : earlier <+: inputs.take k := ⟨_, read.symm⟩
    exact (List.prefix_iff_eq_take.mp (part.trans (List.take_prefix k _))).symm
  have answers : responses.take earlier.length = before := by
    have part : before <+: responses.take k := ⟨_, answered.symm⟩
    rw [← first.length_eq]
    exact (List.prefix_iff_eq_take.mp (part.trans (List.take_prefix k _))).symm
  refine ⟨s, awaits, steady.held, ?_, ?_, earlier.length, s₁, ?_, none, ?_, ?_, ?_, same⟩
  · rw [steady.prompt]
    split <;> simp_all [Prompt.text]
  · rw [steady.prompt]
    split <;> simp_all [Prompt.text]
  · rw [front, answers]
    exact first
  · rw [front]
    exact read
  · rw [answers, answered, written_append, out, String.append_empty]
  · rw [answers, answered, written_append, err, String.append_empty]

/-- A line that is complete, then two that are not, though the last one is a word that ends a
session where nothing is pending. -/
def sampleInputs : List Input :=
  ["(define x 1) x", "(+ x", "exit"].map fun line => .line (Text.Utf8.bytes line)

theorem run_steady_sampleInputs :
    let start : Session := ⟨⟨0, true, false⟩, .new 0, []⟩
    let responses := (start.run sampleInputs).responses
    ∃ s, start.Awaits sampleInputs (responses.take 3) s ∧
      (promptAfter (responses.take 3)).text = ". " ∧
      (∃ e, parse (joinLines s.pending) = .error e ∧ e.isIncomplete = true) ∧
      ∃ j s₁, start.Awaits (sampleInputs.take j) (responses.take j) s₁ ∧ s₁.pending = [] ∧
        sampleInputs = sampleInputs.take j ++ s.pending.map .line ∧
        written Response.out (responses.take j) = "1\n1\n" ∧ s.interpreter = s₁.interpreter := by
  intro start responses
  have reads : 3 < responses.length := by decide +kernel
  have prompt : (promptAfter (responses.take 3)).text = ". " := by decide +kernel
  have out : written Response.out (responses.take 3) = "1\n1\n" := by decide +kernel
  obtain ⟨s, awaits, held, more, -, j, s₁, first, none, read, written, -, same⟩ :=
    run_steady ⟨0, true, false⟩ (.new 0) sampleInputs 3 reads
  refine ⟨s, awaits, prompt, held.resolve_left (more.mp prompt), j, s₁, first, none, read, ?_, same⟩
  exact written.symm.trans out

end Session

end Lisplet
