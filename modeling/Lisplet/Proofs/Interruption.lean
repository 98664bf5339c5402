import Lisplet.Proofs.Waiting

/-! An interrupt erases the pending lines and nothing else. Lines that made a session write nothing
made it evaluate nothing either, so after the interrupt it is the session it was before them. -/
namespace Lisplet

namespace Session

/-- From a moment at which a session waits, its run goes on as a run from there. -/
theorem Awaits.run_append {start s : Session} {inputs : List Input} {responses : List Response}
    (h : start.Awaits inputs responses s) (rest : List Input) :
    start.run (inputs ++ rest) = { s.run rest with
      responses := responses ++ (s.run rest).responses,
      read := inputs.length + (s.run rest).read } := by
  induction h generalizing rest with
  | start => simp
  | next _ step ih =>
    rw [List.append_assoc, List.singleton_append, ih, run_cons step]
    simp only [List.length_append, List.length_singleton, List.append_assoc, List.singleton_append]
    congr 1
    omega

theorem Awaits.trans {start s t : Session} {earlier later : List Input}
    {before after : List Response} (h : start.Awaits earlier before s)
    (h' : s.Awaits later after t) : start.Awaits (earlier ++ later) (before ++ after) t := by
  induction h' with
  | start => simpa using h
  | next _ step ih =>
    rw [← List.append_assoc, ← List.append_assoc]
    exact ih.next step

/-! ## What is evaluated is written -/

theorem written_singleton (output : Response → String) (response : Response) :
    written output [response] = output response := by
  simp [written]

/-- Of the first expression there is a value or an error to be told. -/
theorem evaluate_cons_writes {s s' : Session} {t : Tree} {ts : List Tree} {response : Response}
    (h : s.evaluate (t :: ts) = (s', response, none)) : response.out ≠ "" ∨ response.err ≠ "" := by
  unfold evaluate Interpreter.evalAll at h
  generalize s.interpreter.evalTree t = r at h
  obtain ⟨halt | v, events, i⟩ := r
  · cases halt with
    | fault f => cases h
    | error e =>
      cases h
      refine .inr fun none => ?_
      simp [errorLine] at none
  · refine .inl fun none => ?_
    have out : response.out =
        transcript s.settings.listing (t :: ts) (v :: (i.evalAll ts).values) := by
      dsimp only at h
      split at h <;> cases h <;> rfl
    rw [out, transcript] at none
    simp at none

theorem accept_silent {s s' : Session} {line : List UInt8} {response : Response}
    (h : s.accept line = (s', response, none)) (out : response.out = "") (err : response.err = "") :
    s'.settings = s.settings ∧ s'.interpreter = s.interpreter := by
  unfold accept at h
  cases read : parse (joinLines (s.pending ++ [line])) with
  | error e =>
    simp only [read] at h
    split at h <;> cases h <;> exact ⟨rfl, rfl⟩
  | ok trees =>
    simp only [read] at h
    cases trees with
    | nil =>
      cases h
      exact ⟨rfl, rfl⟩
    | cons t ts => exact absurd (evaluate_cons_writes h) (by simp [out, err])

/-- An input that makes a session write nothing leaves its interpreter as it is. -/
theorem step_silent {s s' : Session} {input : Input} {response : Response}
    (h : s.step input = (s', response, none)) (out : response.out = "") (err : response.err = "") :
    s'.settings = s.settings ∧ s'.interpreter = s.interpreter := by
  cases input with
  | interrupt =>
    cases h
    exact ⟨rfl, rfl⟩
  | endOfInput => cases h
  | failure => cases h
  | line line =>
    simp only [step] at h
    split at h
    · cases h
      exact ⟨rfl, rfl⟩
    · split at h
      · cases h
      · exact accept_silent h out err

theorem Awaits.silent {start s : Session} {inputs : List Input} {responses : List Response}
    (h : start.Awaits inputs responses s) (out : written Response.out responses = "")
    (err : written Response.err responses = "") :
    s.settings = start.settings ∧ s.interpreter = start.interpreter := by
  induction h with
  | start => exact ⟨rfl, rfl⟩
  | next _ step ih =>
    rw [written_append, written_singleton, String.append_eq_empty_iff] at out err
    obtain ⟨settings, interpreter⟩ := ih out.1 err.1
    obtain ⟨settings', interpreter'⟩ := step_silent step out.2 err.2
    exact ⟨settings'.trans settings, interpreter'.trans interpreter⟩

/-! ## Interrupts -/

/-- After silent inputs an interrupt takes a session back to where nothing was pending. -/
theorem Awaits.interrupt {s s' : Session} {inputs : List Input} {responses : List Response}
    (h : s.Awaits inputs responses s') (none : s.pending = [])
    (out : written Response.out responses = "") (err : written Response.err responses = "") :
    s.Awaits (inputs ++ [.interrupt]) (responses ++ [⟨"", "", [.fresh]⟩]) s := by
  refine h.next ?_
  obtain ⟨settings, interpreter⟩ := h.silent out err
  obtain ⟨_, _, _⟩ := s
  obtain ⟨_, _, _⟩ := s'
  cases settings
  cases interpreter
  cases none
  rfl

/-- An interrupt erases exactly the lines that are pending. If a session waits with nothing pending
and then reads lines because of which it writes nothing, and so evaluates nothing, an interrupt
behind them makes it go on as if they had not been there: it writes the same, ends in the same way
and leaves the same state. -/
theorem run_interrupt (start s s' : Session) (earlier rest : List Input) (lines : List (List UInt8))
    (before during : List Response) (awaits : start.Awaits earlier before s) (none : s.pending = [])
    (reads : s.Awaits (lines.map .line) during s') (out : written Response.out during = "")
    (err : written Response.err during = "") :
    let interrupted := start.run (earlier ++ lines.map .line ++ [.interrupt] ++ rest)
    let spared := start.run (earlier ++ rest)
    written Response.out interrupted.responses = written Response.out spared.responses ∧
    written Response.err interrupted.responses = written Response.err spared.responses ∧
    interrupted.ending = spared.ending ∧ interrupted.final = spared.final := by
  intro interrupted spared
  have back := awaits.trans (reads.interrupt none out err)
  rw [← List.append_assoc] at back
  have ran : interrupted = _ := back.run_append rest
  have ran' : spared = _ := awaits.run_append rest
  have unchanged {output : Response → String} (silent : written output during = "")
      (mute : output ⟨"", "", [.fresh]⟩ = "") :
      written output interrupted.responses = written output spared.responses := by
    rw [ran, ran']
    simp only [written_append, written_singleton, silent, mute, String.append_empty]
  exact ⟨unchanged out rfl, unchanged err rfl, by rw [ran, ran'], by rw [ran, ran']⟩

/-- An open string in an open list, a line with nothing on it, and the word that ends a session
where nothing is pending. -/
def abandonedLines : List (List UInt8) := ["(+ x \"", "", "exit"].map Text.Utf8.bytes

theorem Awaits.step {start s : Session} {inputs : List Input} {responses : List Response}
    (h : start.Awaits inputs responses s) (input : Input) (goes : (s.step input).2.2 = none) :
    start.Awaits (inputs ++ [input]) (responses ++ [(s.step input).2.1]) (s.step input).1 := by
  refine h.next ?_
  rw [← goes]

theorem run_interrupt_abandonedLines :
    let start : Session := ⟨⟨0, true, false⟩, .new 0, []⟩
    let define : Input := .line (Text.Utf8.bytes "(define x 1)")
    let rest : List Input := [.line (Text.Utf8.bytes "x)"), .line (Text.Utf8.bytes "x")]
    ∃ s s' before during, start.Awaits [define] before s ∧ s.pending = [] ∧
      s.Awaits (abandonedLines.map .line) during s' ∧ s'.pending = abandonedLines ∧
      written Response.out during = "" ∧ written Response.err during = "" ∧
      written Response.out
          (start.run ([define] ++ abandonedLines.map .line ++ [.interrupt] ++ rest)).responses =
        written Response.out (start.run ([define] ++ rest)).responses ∧
      (start.run ([define] ++ abandonedLines.map .line ++ [.interrupt] ++ rest)).final =
        (start.run ([define] ++ rest)).final := by
  intro start define rest
  let s := (start.step define).1
  have first := (Awaits.start : start.Awaits [] [] start).step define (by decide +kernel)
  have second := (Awaits.start : s.Awaits [] [] s).step (.line (Text.Utf8.bytes "(+ x \""))
    (by decide +kernel)
  have third := second.step (.line (Text.Utf8.bytes "")) (by decide +kernel)
  have fourth := third.step (.line (Text.Utf8.bytes "exit")) (by decide +kernel)
  obtain ⟨out, -, -, final⟩ := run_interrupt start _ _ [define] rest abandonedLines _ _ first
    (by decide +kernel) fourth (by decide +kernel) (by decide +kernel)
  exact ⟨_, _, _, _, first, by decide +kernel, fourth, by decide +kernel, by decide +kernel,
    by decide +kernel, out, final⟩

end Session

end Lisplet
