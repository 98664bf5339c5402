import Lisplet.Proofs.Grammar
import Lisplet.Token.Stream

/-! The lexer (§4.1) as a machine that goes from state to state until a token is queued. Each state
takes characters or is the last but one, so the machine always comes to a token or to a stop. It
delivers what a stream of tokens delivers. -/
namespace Lisplet

namespace Lexer

/-- What is done next. -/
inductive Phase where
  | begin
  | emit (kind : Token.Kind)
  | number
  | string
  | symbol
  | fail (e : LexicalError)
  | finish

structure Scanner where
  /-- Nothing is done after an error, nor after the token for the end. -/
  phase : Option Phase
  rest : List Char
  /-- The place of the next character. -/
  position : Position
  /-- The place where the current token starts. -/
  start : Position
  /-- The characters of the current token. -/
  taken : List Char
  queue : List Token
  /-- The token delivered last. -/
  token : Token
  error : Option LexicalError

namespace Scanner

def ofSource (source : List UInt8) : Scanner :=
  ⟨some .begin, sourceChars source, .start, .start, [], [], .unread, none⟩

/-- Takes the first characters and leaves the rest. -/
def take (s : Scanner) (first rest : List Char) : Scanner :=
  { s with rest := rest, position := s.position.advance first, taken := s.taken ++ first }

def emit (s : Scanner) (kind : Token.Kind) (literal : Option Token.Literal) : Scanner :=
  { s with queue := s.queue ++ [⟨kind, String.ofList s.taken, literal, s.start⟩], taken := [] }

def goTo (s : Scanner) (phase : Phase) : Scanner := { s with phase := some phase }

/-- What to do with a token that starts with `c`, in front of `cs`. -/
def dispatch (start : Position) (c : Char) (cs : List Char) : Phase :=
  match punctuation? c with
  | some kind => .emit kind
  | none =>
    if c = '-' then if startsWithDigit cs then .number else .emit .minus
    else if c = '"' then .string
    else if Decimal.isDigit c then .number
    else if isSymbolStart c then .symbol
    else .fail ⟨.unexpectedCharacter c, start⟩

/-- Skips a blank, or takes the first character of a token, which tells how to go on (§4.1). -/
def begin (s : Scanner) : Scanner :=
  match s.rest with
  | [] => { s with start := s.position }.goTo .finish
  | c :: cs =>
    if isBlank c then { (s.take [c] cs).goTo .begin with start := s.position, taken := [] }
    else { (s.take [c] cs).goTo (dispatch s.position c cs) with start := s.position }

def number (s : Scanner) : Scanner :=
  let s := s.take (s.rest.takeWhile isNumeral) (s.rest.dropWhile isNumeral)
  match Decimal.numeral? s.taken with
  | some x => (s.emit .number (some (.number x))).goTo .begin
  | none => s.goTo (.fail ⟨.malformedNumber (String.ofList s.taken), s.start⟩)

/-- The quotes are no part of the token. -/
def string (s : Scanner) : Scanner :=
  let s := { s with taken := [] }.take (s.rest.takeWhile (· ≠ '"')) (s.rest.dropWhile (· ≠ '"'))
  match s.rest with
  | [] => s.goTo (.fail ⟨.unterminatedString, s.start⟩)
  | c :: cs =>
    { ((s.emit .string (some (.text (String.ofList s.taken)))).take [c] cs).goTo .begin with
      taken := [] }

def symbol (s : Scanner) : Scanner :=
  let s := s.take (s.rest.takeWhile (!endsSymbol ·)) (s.rest.dropWhile (!endsSymbol ·))
  (s.emit .symbol none).goTo .begin

def run (s : Scanner) : Phase → Scanner
  | .begin => s.begin
  | .emit kind => (s.emit kind none).goTo .begin
  | .number => s.number
  | .string => s.string
  | .symbol => s.symbol
  | .fail e => { s with error := some e, phase := none }
  | .finish => { { s with start := s.position, taken := [] }.emit .eof none with phase := none }

/-- More than what is left to do before a token is queued or the machine stops. -/
def work (s : Scanner) : Nat :=
  match s.queue, s.phase with
  | _ :: _, _ | [], none => 0
  | [], some (.fail _) | [], some .finish => 1
  | [], some .begin => 2 * s.rest.length + 2
  | [], some (.emit _) | [], some .number | [], some .string | [], some .symbol =>
    2 * s.rest.length + 3

theorem work_le (s : Scanner) : s.work ≤ 2 * s.rest.length + 3 := by
  unfold work
  split <;> omega

theorem work_emit (s : Scanner) (kind : Token.Kind) (literal : Option Token.Literal)
    (phase : Phase) : ((s.emit kind literal).goTo phase).work = 0 := by
  cases h : s.queue <;> simp [work, emit, goTo, h]

/-- A state takes a character, or a token or a stop follows. -/
theorem work_run_lt {s : Scanner} (idle : s.queue = []) {phase : Phase}
    (h : s.phase = some phase) : (s.run phase).work < s.work := by
  obtain ⟨_, rest, position, start, taken, _, token, error⟩ := s
  obtain rfl : _ = [] := idle
  obtain rfl : _ = some phase := h
  cases phase with
  | begin =>
    cases rest with
    | nil => simp [run, begin, goTo, work]
    | cons c cs =>
      simp only [run, begin]
      split
      · simp [goTo, take, work]
      · refine Nat.lt_of_le_of_lt (work_le _) ?_
        simp only [goTo, take, work, List.length_cons]
        omega
  | emit kind => simp [run, emit, goTo, work]
  | number =>
    simp only [run, number]
    split
    · rw [work_emit]
      simp [work]
    · simp [goTo, take, work]
  | string =>
    simp only [run, string]
    split
    · simp [goTo, take, work]
    · simp [goTo, take, emit, work]
  | symbol =>
    rw [run, symbol, work_emit]
    simp [work]
  | fail e => simp [run, work]
  | finish => simp [run, emit, work]

/-- Runs one state after the other until there is a token, and says whether there is one. -/
def next (s : Scanner) : Bool × Scanner :=
  match _idle : s.queue with
  | t :: later => (true, { s with token := t, queue := later })
  | [] =>
    match _h : s.phase with
    | none => (false, s)
    | some phase => (s.run phase).next
termination_by s.work
decreasing_by exact work_run_lt _idle _h

/-! ## The machine delivers what a stream delivers -/

theorem next_queued {s : Scanner} {t : Token} {later : List Token} (h : s.queue = t :: later) :
    s.next = (true, { s with token := t, queue := later }) := by
  rw [next]
  split <;> simp_all

theorem next_stopped {s : Scanner} (idle : s.queue = []) (h : s.phase = none) :
    s.next = (false, s) := by
  rw [next]
  split <;> simp_all
  split <;> simp_all

theorem next_running {s : Scanner} (idle : s.queue = []) {phase : Phase}
    (h : s.phase = some phase) : s.next = (s.run phase).next := by
  rw [next]
  split <;> simp_all
  split <;> simp_all

/-- A token is cut off as the state says that its first character leads to. -/
theorem dispatch_cases (start : Position) (c : Char) (cs : List Char) :
    (∃ kind, dispatch start c cs = .emit kind ∧ cut c cs = .ok (.plain kind [c] none, cs)) ∨
    (dispatch start c cs = .string ∧ c = '"' ∧ cut c cs = cutString cs) ∨
    (dispatch start c cs = .number ∧ cut c cs = cutNumber c cs) ∨
    (dispatch start c cs = .symbol ∧ cut c cs = .ok (cutSymbol c cs)) ∨
    (dispatch start c cs = .fail ⟨.unexpectedCharacter c, start⟩ ∧
      cut c cs = .error (.unexpectedCharacter c)) := by
  unfold dispatch cut
  cases hp : punctuation? c with
  | some kind => exact .inl ⟨kind, rfl, rfl⟩
  | none =>
    by_cases minus : c = '-'
    · subst minus
      cases digit : startsWithDigit cs <;> simp [Decimal.isDigit]
    · by_cases quote : c = '"'
      · simp [quote]
      · cases digit : Decimal.isDigit c <;> cases symbol : isSymbolStart c <;>
          simp [minus, quote]

/-- Nothing is queued and nothing more is done. -/
structure Stopped (s : Scanner) (token : Token) (error : Option LexicalError) : Prop where
  queue : s.queue = []
  phase : s.phase = none
  token : s.token = token
  error : s.error = error

theorem next_fail {s : Scanner} (idle : s.queue = []) (e : LexicalError) :
    ∃ s', (s.goTo (.fail e)).next = (false, s') ∧ s'.Stopped s.token (some e) := by
  have running := next_running (s := s.goTo (.fail e)) idle rfl
  have stopped := next_stopped (s := (s.goTo (.fail e)).run (.fail e)) idle rfl
  exact ⟨_, running.trans stopped, idle, rfl, rfl, rfl⟩

section
variable (start : Position) (c : Char) (cs : List Char) (token : Token)
variable (error : Option LexicalError)

/-- The machine behind the first character of a token. -/
def opened : Scanner :=
  ⟨some (dispatch start c cs), cs, start.next c, start, [c], [], token, error⟩

theorem next_opened_of_ok {p : Piece} {rest : List Char} (h : cut c cs = .ok (p, rest)) :
    (opened start c cs token error).next =
      (true, ⟨some .begin, rest, start.advance p.span, start, [], [], p.token start, error⟩) := by
  rw [next_running rfl rfl]
  obtain ⟨kind, hd, hc⟩ | ⟨hd, rfl, hc⟩ | ⟨hd, hc⟩ | ⟨hd, hc⟩ | ⟨-, hc⟩ :=
    dispatch_cases start c cs
  · rw [hc] at h
    cases h
    rw [hd]
    exact next_queued rfl
  · rw [hc] at h
    obtain ⟨content, noQuote, rfl, rfl⟩ := cutString_ok_iff.mp h
    have inside : ∀ d ∈ content, decide (d ≠ '"') = true :=
      fun d hd => decide_eq_true fun e => noQuote (e ▸ hd)
    have front : (content ++ '"' :: rest).takeWhile (· ≠ '"') = content :=
      takeWhile_run inside (by simp)
    have back : (content ++ '"' :: rest).dropWhile (· ≠ '"') = '"' :: rest :=
      dropWhile_run inside (by simp)
    have place : ((start.next '"').advance content).advance ['"'] =
        start.advance (Piece.quoted content).span := by
      simp [Piece.quoted, Position.advance]
    rw [hd]
    simp only [run, string, opened, take, front, back]
    rw [← place]
    exact next_queued rfl
  · rw [hc] at h
    unfold cutNumber at h
    dsimp only at h
    split at h
    · rename_i x hx
      cases h
      rw [hd]
      simp only [run, number, opened, take, List.singleton_append, hx]
      exact next_queued rfl
    · cases h
  · rw [hc] at h
    cases h
    rw [hd]
    exact next_queued rfl
  · rw [hc] at h
    cases h

theorem next_opened_of_error {cause : LexicalError.Cause} (h : cut c cs = .error cause) :
    ∃ s', (opened start c cs token error).next = (false, s') ∧
      s'.Stopped token (some ⟨cause, start⟩) := by
  obtain ⟨kind, hd, hc⟩ | ⟨hd, rfl, hc⟩ | ⟨hd, hc⟩ | ⟨hd, hc⟩ | ⟨hd, hc⟩ :=
    dispatch_cases start c cs
  · rw [hc] at h
    cases h
  · rw [hc] at h
    unfold cutString at h
    dsimp only at h
    split at h
    · rename_i none
      cases h
      rw [next_running rfl rfl, hd]
      simp only [run, string, opened, take, none]
      exact next_fail rfl _
    · cases h
  · rw [hc] at h
    unfold cutNumber at h
    dsimp only at h
    split at h
    · cases h
    · rename_i none
      cases h
      rw [next_running rfl rfl, hd]
      simp only [run, number, opened, take, List.singleton_append, none]
      exact next_fail rfl _
  · rw [hc] at h
    cases h
  · rw [hc] at h
    cases h
    have failing : opened start c cs token error =
        goTo (opened start c cs token error) (.fail ⟨.unexpectedCharacter c, start⟩) := by
      rw [goTo, opened, hd]
    rw [failing]
    exact next_fail rfl _

end

/-- The machine is where a stream goes on, or both have stopped, and they show the same. -/
inductive Shows : Scanner → TokenStream → Prop
  | waiting (rest : List Char) (position start : Position) (token : Token)
      (error : Option LexicalError) :
      Shows ⟨some .begin, rest, position, start, [], [], token, error⟩
        ⟨some ⟨position, rest⟩, token, error⟩
  | stopped {s : Scanner} {token : Token} {error : Option LexicalError} :
      s.Stopped token error → Shows s ⟨none, token, error⟩

theorem Shows.token {s : Scanner} {t : TokenStream} (h : Shows s t) : s.token = t.token := by
  cases h with
  | waiting => rfl
  | stopped h => exact h.token

theorem Shows.error {s : Scanner} {t : TokenStream} (h : Shows s t) : s.error = t.error := by
  cases h with
  | waiting => rfl
  | stopped h => exact h.error

/-- From each character on, the machine comes to the token or to the error that the stream pulls. -/
theorem next_waiting (rest : List Char) (position start : Position) (token : Token)
    (error : Option LexicalError) :
    let s : Scanner := ⟨some .begin, rest, position, start, [], [], token, error⟩
    let t : TokenStream := ⟨some ⟨position, rest⟩, token, error⟩
    s.next.1 = t.next.1 ∧ Shows s.next.2 t.next.2 := by
  induction rest generalizing position start with
  | nil =>
    intro s t
    have finish : s.next = (s.begin.run .finish).next := by
      rw [next_running rfl rfl]
      exact next_running rfl rfl
    rw [finish, next_queued rfl]
    exact ⟨rfl, .stopped ⟨rfl, rfl, rfl, rfl⟩⟩
  | cons c cs ih =>
    intro s t
    have running : s.next = (s.run .begin).next := next_running rfl rfl
    simp only [run, begin, s] at running
    cases hb : isBlank c with
    | true =>
      have skip : t.next = TokenStream.next ⟨some ⟨position.next c, cs⟩, token, error⟩ := by
        simp only [TokenStream.next, t, Cursor.pull_blank hb]
      rw [if_pos hb] at running
      rw [running, skip]
      exact ih (position.next c) position
    | false =>
      rw [if_neg (by simp [hb])] at running
      change s.next = (opened position c cs token error).next at running
      cases hc : cut c cs with
      | ok cut =>
        obtain ⟨p, rest⟩ := cut
        have pulled : t.next = (true, ⟨some ⟨position.advance p.span, rest⟩, p.token position,
            error⟩) := by
          simp only [TokenStream.next, t, Cursor.pull_cut_ok hc]
        rw [running, next_opened_of_ok position c cs token error hc, pulled]
        exact ⟨rfl, .waiting ..⟩
      | error cause =>
        obtain ⟨s', failed, stopped⟩ := next_opened_of_error position c cs token error hc
        have pulled : t.next = (false, ⟨none, token, some ⟨cause, position⟩⟩) := by
          simp only [TokenStream.next, t, Cursor.pull_cut_error hb hc]
        rw [running, failed, pulled]
        exact ⟨rfl, .stopped stopped⟩

/-- A call for the next token does the same to both. -/
theorem Shows.next {s : Scanner} {t : TokenStream} (h : Shows s t) :
    s.next.1 = t.next.1 ∧ Shows s.next.2 t.next.2 := by
  cases h with
  | waiting => exact next_waiting ..
  | @stopped s token error h =>
    rw [next_stopped h.queue h.phase]
    exact ⟨rfl, .stopped h⟩

end Scanner

end Lexer

end Lisplet
