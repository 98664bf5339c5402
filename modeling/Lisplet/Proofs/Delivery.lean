import Lisplet.Proofs.Scanner

/-! Tokens on demand. However the calls for the next token, for the last one delivered and for the
error follow each other, the answers are those that the tokens of the whole source call for. -/
namespace Lisplet

namespace Lexer

/-- A way to deliver tokens one at a time. -/
structure Supply (σ : Type) where
  next : σ → Bool × σ
  token : σ → Token
  error : σ → Option LexicalError

def stream : Supply TokenStream := ⟨TokenStream.next, TokenStream.token, TokenStream.error⟩

def machine : Supply Scanner := ⟨Scanner.next, Scanner.token, Scanner.error⟩

inductive Call where
  | next
  | token
  | error
  deriving DecidableEq, Repr

inductive Answer where
  | moved (more : Bool)
  | token (t : Token)
  | error (e : Option LexicalError)
  deriving DecidableEq, Repr

namespace Supply
variable {σ : Type} (supply : Supply σ)

def answer (s : σ) : Call → Answer × σ
  | .next => (.moved (supply.next s).1, (supply.next s).2)
  | .token => (.token (supply.token s), s)
  | .error => (.error (supply.error s), s)

def after (s : σ) (calls : List Call) : σ :=
  calls.foldl (fun s call => (supply.answer s call).2) s

/-- After so many calls for the next token. -/
def advanced (n : Nat) (s : σ) : σ := (fun s => (supply.next s).2)^[n] s

/-- Only the calls for the next token change anything. -/
theorem after_eq_advanced (s : σ) (calls : List Call) :
    supply.after s calls = supply.advanced (calls.count .next) s := by
  induction calls generalizing s with
  | nil => rfl
  | cons call calls ih =>
    change supply.after (supply.answer s call).2 calls = _
    rw [ih]
    cases call <;> simp [answer, advanced]

end Supply

/-- What is answered after `n` calls for the next token, if these are all that is delivered, and
then there may be an error. -/
def expected (delivered : List Token) (error : Option LexicalError) (n : Nat) : Call → Answer
  | .next => .moved (n < delivered.length)
  | .token => .token ((delivered.take n).getLast?.getD .unread)
  | .error => .error (if n ≤ delivered.length then none else error)

/-- These are the tokens from a place on, up to the end or to an error. -/
inductive Delivers : Cursor → List Token → Option LexicalError → Prop
  | token {s next : Cursor} {t : Token} {ts : List Token} {error : Option LexicalError} :
      s.pull = .token t next → Delivers next ts error → Delivers s (t :: ts) error
  | finish {s : Cursor} {eof : Token} : s.pull = .finish eof → Delivers s [eof] none
  | error {s : Cursor} {e : LexicalError} : s.pull = .error e → Delivers s [] (some e)

theorem Delivers.of_pull {s s' : Cursor} {ts : List Token} {error : Option LexicalError}
    (h : Delivers s' ts error) (same : s.pull = s'.pull) : Delivers s ts error := by
  cases h with
  | token hp rest => exact .token (same.trans hp) rest
  | finish hp => exact .finish (same.trans hp)
  | error hp => exact .error (same.trans hp)

/-- What is delivered is what the whole text is cut into, as far as that goes. -/
theorem exists_delivers (start : Position) (cs : List Char) :
    (∃ tokens, (⟨start, cs⟩ : Cursor).tokens = .ok tokens ∧ Delivers ⟨start, cs⟩ tokens none) ∨
    ∃ delivered e, (⟨start, cs⟩ : Cursor).tokens = .error e ∧
      Delivers ⟨start, cs⟩ delivered (some e) ∧ ∀ t ∈ delivered, t.kind ≠ .eof := by
  induction cs using scan_induction generalizing start with
  | nil => exact .inl ⟨_, Cursor.tokens_nil start, .finish rfl⟩
  | blank c cs hb ih =>
    have same := Cursor.pull_blank hb start cs
    rw [Cursor.tokens_blank hb]
    obtain ⟨tokens, cut, delivers⟩ | ⟨delivered, e, cut, delivers, clear⟩ := ih (start.next c)
    · exact .inl ⟨tokens, cut, delivers.of_pull same⟩
    · exact .inr ⟨delivered, e, cut, delivers.of_pull same, clear⟩
  | word c cs p rest hc ih =>
    have first := Cursor.pull_cut_ok hc start
    rw [Cursor.tokens_cut_ok hc]
    obtain ⟨tokens, cut, delivers⟩ | ⟨delivered, e, cut, delivers, clear⟩ :=
      ih (start.advance p.span)
    · exact .inl ⟨_, by rw [cut]; rfl, .token first delivers⟩
    · refine .inr ⟨_, e, by rw [cut]; rfl, .token first delivers, ?_⟩
      exact List.forall_mem_cons.mpr ⟨(word_of_cut hc).1.kind_ne_eof, clear⟩
  | stuck c cs cause hb hc =>
    exact .inr ⟨[], _, Cursor.tokens_cut_error hb hc start,
      .error (Cursor.pull_cut_error hb hc start), by simp⟩

theorem advanced_of_next {s s' : TokenStream} {more : Bool} (h : s.next = (more, s')) (n : Nat) :
    stream.advanced (n + 1) s = stream.advanced n s' := by
  change stream.advanced n s.next.2 = _
  rw [h]

theorem advanced_stopped (n : Nat) (token : Token) (error : Option LexicalError) :
    stream.advanced n ⟨none, token, error⟩ = ⟨none, token, error⟩ := by
  induction n with
  | zero => rfl
  | succ n ih => exact ih

/-- A stream delivers the tokens in their order, and then shows the error if there is one. -/
theorem Delivers.advanced {s : Cursor} {ts : List Token} {error : Option LexicalError}
    (h : Delivers s ts error) (token : Token) (n : Nat) :
    let t := stream.advanced n ⟨some s, token, none⟩
    t.next.1 = decide (n < ts.length) ∧ t.token = (ts.take n).getLast?.getD token ∧
      t.error = if n ≤ ts.length then none else error := by
  induction h generalizing token n with
  | @token s next t ts error hp _ ih =>
    have first : TokenStream.next ⟨some s, token, none⟩ = (true, ⟨some next, t, none⟩) := by
      simp only [TokenStream.next, hp]
    cases n with
    | zero => simp [Supply.advanced, first]
    | succ n =>
      rw [advanced_of_next first]
      simpa [List.getLast?_cons] using ih t n
  | @finish s eof hp =>
    have last : TokenStream.next ⟨some s, token, none⟩ = (true, ⟨none, eof, none⟩) := by
      simp only [TokenStream.next, hp]
    cases n with
    | zero => simp [Supply.advanced, last]
    | succ n =>
      rw [advanced_of_next last, advanced_stopped]
      simp [TokenStream.next]
  | @error s e hp =>
    have stop : TokenStream.next ⟨some s, token, none⟩ = (false, ⟨none, token, some e⟩) := by
      simp only [TokenStream.next, hp]
    cases n with
    | zero => simp [Supply.advanced, stop]
    | succ n =>
      rw [advanced_of_next stop, advanced_stopped]
      simp [TokenStream.next]

/-- So each call on the stream is answered, whatever calls there were before it. -/
theorem Delivers.answer {s : Cursor} {ts : List Token} {error : Option LexicalError}
    (h : Delivers s ts error) (calls : List Call) (call : Call) :
    (stream.answer (stream.after ⟨some s, .unread, none⟩ calls) call).1 =
      expected ts error (calls.count .next) call := by
  obtain ⟨more, token, shown⟩ := h.advanced .unread (calls.count .next)
  rw [Supply.after_eq_advanced]
  cases call with
  | next => exact congrArg Answer.moved more
  | token => exact congrArg Answer.token token
  | error => exact congrArg Answer.error shown

/-- The machine shows what the stream shows after the same calls. -/
theorem Scanner.Shows.after {s : Scanner} {t : TokenStream} (h : s.Shows t) (calls : List Call) :
    (machine.after s calls).Shows (stream.after t calls) := by
  induction calls generalizing s t with
  | nil => exact h
  | cons call calls ih =>
    cases call with
    | next => exact ih h.next.2
    | token | error => exact ih h

theorem Scanner.Shows.answer {s : Scanner} {t : TokenStream} (h : s.Shows t) (call : Call) :
    (machine.answer s call).1 = (stream.answer t call).1 := by
  cases call with
  | next => exact congrArg Answer.moved h.next.1
  | token => exact congrArg Answer.token h.token
  | error => exact congrArg Answer.error h.error

/-- Whatever calls there were, the answer to the next one is what the whole source calls for: its
tokens one by one and then no more, or those in front of the error and then the error. The machine,
which goes through its states until there is an answer, gives the same. -/
theorem supply_answers (source : List UInt8) :
    (∀ tokens, tokenize source = .ok tokens → ∀ calls call,
      (stream.answer (stream.after (.ofSource source) calls) call).1 =
        expected tokens none (calls.count .next) call) ∧
    (∀ e, tokenize source = .error e → ∃ delivered, (∀ t ∈ delivered, t.kind ≠ .eof) ∧
      ∀ calls call, (stream.answer (stream.after (.ofSource source) calls) call).1 =
        expected delivered (some e) (calls.count .next) call) ∧
    ∀ calls call, (machine.answer (machine.after (.ofSource source) calls) call).1 =
      (stream.answer (stream.after (.ofSource source) calls) call).1 := by
  refine ⟨fun tokens cut calls call => ?_, fun e failed => ?_, fun calls call => ?_⟩
  · obtain ⟨tokens', cut', delivers⟩ | ⟨_, e, failed, -⟩ :=
      exists_delivers .start (sourceChars source)
    · obtain rfl := Except.ok.inj (cut'.symm.trans cut)
      exact delivers.answer calls call
    · cases failed.symm.trans cut
  · obtain ⟨tokens, cut, -⟩ | ⟨delivered, e', failed', delivers, clear⟩ :=
      exists_delivers .start (sourceChars source)
    · cases cut.symm.trans failed
    · obtain rfl := Except.error.inj (failed'.symm.trans failed)
      exact ⟨delivered, clear, delivers.answer⟩
  · have shows : Scanner.Shows (.ofSource source) (.ofSource source) := .waiting ..
    exact (shows.after calls).answer call

end Lexer

end Lisplet
