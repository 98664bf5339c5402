import Lisplet.Proofs.Alike
import Lisplet.Proofs.Grammar
import Lisplet.Proofs.TreeMachine

/-! The same text at another place. Its tokens, the trees built from them and what is wrong with it
are the same, each with its place moved. -/
namespace Lisplet

namespace Position

/-- Where the place `q` of a text is if the text starts at `p`. -/
def offset (p q : Position) : Position :=
  if q.line = 1 then ⟨p.line, p.column + q.column - 1⟩ else ⟨p.line + q.line - 1, q.column⟩

theorem offset_start (p : Position) : p.offset start = p := by
  simp [offset, start]

theorem one_le_line_next {q : Position} (hq : 1 ≤ q.line) (c : Char) : 1 ≤ (q.next c).line := by
  by_cases hc : c = '\n' <;> simp only [next, hc, if_true, if_false] <;> omega

theorem offset_next (p : Position) {q : Position} (hq : 1 ≤ q.line) (c : Char) :
    p.offset (q.next c) = (p.offset q).next c := by
  by_cases hc : c = '\n' <;> by_cases hl : q.line = 1
  · simp [offset, next, hc, hl]
    omega
  · have ne : q.line ≠ 0 := by omega
    simp [offset, next, hc, hl, ne]
    omega
  · simp [offset, next, hc, hl]
    omega
  · simp [offset, next, hc, hl]

theorem one_le_line_advance {q : Position} (hq : 1 ≤ q.line) (cs : List Char) :
    1 ≤ (q.advance cs).line := by
  induction cs generalizing q with
  | nil => exact hq
  | cons c cs ih => exact ih (one_le_line_next hq c)

theorem offset_advance (p : Position) {q : Position} (hq : 1 ≤ q.line) (cs : List Char) :
    p.offset (q.advance cs) = (p.offset q).advance cs := by
  induction cs generalizing q with
  | nil => rfl
  | cons c cs ih =>
    change p.offset ((q.next c).advance cs) = ((p.offset q).next c).advance cs
    rw [ih (one_le_line_next hq c), offset_next p hq]

end Position

def Token.relocate (g : Position → Position) (t : Token) : Token :=
  { t with position := g t.position }

theorem Token.kind_relocate (g : Position → Position) (t : Token) :
    (t.relocate g).kind = t.kind := rfl

def LexicalError.relocate (g : Position → Position) (e : LexicalError) : LexicalError :=
  { e with position := g e.position }

/-- The same text from another place on: the same tokens, or the same error, moved. -/
theorem Lexer.tokens_offset (p : Position) {q : Position} (hq : 1 ≤ q.line) (cs : List Char) :
    (⟨p.offset q, cs⟩ : Cursor).tokens =
      ((⟨q, cs⟩ : Cursor).tokens.map (List.map (Token.relocate p.offset))).mapError
        (LexicalError.relocate p.offset) := by
  induction cs using scan_induction generalizing q with
  | nil => simp only [Cursor.tokens_nil]; rfl
  | blank c cs hc ih =>
    rw [Cursor.tokens_blank hc, Cursor.tokens_blank hc, ← Position.offset_next p hq]
    exact ih (Position.one_le_line_next hq c)
  | word c cs piece rest hc ih =>
    rw [Cursor.tokens_cut_ok hc, Cursor.tokens_cut_ok hc, ← Position.offset_advance p hq,
      ih (Position.one_le_line_advance hq _)]
    cases (⟨q.advance piece.span, rest⟩ : Cursor).tokens <;> rfl
  | stuck c cs cause hc hcut =>
    rw [Cursor.tokens_cut_error hc hcut, Cursor.tokens_cut_error hc hcut]
    rfl

namespace Tree
variable (g : Position → Position)

mutual

def relocate : Tree → Tree
  | absent => absent
  | blank => blank
  | atom token text => atom (token.map (Token.relocate g)) text
  | list token items => list (token.map (Token.relocate g)) (relocateAll items)

def relocateAll : List Tree → List Tree
  | [] => []
  | t :: ts => relocate t :: relocateAll ts

end

theorem relocateAll_eq_map (ts : List Tree) : relocateAll g ts = ts.map (relocate g) := by
  induction ts with
  | nil => rfl
  | cons t ts ih => simp only [relocateAll, List.map_cons, ih]

mutual

theorem relocate_alike : ∀ t : Tree, (t.relocate g).Alike t
  | absent => rfl
  | blank => rfl
  | atom _ text => by simp [Alike, relocate, alike]
  | list _ items => by
    simp only [Alike, relocate, alike]
    exact relocateAll_alike items

theorem relocateAll_alike : ∀ ts : List Tree, alikeAll (relocateAll g ts) ts = true
  | [] => rfl
  | t :: ts => by
    simp only [relocateAll, alikeAll, Bool.and_eq_true]
    exact ⟨relocate_alike t, relocateAll_alike ts⟩

end

end Tree

namespace Parser

def Frame.relocate (g : Position → Position) (f : Frame) : Frame :=
  ⟨f.opening.relocate g, f.items.map (Tree.relocate g)⟩

theorem Frame.close_relocate (g : Position → Position) (f : Frame) :
    (f.relocate g).close = f.close.relocate g := by
  simp only [close, relocate, Tree.relocate, Tree.relocateAll_eq_map, List.map_reverse,
    Option.map_some]

namespace State
variable (g : Position → Position)

def relocate (s : State) : State := ⟨s.trees.map (Tree.relocate g), s.stack.map (Frame.relocate g)⟩

theorem add_relocate (s : State) (t : Tree) :
    (s.relocate g).add (t.relocate g) = (s.add t).relocate g := by
  obtain ⟨ts, _ | ⟨f, fs⟩⟩ := s
  · simp [add, relocate]
  · rfl

theorem step_relocate (s : State) (t : Token) :
    (s.relocate g).step (t.relocate g) =
      ((s.step t).map (relocate g)).mapError (Token.relocate g) := by
  obtain ⟨ts, stack⟩ := s
  unfold step
  rw [Token.kind_relocate]
  cases t.kind with
  | openParen | eof | invalid => rfl
  | closeParen =>
    cases stack with
    | nil => rfl
    | cons f fs =>
      have whole := add_relocate g ⟨ts, fs⟩ f.close
      rw [← Frame.close_relocate] at whole
      exact congrArg Except.ok whole
  | number | string | symbol | plus | minus | star | slash =>
    exact congrArg Except.ok (add_relocate g ⟨ts, stack⟩ (.atom (some t) t.lexeme))

theorem feed_relocate (s : State) (ts : List Token) :
    (s.relocate g).feed (ts.map (Token.relocate g)) =
      ((s.feed ts).map (relocate g)).mapError (Token.relocate g) := by
  induction ts generalizing s with
  | nil => rfl
  | cons t ts ih =>
    rw [List.map_cons, feed_cons, feed_cons, step_relocate]
    cases s.step t with
    | error u => rfl
    | ok s => exact ih s

end State

end Parser

def SyntaxError.relocate (g : Position → Position) : SyntaxError → SyntaxError
  | unexpectedEnd t => unexpectedEnd (t.relocate g)
  | unexpectedToken t => unexpectedToken (t.relocate g)
  | missingClose t => missingClose (t.relocate g)

theorem Parser.outcome_relocate (g : Position → Position) (r : Except Token State) :
    outcome ((r.map (State.relocate g)).mapError (Token.relocate g)) =
      ((outcome r).map (List.map (Tree.relocate g))).mapError (SyntaxError.relocate g) := by
  obtain t | ⟨trees, _ | ⟨f, fs⟩⟩ := r <;> rfl

def ReadError.relocate (g : Position → Position) : ReadError → ReadError
  | lexical e => lexical (e.relocate g)
  | grammatical e => grammatical (e.relocate g)

end Lisplet
