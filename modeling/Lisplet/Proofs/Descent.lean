import Lisplet.Graph.Parser
import Lisplet.Proofs.TreeMachine

/-! Reading trees by recursive descent (§4.2), which is what reading into nodes comes to. The parser
does the same with the open lists kept on a stack, so no check of the descent ever fails. -/
namespace Lisplet

namespace Parser

namespace Descent

/-- Puts an item into a list. -/
def push : Tree → Tree → Descent Tree
  | .absent, _ | .list _ _, .absent => stop (.refused (.fault .missing))
  | .list token items, item => pure (.list token (items ++ [item]))
  | .atom _ _, _ | .blank, _ => stop (.refused .notAList)

end Descent

/-- Trees in place of nodes. -/
def Maker.trees : Maker Descent Tree where
  atom t := pure (.atom (some t) t.lexeme)
  list t := pure (.list (some t) [])
  push := Descent.push

open Maker (closing trees)

namespace Descent

/-- Reads the trees of all expressions. -/
def every (level : Nat) : Descent (List Tree) := trees.every level

/-! ## No check fails -/

theorem bind_apply {α β : Type} (x : Descent α) (f : α → Descent β) (ts : List Token) :
    (x >>= f) ts = match x ts with
      | (.ok a, rest) => f a rest
      | (.error o, rest) => (.error o, rest) := by
  simp only [bind, ExceptT.bind, ExceptT.mk, StateT.bind, ExceptT.bindCont]
  rcases x ts with ⟨_ | _, rest⟩ <;> rfl

theorem lift_self {α : Type} (x : Descent α) : (liftM x : Descent α) = x := rfl

theorem current_cons (t : Token) (ts : List Token) : current (t :: ts) = (.ok t, t :: ts) := rfl

theorem expect_cons {kind : Token.Kind} {t : Token} (h : t.kind = kind) (ts : List Token) :
    expect kind (t :: ts) = (.ok t, ts) := by
  rw [expect, bind_apply, current_cons]
  simp only [h, if_true]
  rfl

/-- A list that is read so far takes any node. -/
theorem push_close (f : Frame) {item : Tree} (h : item ≠ .absent) (ts : List Token) :
    push f.close item ts = (.ok (f.push item).close, ts) := by
  have items : (f.push item).close = .list (some f.opening) (f.items.reverse ++ [item]) := by
    simp [Frame.push, Frame.close]
  rw [items]
  cases item with
  | absent => exact absurd rfl h
  | blank | atom | list => rfl

/-- What the parser goes on with once it has read a tree inside some lists. -/
def complete : List Frame → Tree → List Token → Except SyntaxError Tree × List Token
  | [], tree, rest => (.ok tree, rest)
  | f :: fs, tree, rest => expression (f.push tree :: fs) rest

/-- The descent does what the parser does inside some lists: it stops at an error of the tokens, or
else has read a tree from the first ones. -/
inductive Follows (stack : List Frame) (ts : List Token)
    (parsed : Except SyntaxError Tree × List Token) : Except Obstacle Tree × List Token → Prop
  | ok {tree : Tree} {rest : List Token} : tree ≠ .absent → rest.length < ts.length →
      parsed = complete stack tree rest → Follows stack ts parsed (.ok tree, rest)
  | error {e : SyntaxError} {rest : List Token} : parsed = (.error e, rest) →
      Follows stack ts parsed (.error (.syntactic e), rest)

theorem Follows.mono {stack : List Frame} {ts us : List Token}
    {parsed : Except SyntaxError Tree × List Token} {read : Except Obstacle Tree × List Token}
    (h : Follows stack ts parsed read) (shorter : ts.length ≤ us.length) :
    Follows stack us parsed read := by
  cases h with
  | ok present taken same => exact .ok present (Nat.lt_of_lt_of_le taken shorter) same
  | error same => exact .error same

theorem one_cons (level : Nat) (t : Token) (ts : List Token) :
    trees.one (level + 1) (t :: ts) = match t.kind with
      | .openParen => closing (trees.items level t (Frame.close ⟨t, []⟩)) ts
      | .number | .string | .symbol | .plus | .minus | .star | .slash =>
        (.ok (.atom (some t) t.lexeme), ts)
      | .eof => (.error (.syntactic (.unexpectedEnd t)), t :: ts)
      | .closeParen | .invalid _ => (.error (.syntactic (.unexpectedToken t)), t :: ts) := by
  rw [Maker.one, bind_apply, lift_self, current_cons]
  dsimp only
  cases h : t.kind with
  | openParen =>
    simp only [bind_apply, lift_self, expect_cons h]
    rfl
  | number | string | symbol | plus | minus | star | slash | eof | closeParen | invalid => rfl

theorem closing_of_error {items : Descent Tree} {ts rest : List Token} {o : Obstacle}
    (h : items ts = (.error o, rest)) : closing items ts = (.error o, rest) := by
  rw [closing, bind_apply, h]

theorem closing_items_end (level : Nat) (f : Frame) {ts : List Token} (h : atEnd ts = true) :
    closing (trees.items (level + 1) f.opening f.close) ts =
      (.error (.syntactic (.missingClose f.opening)), ts) := by
  apply closing_of_error
  cases ts with
  | nil => rfl
  | cons t ts =>
    have kind : t.kind = .eof := by simpa [atEnd] using h
    rw [Maker.items, bind_apply, lift_self, current_cons]
    simp only [kind]
    rfl

theorem closing_items_close (level : Nat) (f : Frame) {t : Token} (h : t.kind = .closeParen)
    (ts : List Token) :
    closing (trees.items (level + 1) f.opening f.close) (t :: ts) = (.ok f.close, ts) := by
  have done : trees.items (level + 1) f.opening f.close (t :: ts) = (.ok f.close, t :: ts) := by
    rw [Maker.items, bind_apply, lift_self, current_cons]
    simp only [h]
    rfl
  rw [closing, bind_apply, done]
  simp only [bind_apply, lift_self, expect_cons h]
  rfl

theorem closing_items_cons (level : Nat) (f : Frame) {t : Token} (close : t.kind ≠ .closeParen)
    (eof : t.kind ≠ .eof) (ts : List Token) :
    closing (trees.items (level + 1) f.opening f.close) (t :: ts) =
      match trees.one level (t :: ts) with
      | (.ok item, rest) =>
        (push f.close item >>= fun list => closing (trees.items level f.opening list)) rest
      | (.error o, rest) => (.error o, rest) := by
  let later (item : Tree) : Descent Tree :=
    push f.close item >>= fun list => trees.items level f.opening list
  have next : trees.items (level + 1) f.opening f.close (t :: ts) =
      (trees.one level >>= later) (t :: ts) := by
    rw [Maker.items, bind_apply, lift_self, current_cons]
    dsimp only
    cases h : t.kind with
    | closeParen => exact absurd h close
    | eof => exact absurd h eof
    | openParen | number | string | symbol | plus | minus | star | slash | invalid => rfl
  rw [closing, bind_apply, next, bind_apply]
  rcases trees.one level (t :: ts) with ⟨o | item, rest⟩
  · rfl
  · simp only [closing, later, bind_apply]
    rcases push f.close item rest with ⟨_ | _, _⟩ <;> rfl

/-- Within so many levels one expression is read as the parser reads it. -/
def ReadsOne (level : Nat) : Prop :=
  ∀ (stack : List Frame) (t : Token) (ts : List Token), 2 * (t :: ts).length < level →
    t.kind ≠ .eof → stack = [] ∨ t.kind ≠ .closeParen →
    Follows stack (t :: ts) (expression stack (t :: ts)) (trees.one level (t :: ts))

/-- Within so many levels the later items of a list are read as the parser reads them. -/
def ReadsItems (level : Nat) : Prop :=
  ∀ (f : Frame) (stack : List Frame) (ts : List Token), 2 * ts.length + 1 < level →
    Follows stack ts (expression (f :: stack) ts) (closing (trees.items level f.opening f.close) ts)

theorem ReadsItems.one {level : Nat} (items : ReadsItems level) : ReadsOne (level + 1) := by
  intro stack t ts enough more inside
  rw [one_cons]
  unfold expression
  cases h : t.kind with
  | openParen =>
    have list := items ⟨t, []⟩ stack ts (by rw [List.length_cons] at enough; omega)
    exact list.mono (Nat.le_succ _)
  | closeParen =>
    obtain rfl | other := inside
    · exact .error rfl
    · exact absurd h other
  | eof => exact absurd h more
  | invalid => exact .error rfl
  | number | string | symbol | plus | minus | star | slash =>
    refine .ok (by simp) (Nat.lt_succ_self _) ?_
    cases stack <;> rfl

theorem ReadsItems.succ {level : Nat} (items : ReadsItems level) (one : ReadsOne level) :
    ReadsItems (level + 1) := by
  intro f stack ts enough
  by_cases ended : atEnd ts = true
  · rw [closing_items_end level f ended]
    apply Follows.error
    cases ts with
    | nil => rfl
    | cons t ts =>
      have eof : t.kind = .eof := by simpa [atEnd] using ended
      simp only [expression, eof, endError]
  · cases ts with
    | nil => exact absurd rfl ended
    | cons t ts =>
      have more : t.kind ≠ .eof := by simpa [atEnd] using ended
      by_cases close : t.kind = .closeParen
      · rw [closing_items_close level f close]
        refine .ok (by simp [Frame.close]) (Nat.lt_succ_self _) ?_
        cases stack <;> simp only [expression, close, complete]
      · rw [closing_items_cons level f close more]
        have first := one (f :: stack) t ts (by omega) more (.inr close)
        generalize trees.one level (t :: ts) = read at first ⊢
        cases first with
        | error same => exact .error same
        | @ok tree rest present taken same =>
          -- The item takes a token at least, which leaves levels enough for the others.
          have later := items (f.push tree) stack rest (by omega)
          simp only [bind_apply, push_close f present]
          rw [same]
          exact later.mono (Nat.le_of_lt taken)

theorem readsItems_and_one (level : Nat) : ReadsItems level ∧ ReadsOne level := by
  induction level with
  | zero =>
    exact ⟨fun _ _ _ none => absurd none (Nat.not_lt_zero _),
      fun _ _ _ none => absurd none (Nat.not_lt_zero _)⟩
  | succ level ih => exact ⟨ih.1.succ ih.2, ih.1.one⟩

/-- Two levels for each token are enough to read an expression, and no check fails. -/
theorem one_eq {level : Nat} {ts : List Token} (enough : 2 * ts.length < level) :
    trees.one level ts = ((expression [] ts).1.mapError .syntactic, (expression [] ts).2) := by
  obtain ⟨level, rfl⟩ : ∃ l, level = l + 1 := ⟨level - 1, by omega⟩
  cases ts with
  | nil => rfl
  | cons t ts =>
    by_cases eof : t.kind = .eof
    · rw [one_cons]
      simp only [eof, expression]
      rfl
    · have read := (readsItems_and_one (level + 1)).2 [] t ts enough eof (.inl rfl)
      generalize trees.one (level + 1) (t :: ts) = read' at read ⊢
      cases read with
      | ok _ _ same => rw [same]; rfl
      | error same => rw [same]; rfl

theorem every_succ (level : Nat) (ts : List Token) :
    every (level + 1) ts =
      if atEnd ts = true then (.ok [], ts)
      else match trees.one level ts with
        | (.ok tree, rest) =>
          match every level rest with
          | (.ok trees, rest) => (.ok (tree :: trees), rest)
          | (.error o, rest) => (.error o, rest)
        | (.error o, rest) => (.error o, rest) := by
  unfold every
  rw [Maker.every, bind_apply, lift_self]
  cases ts with
  | nil => rfl
  | cons t ts =>
    rw [current_cons]
    dsimp only
    by_cases h : t.kind = .eof
    · simp only [h, atEnd, decide_true, if_true]
      rfl
    · simp only [h, atEnd, decide_false, if_false, Bool.false_eq_true, bind_apply]
      rcases trees.one level (t :: ts) with ⟨_ | _, rest⟩
      · rfl
      · dsimp only
        rcases trees.every level rest with ⟨_ | _, _⟩ <;> rfl

/-- So it is with all expressions. -/
theorem every_eq {level : Nat} {ts : List Token} (enough : 2 * ts.length + 1 < level) :
    every level ts = ((all ts).1.mapError .syntactic, (all ts).2) := by
  induction level generalizing ts with
  | zero => omega
  | succ level ih =>
    rw [every_succ]
    split
    · rename_i ended
      rw [all_of_atEnd ended]
      rfl
    · rename_i more
      rw [all_of_not_atEnd (Bool.eq_false_iff.mpr more)]
      have first : trees.one level ts = _ := one_eq (by omega)
      cases h : expression [] ts with
      | mk read rest =>
        rw [h] at first
        cases read with
        | error e =>
          change trees.one level ts = (.error (.syntactic e), rest) at first
          rw [first]
          rfl
        | ok tree =>
          change trees.one level ts = (.ok tree, rest) at first
          have shorter := length_expression_lt h
          rw [first]
          dsimp only
          rw [ih (by omega)]
          rcases all rest with ⟨e | trees, tail⟩ <;> rfl

end Descent

end Parser

end Lisplet
