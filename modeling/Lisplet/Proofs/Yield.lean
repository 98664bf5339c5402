import Lisplet.Proofs.TreeMachine
import Mathlib.Data.List.TakeWhile

/-! The grammar of expressions. A tree is read from just the tokens that it is written with, so the
parser accepts what the grammar generates, and builds the only trees that it can be read as. -/
namespace Lisplet

namespace Token

/-- Trees do not keep their closing tokens. This one is written for all of them. -/
def closing : Token := ⟨.closeParen, ")", none, .nowhere⟩

/-- The token, but `closing` for all that close a list. -/
def normal (t : Token) : Token := if t.kind = .closeParen then closing else t

theorem normal_of_close {t : Token} (h : t.kind = .closeParen) : t.normal = closing := if_pos h

theorem normal_of_ne {t : Token} (h : t.kind ≠ .closeParen) : t.normal = t := if_neg h

theorem kind_normal (t : Token) : t.normal.kind = t.kind := by
  by_cases h : t.kind = .closeParen
  · rw [normal_of_close h, h]
    rfl
  · rw [normal_of_ne h]

theorem Kind.isAtom_cases {k : Kind} (h : k.isAtom = true) :
    k = .number ∨ k = .string ∨ k = .symbol ∨ k = .plus ∨ k = .minus ∨ k = .star ∨ k = .slash := by
  cases k <;> simp_all [Kind.isAtom, Kind.isOperator]

theorem normal_of_isAtom {t : Token} (h : t.kind.isAtom = true) : t.normal = t := by
  apply normal_of_ne
  intro hk
  rw [hk] at h
  cases h

theorem normal_of_open {t : Token} (h : t.kind = .openParen) : t.normal = t := by
  apply normal_of_ne
  rw [h]
  exact nofun

end Token

namespace Parser

/-- The tokens of one expression: an atom, or expressions between parentheses. -/
inductive Expression : List Token → Prop
  | atom {t : Token} : t.kind.isAtom = true → Expression [t]
  | list {opening closing : Token} {items : List (List Token)} : opening.kind = .openParen →
      closing.kind = .closeParen → (∀ item ∈ items, Expression item) →
      Expression (opening :: items.flatten ++ [closing])

/-- The tokens of any number of expressions. -/
def Expressions (ts : List Token) : Prop :=
  ∃ items : List (List Token), (∀ item ∈ items, Expression item) ∧ items.flatten = ts

/-- The tokens in front of the first one for the end. -/
def beforeEnd (ts : List Token) : List Token := ts.takeWhile (·.kind ≠ .eof)

end Parser

namespace Tree

mutual

/-- The tokens that a tree is written with. -/
def tokens : Tree → List Token
  | absent | blank => []
  | atom token _ => token.toList
  | list token items => token.toList ++ tokensAll items ++ [.closing]

def tokensAll : List Tree → List Token
  | [] => []
  | t :: ts => tokens t ++ tokensAll ts

end

theorem tokensAll_eq_flatMap (ts : List Tree) : tokensAll ts = ts.flatMap tokens := by
  induction ts with
  | nil => rfl
  | cons t ts ih => rw [tokensAll, ih, List.flatMap_cons]

/-- Each node has a token that fits it, and each atom the text of its token. -/
inductive Faithful : Tree → Prop
  | atom {t : Token} : t.kind.isAtom = true → Faithful (.atom (some t) t.lexeme)
  | list {opening : Token} {items : List Tree} : opening.kind = .openParen →
      (∀ item ∈ items, Faithful item) → Faithful (.list (some opening) items)

theorem tokens_atom (t : Token) (text : String) : (atom (some t) text).tokens = [t] := by
  rw [tokens, Option.toList_some]

theorem tokens_list (opening : Token) (items : List Tree) :
    (list (some opening) items).tokens = opening :: items.flatMap tokens ++ [.closing] := by
  rw [tokens, Option.toList_some, tokensAll_eq_flatMap, List.singleton_append]

end Tree

namespace Parser

/-! ## The grammar generates what trees are written with -/

/-- Each list of tokens is that of a tree, and so all of them together that of the trees. -/
theorem exists_forest {items : List (List Token)}
    (each : ∀ item ∈ items, ∃ t : Tree, t.Faithful ∧ t.tokens = item.map Token.normal) :
    ∃ trees : List Tree, (∀ t ∈ trees, t.Faithful) ∧
      trees.flatMap Tree.tokens = items.flatten.map Token.normal := by
  induction items with
  | nil => exact ⟨[], nofun, rfl⟩
  | cons item items ih =>
    obtain ⟨⟨t, ht, hi⟩, each⟩ := List.forall_mem_cons.mp each
    obtain ⟨trees, hts, his⟩ := ih each
    refine ⟨t :: trees, List.forall_mem_cons.mpr ⟨ht, hts⟩, ?_⟩
    rw [List.flatMap_cons, hi, his, List.flatten_cons, List.map_append]

theorem Expression.exists_tree {ts : List Token} (h : Expression ts) :
    ∃ t : Tree, t.Faithful ∧ t.tokens = ts.map Token.normal := by
  induction h with
  | @atom t ha =>
    refine ⟨_, .atom ha, ?_⟩
    rw [Tree.tokens_atom, List.map_singleton, Token.normal_of_isAtom ha]
  | @list opening closing items ho hc _ ih =>
    obtain ⟨trees, faithful, body⟩ := exists_forest ih
    refine ⟨_, .list ho faithful, ?_⟩
    rw [Tree.tokens_list, body, List.map_append, List.map_cons, List.map_singleton,
      Token.normal_of_open ho, Token.normal_of_close hc]

/-- The tokens of trees fall into those of each tree. -/
theorem expressions_of_each {trees : List Tree}
    (each : ∀ t ∈ trees, ∀ ts, ts.map Token.normal = t.tokens → Expression ts) {ts : List Token}
    (h : ts.map Token.normal = trees.flatMap Tree.tokens) : Expressions ts := by
  induction trees generalizing ts with
  | nil =>
    obtain rfl := List.map_eq_nil_iff.mp h
    exact ⟨[], nofun, rfl⟩
  | cons t trees ih =>
    obtain ⟨head, each⟩ := List.forall_mem_cons.mp each
    obtain ⟨front, back, rfl, hf, hb⟩ := List.map_eq_append_iff.mp h
    obtain ⟨items, exprs, rfl⟩ := ih each hb
    exact ⟨front :: items, List.forall_mem_cons.mpr ⟨head front hf, exprs⟩, rfl⟩

theorem expression_of_faithful {t : Tree} (h : t.Faithful) {ts : List Token}
    (hts : ts.map Token.normal = t.tokens) : Expression ts := by
  induction h generalizing ts with
  | @atom u ha =>
    rw [Tree.tokens_atom] at hts
    obtain ⟨v, rfl, hv⟩ := List.map_eq_singleton_iff.mp hts
    refine .atom ?_
    rw [← Token.kind_normal, hv]
    exact ha
  | @list opening items ho _ ih =>
    rw [Tree.tokens_list] at hts
    obtain ⟨front, back, rfl, hf, hb⟩ := List.map_eq_append_iff.mp hts
    obtain ⟨o, body, rfl, hopen, hbody⟩ := List.map_eq_cons_iff.mp hf
    obtain ⟨c, rfl, hclose⟩ := List.map_eq_singleton_iff.mp hb
    obtain ⟨parts, exprs, rfl⟩ := expressions_of_each (fun t ht _ h => ih t ht h) hbody
    refine .list ?_ ?_ exprs
    · rw [← Token.kind_normal, hopen, ho]
    · rw [← Token.kind_normal, hclose]
      rfl

/-- A list of tokens is made of expressions just if trees are written so. -/
theorem expressions_iff {ts : List Token} :
    Expressions ts ↔ ∃ trees : List Tree, (∀ t ∈ trees, t.Faithful) ∧
      trees.flatMap Tree.tokens = ts.map Token.normal := by
  constructor
  · rintro ⟨items, each, rfl⟩
    exact exists_forest fun item hi => (each item hi).exists_tree
  · rintro ⟨trees, faithful, h⟩
    exact expressions_of_each (fun t ht _ hts => expression_of_faithful (faithful t ht) hts) h.symm

/-! ## The machine reads a tree from its tokens -/

namespace State

theorem step_open (s : State) {t : Token} (h : t.kind = .openParen) :
    s.step t = .ok ⟨s.trees, ⟨t, []⟩ :: s.stack⟩ := by
  simp only [step, h]

theorem step_close (trees : List Tree) (f : Frame) (fs : List Frame) {t : Token}
    (h : t.kind = .closeParen) : step ⟨trees, f :: fs⟩ t = .ok (add ⟨trees, fs⟩ f.close) := by
  simp only [step, h]

theorem step_atom (s : State) {t : Token} (h : t.kind.isAtom = true) :
    s.step t = .ok (s.add (.atom (some t) t.lexeme)) := by
  rcases Token.Kind.isAtom_cases h with hk | hk | hk | hk | hk | hk | hk <;> simp only [step, hk]

/-- All that a token can do. -/
theorem step_cases {s s' : State} {t : Token} (h : s.step t = .ok s') :
    (t.kind = .openParen ∧ s' = ⟨s.trees, ⟨t, []⟩ :: s.stack⟩) ∨
    (t.kind = .closeParen ∧ ∃ f fs, s.stack = f :: fs ∧ s' = add ⟨s.trees, fs⟩ f.close) ∨
    (t.kind.isAtom = true ∧ s' = s.add (.atom (some t) t.lexeme)) := by
  obtain ⟨trees, stack⟩ := s
  have atom (ha : t.kind.isAtom = true) : s' = add ⟨trees, stack⟩ (.atom (some t) t.lexeme) := by
    rw [step_atom _ ha] at h
    exact (Except.ok.inj h).symm
  cases hk : t.kind with
  | openParen =>
    rw [step_open _ hk] at h
    exact .inl ⟨rfl, (Except.ok.inj h).symm⟩
  | closeParen =>
    cases stack with
    | nil => simp [step, hk] at h
    | cons f fs =>
      rw [step_close _ _ _ hk] at h
      exact .inr (.inl ⟨rfl, f, fs, rfl, (Except.ok.inj h).symm⟩)
  | eof | invalid => simp [step, hk] at h
  | number | string | symbol | plus | minus | star | slash =>
    exact .inr (.inr ⟨rfl, atom (by rw [hk]; rfl)⟩)

/-- Only the token itself is ever blamed. -/
theorem step_error {s : State} {t u : Token} (h : s.step t = .error u) : u = t := by
  obtain ⟨trees, stack⟩ := s
  unfold step at h
  split at h
  · cases h
  · split at h
    · cases h
      rfl
    · cases h
  · cases h
    rfl
  · cases h
    rfl
  all_goals cases h

theorem foldl_add_nil (front trees : List Tree) :
    trees.foldl add ⟨front, []⟩ = ⟨front ++ trees, []⟩ := by
  induction trees generalizing front with
  | nil => simp
  | cons t trees ih =>
    rw [List.foldl_cons]
    exact (ih (front ++ [t])).trans (by simp)

theorem foldl_add_cons (front trees : List Tree) (f : Frame) (fs : List Frame) :
    trees.foldl add ⟨front, f :: fs⟩ = ⟨front, ⟨f.opening, trees.reverse ++ f.items⟩ :: fs⟩ := by
  induction trees generalizing f with
  | nil => rfl
  | cons t trees ih =>
    rw [List.foldl_cons]
    exact (ih (f.push t)).trans (by simp [Frame.push])

theorem feed_forest {trees : List Tree}
    (each : ∀ t ∈ trees, ∀ s : State, s.feed t.tokens = .ok (s.add t)) (s : State) :
    s.feed (trees.flatMap Tree.tokens) = .ok (trees.foldl add s) := by
  induction trees generalizing s with
  | nil => rfl
  | cons t trees ih =>
    obtain ⟨head, each⟩ := List.forall_mem_cons.mp each
    rw [List.flatMap_cons, feed_append, head s]
    exact ih each (s.add t)

/-- Fed with the tokens of a tree, the machine completes that tree, wherever it is. -/
theorem feed_tokens {t : Tree} (h : t.Faithful) (s : State) : s.feed t.tokens = .ok (s.add t) := by
  induction h generalizing s with
  | atom ha =>
    rw [Tree.tokens_atom, feed_cons, step_atom s ha]
    rfl
  | @list opening items ho _ ih =>
    have body := feed_forest ih ⟨s.trees, ⟨opening, []⟩ :: s.stack⟩
    have close := step_close s.trees ⟨opening, items.reverse⟩ s.stack (t := .closing) rfl
    rw [foldl_add_cons, List.append_nil] at body
    rw [Frame.close, List.reverse_reverse] at close
    calc s.feed (Tree.list (some opening) items).tokens
        = State.feed ⟨s.trees, ⟨opening, []⟩ :: s.stack⟩
            (items.flatMap Tree.tokens ++ [.closing]) := by
          rw [Tree.tokens_list, List.cons_append, feed_cons, step_open s ho]
          rfl
      _ = State.feed ⟨s.trees, ⟨opening, items.reverse⟩ :: s.stack⟩ [.closing] := by
          rw [feed_append, body]
          rfl
      _ = .ok (s.add (.list (some opening) items)) := by
          rw [feed_cons, close]
          rfl

/-- To the machine all closing tokens are the same. -/
theorem step_normal (s : State) (t : Token) :
    s.step t.normal = (s.step t).mapError Token.normal := by
  by_cases hk : t.kind = .closeParen
  · obtain ⟨trees, _ | ⟨f, fs⟩⟩ := s
    · simp only [step, Token.kind_normal, hk]
      rfl
    · rw [step_close _ _ _ hk, step_close _ _ _ ((Token.kind_normal t).trans hk)]
      rfl
  · rw [Token.normal_of_ne hk]
    cases h : s.step t with
    | ok s' => rfl
    | error u =>
      obtain rfl := step_error h
      exact congrArg Except.error (Token.normal_of_ne hk).symm

theorem feed_normal (s : State) (ts : List Token) :
    s.feed (ts.map Token.normal) = (s.feed ts).mapError Token.normal := by
  induction ts generalizing s with
  | nil => rfl
  | cons t ts ih =>
    rw [List.map_cons, feed_cons, feed_cons, step_normal]
    cases s.step t with
    | error u => rfl
    | ok s => exact ih s

/-! ## What the machine has built is written with the tokens it took -/

def tokens (s : State) : List Token :=
  s.trees.flatMap Tree.tokens ++
    s.stack.reverse.flatMap fun f => f.opening :: f.items.reverse.flatMap Tree.tokens

/-- Whatever is built so far is faithful. -/
structure Sound (s : State) : Prop where
  trees : ∀ t ∈ s.trees, t.Faithful
  frames : ∀ f ∈ s.stack, f.opening.kind = .openParen ∧ ∀ t ∈ f.items, t.Faithful

theorem tokens_add (s : State) (t : Tree) : (s.add t).tokens = s.tokens ++ t.tokens := by
  obtain ⟨trees, _ | ⟨f, fs⟩⟩ := s
  · simp [add, tokens]
  · simp [add, tokens, Frame.push]

theorem Sound.add {s : State} (h : s.Sound) {t : Tree} (ht : t.Faithful) : (s.add t).Sound := by
  obtain ⟨trees, _ | ⟨f, fs⟩⟩ := s
  · refine ⟨List.forall_mem_append.mpr ⟨h.trees, ?_⟩, nofun⟩
    simpa using ht
  · obtain ⟨⟨hf, items⟩, hfs⟩ := List.forall_mem_cons.mp h.frames
    have pushed : ∀ u ∈ (f.push t).items, u.Faithful := List.forall_mem_cons.mpr ⟨ht, items⟩
    exact ⟨h.trees, List.forall_mem_cons.mpr ⟨⟨hf, pushed⟩, hfs⟩⟩

theorem Sound.step {s s' : State} (h : s.Sound) {t : Token} (hs : s.step t = .ok s') :
    s'.Sound ∧ s'.tokens = s.tokens ++ [t.normal] := by
  obtain ⟨ho, rfl⟩ | ⟨hc, f, fs, hstack, rfl⟩ | ⟨ha, rfl⟩ := step_cases hs
  · refine ⟨⟨h.trees, List.forall_mem_cons.mpr ⟨⟨ho, nofun⟩, h.frames⟩⟩, ?_⟩
    rw [Token.normal_of_open ho]
    simp [tokens]
  · obtain ⟨trees, stack⟩ := s
    dsimp only at hstack
    subst hstack
    obtain ⟨⟨hf, items⟩, hfs⟩ := List.forall_mem_cons.mp h.frames
    have rest : Sound ⟨trees, fs⟩ := ⟨h.trees, hfs⟩
    have closed : f.close.Faithful := .list hf fun t ht => items t (List.mem_reverse.mp ht)
    refine ⟨rest.add closed, ?_⟩
    rw [tokens_add, Token.normal_of_close hc]
    simp [tokens, Frame.close, Tree.tokens_list]
  · refine ⟨h.add (.atom ha), ?_⟩
    rw [tokens_add, Tree.tokens_atom, Token.normal_of_isAtom ha]

theorem Sound.feed {s s' : State} (h : s.Sound) {ts : List Token} (hs : s.feed ts = .ok s') :
    s'.Sound ∧ s'.tokens = s.tokens ++ ts.map Token.normal := by
  induction ts generalizing s with
  | nil =>
    cases hs
    exact ⟨h, (List.append_nil _).symm⟩
  | cons t ts ih =>
    rw [feed_cons] at hs
    cases hstep : s.step t with
    | error u =>
      rw [hstep] at hs
      cases hs
    | ok mid =>
      rw [hstep] at hs
      obtain ⟨hmid, front⟩ := h.step hstep
      obtain ⟨hlast, whole⟩ := ih hmid hs
      exact ⟨hlast, by rw [whole, front, List.map_cons, List.append_assoc, List.singleton_append]⟩

end State

/-! ## The parser -/

/-- Trees are read from just the tokens that they are written with. -/
theorem outcome_ok_iff {body : List Token} {trees : List Tree} :
    outcome (State.start.feed body) = .ok trees ↔ (∀ t ∈ trees, t.Faithful) ∧
      trees.flatMap Tree.tokens = body.map Token.normal := by
  constructor
  · intro h
    have sound : State.start.Sound := ⟨nofun, nofun⟩
    obtain ⟨built, written⟩ := sound.feed (feed_of_outcome_ok h)
    have faithful := built.trees
    simp only [State.tokens, State.behind, State.start, List.append_nil, List.reverse_nil,
      List.flatMap_nil, List.nil_append] at faithful written
    exact ⟨faithful, written⟩
  · rintro ⟨faithful, written⟩
    -- The machine goes through the normal tokens, and so through those they stand for.
    have fed := State.feed_forest (fun t ht s => State.feed_tokens (faithful t ht) s) .start
    rw [written, State.feed_normal, State.start, State.foldl_add_nil] at fed
    change (State.start.feed body).mapError Token.normal = .ok ⟨trees, []⟩ at fed
    cases hr : State.start.feed body with
    | error t =>
      rw [hr] at fed
      cases fed
    | ok s =>
      rw [hr] at fed
      cases fed
      rfl

theorem all_eq_outcome_beforeEnd (ts : List Token) :
    (all ts).1 = outcome (State.start.feed (beforeEnd ts)) := by
  have noEnd : ∀ t ∈ beforeEnd ts, t.kind ≠ .eof := fun t ht => by
    simpa using List.mem_takeWhile_imp ht
  have ended : atEnd (ts.dropWhile (·.kind ≠ .eof)) = true := by
    have stop := List.head?_dropWhile_not (·.kind ≠ .eof) ts
    cases h : ts.dropWhile (·.kind ≠ .eof) with
    | nil => rfl
    | cons t rest =>
      rw [h] at stop
      simpa [atEnd] using stop
  have whole := all_eq_outcome noEnd ended
  rwa [beforeEnd, List.takeWhile_append_dropWhile] at whole

theorem all_ok_iff {ts : List Token} {trees : List Tree} :
    (all ts).1 = .ok trees ↔ (∀ t ∈ trees, t.Faithful) ∧
      trees.flatMap Tree.tokens = (beforeEnd ts).map Token.normal := by
  rw [all_eq_outcome_beforeEnd, outcome_ok_iff]

/-- The parser accepts the tokens that the grammar generates. Its trees are written with these
tokens, and no others are. -/
theorem all_accepts_iff (ts : List Token) :
    ((∃ trees, (all ts).1 = .ok trees) ↔ Expressions (beforeEnd ts)) ∧
    ∀ trees, (all ts).1 = .ok trees →
      (∀ t ∈ trees, t.Faithful) ∧
      trees.flatMap Tree.tokens = (beforeEnd ts).map Token.normal ∧
      ∀ others : List Tree, (∀ t ∈ others, t.Faithful) →
        others.flatMap Tree.tokens = (beforeEnd ts).map Token.normal → others = trees := by
  constructor
  · simp only [all_ok_iff, expressions_iff]
  · intro trees h
    obtain ⟨faithful, written⟩ := all_ok_iff.mp h
    refine ⟨faithful, written, fun others faithful' written' => ?_⟩
    have same := all_ok_iff.mpr ⟨faithful', written'⟩
    rw [h] at same
    exact (Except.ok.inj same).symm

end Parser

theorem exists_tokens_of_parse {source : List UInt8} {trees : List Tree}
    (h : parse source = .ok trees) :
    ∃ tokens, tokenize source = .ok tokens ∧ (Parser.all tokens).1 = .ok trees := by
  unfold parse at h
  split at h
  · cases h
  · rename_i tokens cut
    split at h
    · rename_i read
      cases h
      exact ⟨tokens, cut, read⟩
    · cases h

end Lisplet
