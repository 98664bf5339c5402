import Lisplet.Proofs.Reading
import Lisplet.Proofs.Utf8
import Lisplet.Proofs.Yield
import Lisplet.Tree.Printer

/-! Trees that are written and read again. Where every atom is a word by itself, and not a string,
the spaces and parentheses that are written keep the words apart, and the same trees are read. -/
namespace Lisplet

/-- The kinds of words that are written as they are read. -/
def Token.Kind.Plain (k : Token.Kind) : Prop := k = .number ∨ k = .symbol ∨ k.isOperator = true

/-- The text is by itself one word, and no string. -/
def PlainWord (text : String) : Prop :=
  ∃ t eof : Token, tokenize (Text.Utf8.bytes text) = .ok [t, eof] ∧ t.lexeme = text ∧
    t.kind.Plain ∧ eof.kind = .eof ∧ text.toList.head? ≠ some '\uFEFF'

/-- A tree of atoms and lists with plain words for atoms. -/
inductive Tree.Legible : Tree → Prop
  | atom {token : Option Token} {text : String} : PlainWord text → Legible (.atom token text)
  | list {token : Option Token} {items : List Tree} : (∀ item ∈ items, Legible item) →
      Legible (.list token items)

/-! ## Plain words -/

theorem Token.Kind.Plain.isAtom {k : Token.Kind} (h : k.Plain) : k.isAtom = true := by
  rcases h with rfl | rfl | h
  · rfl
  · rfl
  · rw [Kind.isAtom.eq_def]
    split <;> simp_all

namespace Lexer

theorem sourceChars_bytes {text : String} (h : text.toList.head? ≠ some '\uFEFF') :
    sourceChars (Text.Utf8.bytes text) = text.toList := by
  have noMark : ∀ c ∈ (Text.Utf8.decode (Text.Utf8.bytes text)).head?, c ≠ '\uFEFF' := by
    rw [Text.Utf8.decode_bytes]
    rintro c hc rfl
    exact h hc
  rw [sourceChars_of_noMark noMark, Text.Utf8.decode_bytes]

theorem Word.length_lexeme_le {rest : List Char} {p : Piece} (h : Word rest p) :
    p.lexeme.length ≤ p.span.length := by
  cases h with
  | string => simp [Piece.quoted]; omega
  | mark | minus | number | symbol => exact Nat.le_refl _

theorem Cuts.length_lexeme_le {cs : List Char} {segments : List Segment} (h : Cuts cs segments)
    (before : List Char) : ∀ t ∈ placed before segments, t.lexeme.toList.length ≤ cs.length := by
  induction h generalizing before with
  | nil => exact nofun
  | blank _ _ ih => exact fun t ht => Nat.le_succ_of_le (ih _ t ht)
  | @word p rest segments hw _ ih =>
    have own := hw.length_lexeme_le
    intro t ht
    rw [List.length_append]
    rcases List.mem_cons.mp ht with rfl | ht
    · simp only [Piece.token, String.toList_ofList]
      omega
    · have later := ih _ t ht
      omega

/-- A text that is its own only token is a word, with nothing in front of it or behind. -/
theorem Cuts.word_of_placed {cs before : List Char} {segments : List Segment} {t : Token}
    (h : Cuts cs segments) (only : placed before segments = [t]) (own : t.lexeme.toList = cs) :
    ∃ p, Word [] p ∧ p.lexeme = cs ∧ p.span = cs ∧ p.kind = t.kind := by
  cases h with
  | nil => cases only
  | @blank c rest segments _ hr =>
    have short := hr.length_lexeme_le (before ++ [c]) t (only ▸ List.mem_cons_self)
    rw [own, List.length_cons] at short
    omega
  | @word p rest segments hw hr =>
    obtain ⟨rfl, -⟩ := List.cons.inj only
    simp only [Piece.token, String.toList_ofList] at own
    have short := hw.length_lexeme_le
    have none : rest = [] := by
      have size := congrArg List.length own
      rw [List.length_append] at size
      exact List.eq_nil_of_length_eq_zero (by omega)
    subst none
    rw [List.append_nil] at own ⊢
    exact ⟨p, hw, own, rfl, rfl⟩

theorem word_of_plainWord {text : String} (h : PlainWord text) :
    ∃ p, Word [] p ∧ p.lexeme = text.toList ∧ p.span = text.toList ∧ p.kind.Plain := by
  obtain ⟨t, eof, read, own, kind, -, noMark⟩ := h
  rw [tokenize, Cursor.ofSource, sourceChars_bytes noMark] at read
  obtain ⟨segments, cuts, tokens⟩ := (tokens_iff text.toList []).mp read
  have only : placed [] segments = [t] := by
    have split : [t] ++ [eof] = placed [] segments ++ _ := tokens
    exact (List.append_inj' split rfl).1.symm
  obtain ⟨p, hw, lexeme, span, same⟩ := cuts.word_of_placed only (by rw [own])
  exact ⟨p, hw, lexeme, span, same ▸ kind⟩

theorem Word.span_eq_lexeme {rest : List Char} {p : Piece} (h : Word rest p)
    (kind : p.kind.Plain) : p.span = p.lexeme := by
  cases h with
  | string => rcases kind with h | h | h <;> cases h
  | mark | minus | number | symbol => rfl

theorem plainWord_of_word {rest : List Char} {p : Piece} (h : Word rest p)
    (kind : p.kind.Plain) : PlainWord (String.ofList p.lexeme) := by
  have span := h.span_eq_lexeme kind
  have read := Cursor.tokens_word h.alone .start
  rw [List.append_nil, Cursor.tokens_nil, span] at read
  -- No word starts with a byte order mark, though a source may.
  have noMark : p.lexeme.head? ≠ some '\uFEFF' := by
    intro hm
    obtain ⟨cs, hl⟩ := List.head?_eq_some_iff.mp hm
    have stuck := Cursor.tokens_cut_error (by decide) (cut_mark cs) .start
    rw [← hl, read] at stuck
    cases stuck
  have noMark' : (String.ofList p.lexeme).toList.head? ≠ some '\uFEFF' := by
    rwa [String.toList_ofList]
  refine ⟨p.token .start, ⟨.eof, "", none, Position.start.advance p.lexeme⟩, ?_, rfl, kind, rfl,
    noMark'⟩
  rw [tokenize, Cursor.ofSource, sourceChars_bytes noMark', String.toList_ofList, read]
  rfl

end Lexer

/-! ## What is written is read -/

open Lexer (Cursor Word)

/-- What may stand behind an expression. -/
def Stops (rest : List Char) : Prop := ∀ c ∈ rest.head?, Lexer.endsSymbol c = true

/-- In front of `rest` the text is read as the tokens of trees that are like these. -/
def ReadAs (cs rest : List Char) (trees : List Tree) : Prop :=
  ∀ start : Position, ∃ (next : Position) (body : List Token) (own : List Tree),
    (⟨start, cs ++ rest⟩ : Cursor).tokens = (⟨next, rest⟩ : Cursor).tokens.map (body ++ ·) ∧
    (∀ t ∈ own, t.Faithful) ∧ own.flatMap Tree.tokens = body.map Token.normal ∧
    List.Forall₂ Tree.Alike own trees

namespace ReadAs

theorem nil (rest : List Char) : ReadAs [] rest [] := by
  intro start
  exact ⟨start, [], [], (Fallible.map_append_nil _).symm, nofun, rfl, .nil⟩

theorem append {cs ds rest : List Char} {ts us : List Tree} (h : ReadAs cs (ds ++ rest) ts)
    (h' : ReadAs ds rest us) : ReadAs (cs ++ ds) rest (ts ++ us) := by
  intro start
  obtain ⟨mid, body, own, read, faithful, written, alike⟩ := h start
  obtain ⟨next, body', own', read', faithful', written', alike'⟩ := h' mid
  refine ⟨next, body ++ body', own ++ own', ?_, ?_, ?_, List.rel_append alike alike'⟩
  · rw [List.append_assoc, read, read', Fallible.map_map_append]
  · exact List.forall_mem_append.mpr ⟨faithful, faithful'⟩
  · rw [List.flatMap_append, written, written', List.map_append]

theorem blank {c : Char} (hc : Lexer.isBlank c = true) {cs rest : List Char} {ts : List Tree}
    (h : ReadAs cs rest ts) : ReadAs (c :: cs) rest ts := by
  intro start
  rw [List.cons_append, Cursor.tokens_blank hc]
  exact h (start.next c)

theorem atom {text : String} (h : PlainWord text) {rest : List Char} (stops : Stops rest)
    (token : Option Token) : ReadAs text.toList rest [.atom token text] := by
  intro start
  obtain ⟨p, hw, lexeme, span, kind⟩ := Lexer.word_of_plainWord h
  have hw : Word rest p := by
    cases rest with
    | nil => exact hw
    | cons b more => exact hw.append (stops b rfl)
  have isAtom : (p.token start).kind.isAtom = true := kind.isAtom
  have own : (p.token start).lexeme = text := by
    rw [Lexer.Piece.token, lexeme, String.ofList_toList]
  refine ⟨start.advance p.span, [p.token start],
    [.atom (some (p.token start)) (p.token start).lexeme], ?_, ?_, ?_, ?_⟩
  · rw [← span, Cursor.tokens_word hw]
    rfl
  · exact List.forall_mem_singleton.mpr (.atom isAtom)
  · rw [List.flatMap_singleton, Tree.tokens_atom, List.map_singleton,
      Token.normal_of_isAtom isAtom]
  · rw [own]
    exact .cons (decide_eq_true rfl) .nil

theorem list {cs rest : List Char} {items : List Tree} (h : ReadAs cs (')' :: rest) items)
    (token : Option Token) : ReadAs ('(' :: cs ++ [')']) rest [.list token items] := by
  intro start
  have opening (more : List Char) : Word more (.plain .openParen ['('] none) := .mark (by simp)
  have closing (more : List Char) : Word more (.plain .closeParen [')'] none) := .mark (by simp)
  -- The places in the text are not those of the given tokens, so the trees are only alike.
  obtain ⟨mid, body, own, read, faithful, written, alike⟩ := h (start.advance ['('])
  have first := Cursor.tokens_word (opening (cs ++ ')' :: rest)) start
  have last := Cursor.tokens_word (closing rest) mid
  change (⟨start, '(' :: (cs ++ ')' :: rest)⟩ : Cursor).tokens =
    (⟨start.advance ['('], cs ++ ')' :: rest⟩ : Cursor).tokens.map (_ :: ·) at first
  change (⟨mid, ')' :: rest⟩ : Cursor).tokens =
    (⟨mid.advance [')'], rest⟩ : Cursor).tokens.map ([_] ++ ·) at last
  rw [read, last, Fallible.map_map_append] at first
  let o := (Lexer.Piece.plain .openParen ['('] none).token start
  let c := (Lexer.Piece.plain .closeParen [')'] none).token mid
  refine ⟨mid.advance [')'], o :: body ++ [c], [.list (some o) own], ?_, ?_, ?_, ?_⟩
  · have whole : '(' :: cs ++ [')'] ++ rest = '(' :: (cs ++ ')' :: rest) := by simp
    rw [whole, first]
    exact Fallible.map_map_append _ [o] (body ++ [c])
  · exact List.forall_mem_singleton.mpr (.list rfl faithful)
  · rw [List.flatMap_singleton, Tree.tokens_list, written, List.map_append, List.map_cons,
      List.map_singleton, Token.normal_of_open rfl, Token.normal_of_close rfl]
  · exact .cons (Tree.alikeAll_iff.mpr alike) .nil

/-- A space between trees keeps them apart. -/
theorem charsAll {trees : List Tree}
    (each : ∀ t ∈ trees, ∀ rest, Stops rest → ReadAs t.chars rest [t]) {rest : List Char}
    (stops : Stops rest) : ReadAs (Tree.charsAll trees) rest trees := by
  induction trees with
  | nil =>
    rw [Tree.charsAll]
    exact nil rest
  | cons t trees ih =>
    obtain ⟨head, each⟩ := List.forall_mem_cons.mp each
    cases trees with
    | nil =>
      rw [Tree.charsAll]
      exact head rest stops
    | cons u trees =>
      have space : Stops ((' ' :: Tree.charsAll (u :: trees)) ++ rest) := by
        rintro c ⟨⟩
        rfl
      rw [Tree.charsAll]
      exact (head _ space).append ((ih each).blank rfl)

theorem chars {t : Tree} (h : t.Legible) {rest : List Char} (stops : Stops rest) :
    ReadAs t.chars rest [t] := by
  induction h generalizing rest with
  | @atom token text word =>
    rw [Tree.chars]
    exact atom word stops token
  | @list token items _ ih =>
    have close : Stops (')' :: rest) := by
      rintro c ⟨⟩
      rfl
    rw [Tree.chars]
    exact (charsAll (fun t ht _ hs => ih t ht hs) close).list token

/-- All of a text that is read as trees gives trees like these. -/
theorem parse_ofList {cs : List Char} {trees : List Tree} (h : ReadAs cs [] trees) :
    ∃ again, parse (Text.Utf8.bytes (String.ofList cs)) = .ok again ∧
      List.Forall₂ Tree.Alike again trees := by
  obtain ⟨next, body, own, read, faithful, written, alike⟩ := h .start
  rw [List.append_nil, Cursor.tokens_nil] at read
  change (⟨.start, cs⟩ : Cursor).tokens = .ok (body ++ [_]) at read
  have noEnd := (Lexer.tokens_ok_cases read).1
  have trees : readFrom .start cs = .ok own := by
    rw [readFrom_of_tokens noEnd rfl read, Parser.outcome_ok_iff.mpr ⟨faithful, written⟩]
    rfl
  have decoded : Text.Utf8.decode (Text.Utf8.bytes (String.ofList cs)) = cs := by
    rw [Text.Utf8.decode_bytes, String.toList_ofList]
  rw [← decoded] at trees
  obtain ⟨again, parsed, like⟩ := parse_of_readFrom trees
  exact ⟨again, parsed, Tree.alikeAll_trans (Tree.alikeAll_symm like) alike⟩

end ReadAs

/-! ## Trees that can be written -/

namespace Tree

theorem anyBlank_eq_false {ts : List Tree} (h : ∀ t ∈ ts, t.hasBlank = false) :
    anyBlank ts = false := by
  induction ts with
  | nil => rfl
  | cons t ts ih =>
    obtain ⟨head, tail⟩ := List.forall_mem_cons.mp h
    rw [anyBlank, head, ih tail]
    rfl

theorem Legible.hasBlank_eq_false {t : Tree} (h : t.Legible) : t.hasBlank = false := by
  induction h with
  | atom => rfl
  | list _ ih =>
    rw [hasBlank]
    exact anyBlank_eq_false ih

theorem encodeAll_of_legible {ts : List Tree} (h : ∀ t ∈ ts, t.Legible) :
    encodeAll ts = .ok (String.ofList (charsAll ts)) := by
  have none := anyBlank_eq_false fun t ht => (h t ht).hasBlank_eq_false
  rw [encodeAll, none]
  rfl

mutual

theorem chars_bare : ∀ t : Tree, t.bare.chars = t.chars
  | absent | blank => rfl
  | atom .. => by simp only [bare, chars]
  | list _ items => by simp only [bare, chars, charsAll_bareAll items]

theorem charsAll_bareAll : ∀ ts : List Tree, charsAll (bareAll ts) = charsAll ts
  | [] => rfl
  | [t] => by simp only [bareAll, charsAll, chars_bare t]
  | t :: u :: ts => by
    have rest := charsAll_bareAll (u :: ts)
    simp only [bareAll] at rest
    simp only [bareAll, charsAll, chars_bare t, rest]

end

mutual

theorem hasBlank_bare : ∀ t : Tree, t.bare.hasBlank = t.hasBlank
  | absent | blank => rfl
  | atom .. => by simp only [bare, hasBlank]
  | list _ items => by simp only [bare, hasBlank, anyBlank_bareAll items]

theorem anyBlank_bareAll : ∀ ts : List Tree, anyBlank (bareAll ts) = anyBlank ts
  | [] => rfl
  | t :: ts => by simp only [bareAll, anyBlank, hasBlank_bare t, anyBlank_bareAll ts]

end

/-- Tokens do not show in the text of a tree. -/
theorem encodeAll_alike {xs ys : List Tree} (h : List.Forall₂ Alike xs ys) :
    encodeAll xs = encodeAll ys := by
  rw [← alikeAll_iff, alikeAll_iff_bareAll] at h
  have chars := congrArg charsAll h
  have blanks := congrArg anyBlank h
  rw [charsAll_bareAll, charsAll_bareAll] at chars
  rw [anyBlank_bareAll, anyBlank_bareAll] at blanks
  rw [encodeAll, encodeAll, chars, blanks]

end Tree

/-! ## Trees that were read -/

theorem Token.Kind.Plain.of_isAtom {k : Token.Kind} (h : k.isAtom = true) (hs : k ≠ .string) :
    k.Plain := by
  rcases Kind.isAtom_cases h with rfl | rfl | rfl | rfl | rfl | rfl | rfl
  · exact .inl rfl
  · exact absurd rfl hs
  · exact .inr (.inl rfl)
  all_goals exact .inr (.inr rfl)

theorem Lexer.Cuts.plainWord {cs before : List Char} {segments : List Segment}
    (h : Cuts cs segments) : ∀ t ∈ placed before segments, t.kind.Plain → PlainWord t.lexeme := by
  induction h generalizing before with
  | nil => exact nofun
  | blank _ _ ih => exact ih
  | word hw _ ih => exact List.forall_mem_cons.mpr ⟨plainWord_of_word hw, ih⟩

theorem Tree.Faithful.legible {t : Tree} (h : t.Faithful)
    (each : ∀ u ∈ t.tokens, u.kind.isAtom = true → PlainWord u.lexeme) : t.Legible := by
  induction h with
  | @atom u ha =>
    have here : u ∈ (Tree.atom (some u) u.lexeme).tokens := by
      rw [tokens_atom]
      exact List.mem_singleton_self u
    exact .atom (each u here ha)
  | @list opening items _ _ ih =>
    refine .list fun item hi => ih item hi fun u hu => each u ?_
    rw [tokens_list]
    exact .tail _ (List.mem_append_left _ (List.mem_flatMap.mpr ⟨item, hi, hu⟩))

/-- Without strings, all that is read can be written and read again. -/
theorem legible_of_parse {source : List UInt8} {tokens : List Token} {trees : List Tree}
    (ht : tokenize source = .ok tokens) (noString : ∀ t ∈ tokens, t.kind ≠ .string)
    (hp : parse source = .ok trees) : ∀ t ∈ trees, t.Legible := by
  obtain ⟨own, cut, read⟩ := exists_tokens_of_parse hp
  obtain rfl : tokens = own := Except.ok.inj (ht.symm.trans cut)
  obtain ⟨segments, cuts, rfl⟩ := (Lexer.tokens_iff (Lexer.sourceChars source) []).mp ht
  generalize hts : Lexer.placed [] segments ++ _ = tokens at *
  obtain ⟨faithful, written⟩ := Parser.all_ok_iff.mp read
  refine fun t hmem => (faithful t hmem).legible fun u hu ha => ?_
  have among : u ∈ (Parser.beforeEnd tokens).map Token.normal := by
    rw [← written]
    exact List.mem_flatMap.mpr ⟨t, hmem, hu⟩
  obtain ⟨v, hv, rfl⟩ := List.mem_map.mp among
  rw [Token.kind_normal] at ha
  rw [Token.normal_of_isAtom ha]
  have inside : v ∈ tokens := List.takeWhile_subset _ hv
  have plain := Token.Kind.Plain.of_isAtom ha (noString v inside)
  rw [← hts] at inside
  rcases List.mem_append.mp inside with word | last
  · exact cuts.plainWord v word plain
  · obtain rfl := List.mem_singleton.mp last
    cases ha

theorem exists_parse_of_legible {trees : List Tree} (h : ∀ t ∈ trees, t.Legible) :
    ∃ text again, Tree.encodeAll trees = .ok text ∧ parse (Text.Utf8.bytes text) = .ok again ∧
      List.Forall₂ Tree.Alike again trees := by
  have each : ∀ t ∈ trees, ∀ rest, Stops rest → ReadAs t.chars rest [t] :=
    fun t ht _ stops => .chars (h t ht) stops
  have whole : ReadAs (Tree.charsAll trees) [] trees := .charsAll each nofun
  obtain ⟨again, parsed, alike⟩ := whole.parse_ofList
  exact ⟨_, again, Tree.encodeAll_of_legible h, parsed, alike⟩

/-- Trees of plain words are read again from the text that is written for them. So are the trees of
any source without strings, and they are written with the same text again. -/
theorem parse_encodeAll :
    (∀ trees : List Tree, (∀ t ∈ trees, t.Legible) →
      ∃ text again, Tree.encodeAll trees = .ok text ∧ parse (Text.Utf8.bytes text) = .ok again ∧
        List.Forall₂ Tree.Alike again trees) ∧
    ∀ (source : List UInt8) (tokens : List Token) (trees : List Tree),
      tokenize source = .ok tokens → (∀ t ∈ tokens, t.kind ≠ .string) →
      parse source = .ok trees →
      ∃ text again, Tree.encodeAll trees = .ok text ∧ parse (Text.Utf8.bytes text) = .ok again ∧
        List.Forall₂ Tree.Alike again trees ∧ Tree.encodeAll again = .ok text := by
  refine ⟨fun trees legible => exists_parse_of_legible legible, fun source tokens trees => ?_⟩
  intro ht noString hp
  obtain ⟨text, again, encoded, parsed, alike⟩ :=
    exists_parse_of_legible (legible_of_parse ht noString hp)
  exact ⟨text, again, encoded, parsed, alike, (Tree.encodeAll_alike alike).trans encoded⟩

/-- Words without space between them, an empty list, and a name with a byte that is no text. -/
def crowdedSource : List UInt8 :=
  Text.Utf8.bytes "(12ab -3(-4 - 4)()" ++ [0x61, 0xFF] ++ Text.Utf8.bytes "1+)"

def crowdedText : String := "(12 ab -3 (-4 - 4) () a\uFFFD1+)"

theorem parse_encodeAll_crowdedSource :
    ∃ tokens trees again, tokenize crowdedSource = .ok tokens ∧
      (∀ t ∈ tokens, t.kind ≠ .string) ∧ parse crowdedSource = .ok trees ∧
      Tree.encodeAll trees = .ok crowdedText ∧
      parse (Text.Utf8.bytes crowdedText) = .ok again ∧ List.Forall₂ Tree.Alike again trees ∧
      Tree.encodeAll again = .ok crowdedText := by
  have words : (tokenize crowdedSource).toOption.map (fun ts => ts.all (·.kind ≠ .string)) =
      some true := by decide +kernel
  have written : (parse crowdedSource).toOption.map (fun ts => (Tree.encodeAll ts).toOption) =
      some (some crowdedText) := by decide +kernel
  cases ht : tokenize crowdedSource with
  | error e =>
    rw [ht] at words
    cases words
  | ok tokens =>
    cases hp : parse crowdedSource with
    | error e =>
      rw [hp] at written
      cases written
    | ok trees =>
      rw [ht] at words
      rw [hp] at written
      have noString : ∀ t ∈ tokens, t.kind ≠ .string := by
        simpa using List.all_eq_true.mp (Option.some.inj words)
      obtain ⟨text, again, encoded, parsed, alike, twice⟩ :=
        parse_encodeAll.2 crowdedSource tokens trees ht noString hp
      have same : text = crowdedText := by
        have own : (Tree.encodeAll trees).toOption = some crowdedText := Option.some.inj written
        rw [encoded] at own
        exact Option.some.inj own
      subst same
      exact ⟨tokens, trees, again, rfl, noString, rfl, encoded, parsed, alike, twice⟩

end Lisplet
