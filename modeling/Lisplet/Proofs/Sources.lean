import Lisplet.Command
import Lisplet.Proofs.Interactive
import Lisplet.Proofs.Soundness

/-! Where a program is cut into sources does not show. Run one after the other, sources print what
they print when they are joined to one, fail where it fails, and leave the same bindings behind. -/
namespace Lisplet

/-! ## Reading joined sources -/

/-- A complete source behind another one and a line feed is read as it is by itself, at other
places. -/
theorem parse_newline_append {front back : List UInt8} {trees own : List Tree}
    (h : parse front = .ok trees) (hb : parse back = .ok own)
    (noMark : (Text.Utf8.decode back).head? ≠ some '\uFEFF') :
    ∃ moved, parse (front ++ 0x0A :: back) = .ok (trees ++ moved) ∧
      List.Forall₂ Tree.Alike moved own := by
  let place := (Position.start.advance (Lexer.sourceChars front)).next '\n'
  have alone : readFrom .start (Text.Utf8.decode back) = .ok own := by
    rw [← hb, parse_eq_readFrom, Lexer.sourceChars_of_noMark]
    rintro c hc rfl
    exact noMark hc
  have moved := readFrom_offset place (q := .start) (by decide) (Text.Utf8.decode back)
  rw [Position.offset_start, alone] at moved
  refine ⟨own.map (Tree.relocate place.offset), ?_, ?_⟩
  · rw [parse_append_of_ok (b := 0x0A) (by decide) rfl front back h]
    change (readFrom _ ('\n' :: Text.Utf8.decode back)).map _ = _
    rw [readFrom_blank rfl, moved]
    rfl
  · rw [List.forall₂_map_left_iff, List.forall₂_same]
    exact fun t _ => t.relocate_alike _

theorem head_decode_joinLines {text : List UInt8} (texts : List (List UInt8))
    (noMark : (Text.Utf8.decode text).head? ≠ some '\uFEFF') :
    (Text.Utf8.decode (Session.joinLines (text :: texts))).head? ≠ some '\uFEFF' := by
  cases texts with
  | nil => rwa [Session.joinLines_singleton]
  | cons next texts =>
    rw [Session.joinLines_cons (List.cons_ne_nil _ _), Text.Utf8.decode_append (by decide),
      List.head?_append]
    cases hd : (Text.Utf8.decode text).head? with
    | none => exact fun same => absurd (Option.some.inj same) (by decide)
    | some c => rwa [hd] at noMark

/-- Joined sources are read one by one. -/
theorem parse_joinLines {texts : List (List UInt8)} {forests : List (List Tree)}
    (h : List.Forall₂ (fun text trees => parse text = .ok trees) texts forests)
    (noMark : ∀ text ∈ texts.tail, (Text.Utf8.decode text).head? ≠ some '\uFEFF') :
    ∃ trees, parse (Session.joinLines texts) = .ok trees ∧
      List.Forall₂ Tree.Alike trees forests.flatten := by
  induction h with
  | nil => exact ⟨[], parse_nil, .nil⟩
  | @cons text trees texts forests ht hts ih =>
    cases hts with
    | nil =>
      rw [Session.joinLines_singleton]
      refine ⟨trees, ht, ?_⟩
      rw [List.flatten_cons, List.flatten_nil, List.append_nil, List.forall₂_same]
      exact fun t _ => .refl t
    | @cons next _ texts _ hn hts =>
      obtain ⟨own, read, alike⟩ := ih fun text htext => noMark text (.tail _ htext)
      have head := head_decode_joinLines texts (noMark next List.mem_cons_self)
      obtain ⟨moved, whole, same⟩ := parse_newline_append ht read head
      refine ⟨trees ++ moved, ?_, ?_⟩
      · rwa [Session.joinLines_cons (List.cons_ne_nil _ _)]
      · rw [List.flatten_cons]
        exact List.rel_append (List.forall₂_same.mpr fun t _ => .refl t)
          (Tree.alikeAll_trans same alike)

/-! ## Evaluating in several goes -/

/-- Expressions behind one that fails are not evaluated. -/
theorem Interpreter.evalAll_append_of_halt {i : Interpreter} {ts : List Tree} {h : Halt}
    (failed : (i.evalAll ts).halt = some h) (us : List Tree) :
    i.evalAll (ts ++ us) = i.evalAll ts := by
  induction ts generalizing i with
  | nil => cases failed
  | cons t ts ih =>
    simp only [evalAll, List.cons_append] at failed ⊢
    generalize i.evalTree t = r at failed ⊢
    obtain ⟨e | v, events, j⟩ := r
    · rfl
    · simp only [ih failed]

namespace Command

/-- How a run of sources tells why an evaluation halted. -/
inductive Failure.Tells (sources : List Source) : Option Failure → Option Halt → Prop
  | success : Tells sources none none
  | error {source : Source} (e : EvalError) : source ∈ sources →
      Tells sources (some (.source source.name (.eval e))) (some (.error e))
  | fault (f : Fault) : Tells sources (some (.broken f)) (some (.fault f))

theorem Failure.Tells.cons {sources : List Source} {failure : Option Failure} {halt : Option Halt}
    (h : Tells sources failure halt) (source : Source) :
    Tells (source :: sources) failure halt := by
  cases h with
  | success => exact .success
  | error e hs => exact .error e (.tail _ hs)
  | fault f => exact .fault f

/-- A run of sources that did what a report says. -/
structure Follows (sources : List Source) (o : Outcome) (r : Report) : Prop where
  out : o.out = Session.valueLines r.values
  failure : Failure.Tells sources o.failure r.halt
  interpreter : o.interpreter = r.interpreter

/-- Sources are evaluated like the expressions of all of them in order. -/
theorem runSources_follows {settings : Settings} (noListing : settings.listing = false)
    {sources : List Source} {forests : List (List Tree)}
    (h : List.Forall₂ (fun s trees => parse s.text = .ok trees) sources forests)
    (i : Interpreter) :
    Follows sources (runSources settings i sources) (i.evalAll forests.flatten) := by
  induction h generalizing i with
  | nil => exact ⟨rfl, .success, rfl⟩
  | @cons source trees sources forests hs _ ih =>
    have out := Session.transcript_evalAll i trees
    rw [List.flatten_cons]
    unfold runSources
    simp only [hs, noListing, out]
    cases halt : (i.evalAll trees).halt with
    | some reason =>
      rw [Interpreter.evalAll_append_of_halt halt]
      cases reason with
      | error e =>
        refine ⟨rfl, ?_, rfl⟩
        rw [halt]
        exact .error e List.mem_cons_self
      | fault f =>
        refine ⟨rfl, ?_, rfl⟩
        rw [halt]
        exact .fault f
    | none =>
      have rest := ih (i.evalAll trees).interpreter
      rw [i.evalAll_append _ _ halt]
      refine ⟨?_, ?_, rest.interpreter⟩
      · rw [Session.valueLines_append, ← rest.out]
      · exact rest.failure.cons source

section
variable {sources others : List Source} {o o' : Outcome} {r r' : Report}
variable (h : Follows sources o r)
include h

theorem Follows.not_broken {f : Fault} (sound : r.halt ≠ some (.fault f)) :
    o.failure ≠ some (.broken f) := by
  intro broken
  have told := h.failure
  rw [broken] at told
  generalize r.halt = halt at told sound
  cases told
  exact sound rfl

variable (h' : Follows others o' r') (same : r.Alike r')
include h' same

theorem Follows.out_eq : o.out = o'.out := by
  rw [h.out, h'.out]
  exact Session.valueLines_alike same.values

theorem Follows.interpreter_alike : o.interpreter.Alike o'.interpreter := by
  rw [h.interpreter, h'.interpreter]
  exact same.interpreter

/-- Runs that did what reports say which are alike fail for the same reason. -/
theorem Follows.failure_cases :
    (o.failure = none ∧ o'.failure = none) ∨
    (∃ source ∈ sources, ∃ other ∈ others, ∃ e f,
      o.failure = some (.source source.name (.eval e)) ∧
      o'.failure = some (.source other.name (.eval f)) ∧ e.cause = f.cause) ∨
    ∃ f, o.failure = some (.broken f) ∧ o'.failure = some (.broken f) := by
  have told := h.failure
  have told' := h'.failure
  have reasons := same.halt
  generalize o.failure = failure at told ⊢
  generalize o'.failure = failure' at told' ⊢
  generalize r.halt = halt at told reasons
  generalize r'.halt = halt' at told' reasons
  cases reasons with
  | none =>
    cases told
    cases told'
    exact .inl ⟨rfl, rfl⟩
  | some reason =>
    cases reason with
    | fault f =>
      cases told
      cases told'
      exact .inr (.inr ⟨f, rfl, rfl⟩)
    | error cause =>
      cases told with
      | error _ source =>
        cases told' with
        | error _ other => exact .inr (.inl ⟨_, source, _, other, _, _, rfl, rfl, cause⟩)

end

/-- Cutting a program into sources does not show, wherever an error stops the run. Sources that can
be read, one after the other and joined by line feeds, print the same, fail for the same reason or
not at all, and leave interpreters that are alike. A fault is out of the question where the root
scope leads to proper values. -/
theorem runSources_joined (settings : Settings) (i : Interpreter) (sources : List Source)
    (name : String) (noListing : settings.listing = false)
    (readable : ∀ s ∈ sources, ∃ trees, parse s.text = .ok trees)
    (noMark : ∀ s ∈ sources.tail, (Text.Utf8.decode s.text).head? ≠ some '\uFEFF') :
    let apart := runSources settings i sources
    let joined := runSources settings i [⟨name, Session.joinLines (sources.map Source.text)⟩]
    apart.out = joined.out ∧
    ((apart.failure = none ∧ joined.failure = none) ∨
      (∃ source ∈ sources, ∃ e f, apart.failure = some (.source source.name (.eval e)) ∧
        joined.failure = some (.source name (.eval f)) ∧ e.cause = f.cause) ∨
      ∃ f, apart.failure = some (.broken f) ∧ joined.failure = some (.broken f)) ∧
    (i.store.Proper i.root → ∀ f, apart.failure ≠ some (.broken f)) ∧
    apart.interpreter.Alike joined.interpreter := by
  intro apart joined
  have read : List.Forall₂ (fun s trees => parse s.text = .ok trees) sources
      (sources.map fun s => (parse s.text).toOption.getD []) := by
    rw [List.forall₂_map_right_iff, List.forall₂_same]
    intro s hs
    obtain ⟨trees, ht⟩ := readable s hs
    rw [ht]
    rfl
  generalize (sources.map fun s => (parse s.text).toOption.getD []) = forests at read
  have texts : ∀ text ∈ (sources.map Source.text).tail,
      (Text.Utf8.decode text).head? ≠ some '\uFEFF' := by
    rw [← List.map_tail]
    exact List.forall_mem_map.mpr noMark
  obtain ⟨trees, whole, alike⟩ := parse_joinLines (List.forall₂_map_left_iff.mpr read) texts
  have first : Follows sources apart (i.evalAll forests.flatten) :=
    runSources_follows noListing read i
  have second : Follows [⟨name, Session.joinLines (sources.map Source.text)⟩] joined
      (i.evalAll trees) := by
    have flat : [trees].flatten = trees := by simp
    rw [← flat]
    exact runSources_follows noListing (.cons whole .nil) i
  have same := (Interpreter.Alike.refl i).evalAll (Tree.alikeAll_symm alike)
  have failures := first.failure_cases second same
  refine ⟨first.out_eq second same, ?_, fun proper f => ?_, first.interpreter_alike second same⟩
  · rcases failures with success | ⟨source, hs, other, ho, failed⟩ | fault
    · exact .inl success
    · cases List.mem_singleton.mp ho
      exact .inr (.inl ⟨source, hs, failed⟩)
    · exact .inr (.inr fault)
  · have sound : i.Sound (i.store.Ahead i.root) i.store.scopes.size := ⟨.inl .here, proper.meets⟩
    have report := sound.evalAll (fun _ => .inr) (whole_of_parse whole)
    have never := second.not_broken (report.halt f)
    rcases failures with ⟨success, -⟩ | ⟨_, -, _, -, _, _, failed, -⟩ | ⟨g, failed, failed'⟩
    · rw [success]
      nofun
    · rw [failed]
      nofun
    · rw [failed]
      rintro ⟨⟩
      exact never failed'

/-- Three sources, the first one behind a byte order mark. The second fails between two
expressions. -/
def cutSources : List Source :=
  [⟨"first", [0xEF, 0xBB, 0xBF] ++ Text.Utf8.bytes "(define (f x) (/ 6 x))"⟩,
    ⟨"second", Text.Utf8.bytes "(f 2)\n(f 0) 1"⟩, ⟨"third", Text.Utf8.bytes "2"⟩]

theorem runSources_joined_cutSources :
    let apart := runSources ⟨0, false, false⟩ (.new 0) cutSources
    let joined := runSources ⟨0, false, false⟩ (.new 0)
      [⟨"whole", Session.joinLines (cutSources.map Source.text)⟩]
    apart.out = "<function f (x)>\n3\n" ∧ joined.out = "<function f (x)>\n3\n" ∧
    apart.failure = some (.source "second" (.eval ⟨.divisionByZero, ⟨1, 20⟩⟩)) ∧
    (∃ f, joined.failure = some (.source "whole" (.eval f)) ∧ f.cause = .divisionByZero) ∧
    apart.interpreter.Alike joined.interpreter := by
  have readable : ∀ s ∈ cutSources, ∃ trees, parse s.text = .ok trees := by
    have each : ∀ s ∈ cutSources, (parse s.text).toOption.isSome = true := by decide +kernel
    intro s hs
    have read := each s hs
    cases h : parse s.text with
    | ok trees => exact ⟨trees, rfl⟩
    | error e =>
      rw [h] at read
      cases read
  have noMark : ∀ s ∈ cutSources.tail, (Text.Utf8.decode s.text).head? ≠ some '\uFEFF' := by
    decide +kernel
  have out : (runSources ⟨0, false, false⟩ (.new 0) cutSources).out =
      "<function f (x)>\n3\n" := by decide +kernel
  have failed : (runSources ⟨0, false, false⟩ (.new 0) cutSources).failure =
      some (.source "second" (.eval ⟨.divisionByZero, ⟨1, 20⟩⟩)) := by decide +kernel
  obtain ⟨same, failures, -, alike⟩ := runSources_joined ⟨0, false, false⟩ (.new 0) cutSources
    "whole" rfl readable noMark
  refine ⟨out, same.symm.trans out, failed, ?_, alike⟩
  rw [failed] at failures
  rcases failures with ⟨success, -⟩ | ⟨_, -, e, f, he, hf, cause⟩ | ⟨_, fault, -⟩
  · cases success
  · simp only [Option.some.injEq, Failure.source.injEq, SourceError.eval.injEq] at he
    obtain ⟨-, rfl⟩ := he
    exact ⟨f, hf, cause.symm⟩
  · cases fault

end Command

end Lisplet
