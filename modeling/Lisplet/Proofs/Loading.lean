import Lisplet.Proofs.Descent
import Lisplet.Proofs.Kinship
import Lisplet.Proofs.Soundness

/-! Making the nodes of trees. It is done by the same operations as putting nodes together by hand,
and the trees are seen in the nodes. Reading a source into nodes is reading its trees and making the
nodes of them. -/
namespace Lisplet

namespace Tree

/-! ## Where the nodes of a tree go -/

mutual

/-- How many nodes a tree has. -/
def count : Tree → Nat
  | absent => 0
  | blank | atom .. => 1
  | list _ items => countAll items + 1

def countAll : List Tree → Nat
  | [] => 0
  | t :: ts => count t + countAll ts

end

/-- The first nodes of trees that are made one after the other. -/
def starts (next : NodeId) : List Tree → List NodeId
  | [] => []
  | t :: ts => next :: starts (next + t.count) ts

mutual

/-- How the nodes of a tree are made: a list in front of its items, and each item taken when it is
complete. -/
def assembly (next : NodeId) : Tree → List Graph.Operation
  | absent => []
  | blank => [.newBlank]
  | atom token text => [.newAtom token text]
  | list token items => .newList token [] :: assemblyAll next (next + 1) items

def assemblyAll (list next : NodeId) : List Tree → List Graph.Operation
  | [] => []
  | t :: ts => assembly next t ++ .push (some list) (some next) ::
      assemblyAll list (next + t.count) ts

end

mutual

/-- The lists of a tree and the nodes in them, in the order of taking. -/
def links (next : NodeId) : Tree → List (NodeId × NodeId)
  | absent | blank | atom .. => []
  | list _ items => linksAll next (next + 1) items

def linksAll (list next : NodeId) : List Tree → List (NodeId × NodeId)
  | [] => []
  | t :: ts => links next t ++ (list, next) :: linksAll list (next + t.count) ts

end

/-- The links of trees that stand in no list. -/
def linksApart (next : NodeId) : List Tree → List (NodeId × NodeId)
  | [] => []
  | t :: ts => links next t ++ linksApart (next + t.count) ts

def assemblyApart (next : NodeId) : List Tree → List Graph.Operation
  | [] => []
  | t :: ts => assembly next t ++ assemblyApart (next + t.count) ts

/-- What a list of trees takes are the first nodes of the trees, beside what is taken in them. -/
theorem linksAll_perm (list next : NodeId) (ts : List Tree) :
    ((linksAll list next ts).map Prod.snd).Perm
      (starts next ts ++ (linksApart next ts).map Prod.snd) := by
  induction ts generalizing next with
  | nil => rfl
  | cons t ts ih =>
    rw [linksAll, linksApart, starts, List.map_append, List.map_append, List.map_cons,
      List.cons_append]
    refine List.perm_middle.trans (.cons _ ?_)
    refine ((ih (next + t.count)).append_left _).trans ?_
    rw [← List.append_assoc, ← List.append_assoc]
    exact List.perm_append_comm.append_right _

/-- Made one after the other, trees have all their nodes in one place each. -/
theorem starts_linksApart_perm {ts : List Tree}
    (each : ∀ t ∈ ts, ∀ next, (next :: (links next t).map Prod.snd).Perm
      (List.range' next t.count)) (next : NodeId) :
    (starts next ts ++ (linksApart next ts).map Prod.snd).Perm
      (List.range' next (countAll ts)) := by
  induction ts generalizing next with
  | nil => rfl
  | cons t ts ih =>
    obtain ⟨head, each⟩ := List.forall_mem_cons.mp each
    rw [linksApart, starts, List.map_append, List.cons_append, countAll, ← List.range'_append_1]
    refine List.Perm.trans ?_ ((head next).append (ih each (next + t.count)))
    rw [List.cons_append, ← List.append_assoc, ← List.append_assoc]
    exact (List.perm_append_comm.append_right _).cons _

/-- Each node of a tree but the first stands in one list of it, once. -/
theorem Whole.links_perm {t : Tree} (h : t.Whole) (next : NodeId) :
    (next :: (links next t).map Prod.snd).Perm (List.range' next t.count) := by
  induction h generalizing next with
  | atom token text =>
    rw [links, count]
    rfl
  | list token _ ih =>
    rw [links, count, List.range'_succ]
    exact ((linksAll_perm ..).trans (starts_linksApart_perm ih (next + 1))).cons next

end Tree

namespace Graph

/-! ## What loading does -/

/-- The history leads from the one state of the nodes to the other, with just these nodes taken. -/
structure Leads (g : Graph) (ops : List Operation) (g' : Graph) (links : List (NodeId × NodeId)) :
    Prop where
  orderly : g.Orderly ops
  run : g.run ops = g'
  log : g.log ops = links.map fun l => (l.1, some l.2)

theorem Leads.refl (g : Graph) : g.Leads [] g [] := ⟨trivial, rfl, rfl⟩

theorem Leads.append {g g' g'' : Graph} {ops ops' : List Operation}
    {links links' : List (NodeId × NodeId)} (h : g.Leads ops g' links)
    (h' : g'.Leads ops' g'' links') : g.Leads (ops ++ ops') g'' (links ++ links') := by
  obtain ⟨orderly, rfl, log⟩ := h
  obtain ⟨orderly', rfl, log'⟩ := h'
  refine ⟨orderly_append.mpr ⟨orderly, orderly'⟩, run_append .., ?_⟩
  rw [log_append, log, log', List.map_append]

/-- A list takes a node that is pushed onto it. -/
theorem Leads.push {g : Graph} {list id : NodeId} (known : g.IsList (some list))
    (inside : id < g.nodes.size) :
    g.Leads [.push (some list) (some id)] (g.adopt list id) [(list, id)] := by
  have took : g.taking (some list) (some id) = [(list, some id)] := by
    rw [taking, if_pos known]
    rfl
  refine ⟨⟨?_, trivial⟩, ?_, ?_⟩
  · simpa [Operation.given] using ⟨lt_of_isList known, inside⟩
  · refine (push_eq g (some list) (some id)).trans ?_
    rw [took]
    rfl
  · exact (List.append_nil _).trans took

/-- From `start` on, the nodes are the same there but for their parents. -/
def Agrees (start : NodeId) (g g' : Graph) : Prop :=
  ∀ (i : NodeId) (n : Node), start ≤ i → g.nodes[i]? = some n →
    ∃ parent, g'.nodes[i]? = some { n with parent }

/-- All about the nodes of a tree once they are made. -/
structure Loaded (g : Graph) (t : Tree) : Prop where
  id : (g.load t).1 = some g.nodes.size
  made : g.nodes.size < (g.load t).2.nodes.size
  size : (g.load t).2.nodes.size = g.nodes.size + t.count
  frame (i : NodeId) : i < g.nodes.size → (g.load t).2.nodes[i]? = g.nodes[i]?
  leads : g.Leads (t.assembly g.nodes.size) (g.load t).2 (t.links g.nodes.size)
  shown (g' : Graph) (depth : Nat) : t.count ≤ depth → Agrees g.nodes.size (g.load t).2 g' →
    g'.unfold depth (some g.nodes.size) = t

/-- All about the nodes of trees once they are made and a list has taken them. -/
structure LoadedAll (g : Graph) (list : NodeId) (ts : List Tree) : Prop where
  size : (g.loadAll list ts).nodes.size = g.nodes.size + Tree.countAll ts
  frame (i : NodeId) : i < g.nodes.size → (g.loadAll list ts).nodes[i]? = (g.nodes[i]?).map fun n =>
    if list = i then
      { n with children := n.children ++ (Tree.starts g.nodes.size ts).map some } else n
  leads : g.Leads (Tree.assemblyAll list g.nodes.size ts) (g.loadAll list ts)
    (Tree.linksAll list g.nodes.size ts)
  shown (g' : Graph) (depth : Nat) : Tree.countAll ts ≤ depth →
    Agrees g.nodes.size (g.loadAll list ts) g' →
    ((Tree.starts g.nodes.size ts).map some).map (g'.unfold depth) = ts

theorem loadAll_cons {g : Graph} {t : Tree} {child : NodeId} (h : (g.load t).1 = some child)
    (list : NodeId) (ts : List Tree) :
    g.loadAll list (t :: ts) = ((g.load t).2.take (list, some child)).loadAll list ts := by
  rw [loadAll]
  split <;> simp_all [take]

namespace Loaded

variable {g : Graph} {t : Tree} {list : NodeId}

theorem isList (h : Loaded g t) (known : g.IsList (some list)) :
    (g.load t).2.IsList (some list) := by
  rw [isList_some_iff, h.frame list (lt_of_isList known)]
  exact isList_some_iff.mp known

/-- A list that takes a loaded tree has one more child. -/
theorem frame_take (h : Loaded g t) {i : NodeId} (hi : i < g.nodes.size) :
    ((g.load t).2.take (list, some g.nodes.size)).nodes[i]? = (g.nodes[i]?).map fun n =>
      if list = i then { n with children := n.children ++ [some g.nodes.size] } else n := by
  rw [getElem?_take, h.frame i hi]
  congr 1
  funext n
  have other : g.nodes.size ≠ i := Nat.ne_of_gt hi
  by_cases own : list = i <;> simp [own, other]

end Loaded

theorem Agrees.trans {g g' g'' : Graph} {start : NodeId} (h : Agrees start g g')
    (h' : Agrees start g' g'') : Agrees start g g'' := by
  intro i n hi hn
  obtain ⟨p, hp⟩ := h i n hi hn
  obtain ⟨q, hq⟩ := h' i _ hi hp
  exact ⟨q, hq⟩

theorem Agrees.mono {g g' : Graph} {start start' : NodeId} (h : Agrees start g g')
    (le : start ≤ start') : Agrees start' g g' :=
  fun i n hi hn => h i n (Nat.le_trans le hi) hn

theorem agrees_take (g : Graph) {start : NodeId} {t : Taking} (behind : t.1 < start) :
    Agrees start g (g.take t) := by
  intro i n hi hn
  have other : t.1 ≠ i := Nat.ne_of_lt (Nat.lt_of_lt_of_le behind hi)
  rw [getElem?_take, hn]
  simp [other]

/-- A list that takes more has the nodes behind it stay as they are. -/
theorem LoadedAll.agrees {g : Graph} {list : NodeId} {ts : List Tree} (h : LoadedAll g list ts)
    {start : NodeId} (behind : list < start) : Agrees start g (g.loadAll list ts) := by
  intro i n hi hn
  have inside := (Array.getElem?_eq_some_iff.mp hn).1
  have other : list ≠ i := Nat.ne_of_lt (Nat.lt_of_lt_of_le behind hi)
  refine ⟨n.parent, ?_⟩
  rw [h.frame i inside, hn, Option.map_some, if_neg other]

theorem LoadedAll.of_each {ts : List Tree} (each : ∀ t ∈ ts, ∀ g, Loaded g t) {g : Graph}
    {list : NodeId} (known : g.IsList (some list)) : LoadedAll g list ts := by
  induction ts generalizing g with
  | nil =>
    refine ⟨rfl, fun i hi => ?_, .refl g, fun _ _ _ _ => rfl⟩
    simp [loadAll, Tree.starts]
  | cons t ts ih =>
    obtain ⟨head, each⟩ := List.forall_mem_cons.mp each
    have loaded := head g
    have behind := lt_of_isList known
    have known' : ((g.load t).2.take (list, some g.nodes.size)).IsList (some list) :=
      isList_take.mpr (loaded.isList known)
    have rest := ih each known'
    -- The list takes the first tree when all of its nodes are there, and the next node made is the
    -- first one of the other trees.
    have size := (size_take (g.load t).2 (list, some g.nodes.size)).trans loaded.size
    have grown : g.nodes.size ≤ ((g.load t).2.take (list, some g.nodes.size)).nodes.size := by
      rw [size]
      exact Nat.le_add_right ..
    refine ⟨?_, fun i hi => ?_, ?_, fun g' depth deep agrees => ?_⟩
    · rw [loadAll_cons loaded.id, rest.size, size, Tree.countAll, Nat.add_assoc]
    · rw [loadAll_cons loaded.id, rest.frame i (Nat.lt_of_lt_of_le hi grown),
        loaded.frame_take hi, Option.map_map, size]
      congr 1
      funext n
      by_cases own : list = i <;> simp [own, Tree.starts]
    · rw [loadAll_cons loaded.id, Tree.assemblyAll, Tree.linksAll]
      refine loaded.leads.append (.append (.push (loaded.isList known) loaded.made) ?_)
      rw [← size]
      exact rest.leads
    · rw [loadAll_cons loaded.id] at agrees
      rw [Tree.countAll] at deep
      rw [Tree.starts, List.map_cons, List.map_cons]
      congr 1
      · -- The list stands before these nodes, so nothing that it takes later changes them.
        refine loaded.shown g' depth (by omega) ?_
        exact (agrees_take _ behind).trans ((rest.agrees behind).trans agrees)
      · rw [← size]
        exact rest.shown g' depth (by omega) (agrees.mono grown)

theorem unfold_list {g : Graph} {id : NodeId} {n : Node} (hn : g.nodes[id]? = some n)
    (hk : n.kind = .list) (depth : Nat) :
    g.unfold (depth + 1) (some id) = .list n.token (n.children.map (g.unfold depth)) := by
  have found : g.get? (some id) = some n := hn
  simp only [unfold, found, hk]

theorem unfold_atom {g : Graph} {id : NodeId} {n : Node} (hn : g.nodes[id]? = some n)
    (hk : n.kind = .atom) (depth : Nat) :
    g.unfold (depth + 1) (some id) = .atom n.token n.text := by
  have found : g.get? (some id) = some n := hn
  simp only [unfold, found, hk]

/-- A list that was just made can take nodes. -/
theorem isList_add_emptyList (g : Graph) (token : Option Token) :
    (g.add (.emptyList token)).IsList (some g.nodes.size) := by
  simp [IsList, get?, add, Node.emptyList]

theorem Loaded.of_whole {t : Tree} (h : t.Whole) (g : Graph) : Loaded g t := by
  induction h generalizing g with
  | atom token text =>
    have here : (g.load (.atom token text)).2.nodes[g.nodes.size]? = some (.atom token text) := by
      rw [load, getElem?_add, if_pos rfl]
    refine ⟨rfl, ?_, ?_, fun i hi => ?_, ⟨?_, rfl, rfl⟩, fun g' depth deep agrees => ?_⟩
    · rw [load, size_add]
      exact Nat.lt_succ_self _
    · rw [load, size_add, Tree.count]
    · rw [load, getElem?_add, if_neg (Nat.ne_of_lt hi)]
    · simp [Tree.assembly, Orderly, Operation.given]
    · rw [Tree.count] at deep
      obtain ⟨p, hp⟩ := agrees g.nodes.size _ (Nat.le_refl _) here
      obtain ⟨depth, rfl⟩ := Nat.exists_eq_add_of_le' deep
      exact unfold_atom hp rfl depth
  | @list token items _ ih =>
    have loads : (g.load (.list token items)).2 =
        (g.add (.emptyList token)).loadAll g.nodes.size items := by
      rw [load]
      rfl
    have first := getElem?_add g (.emptyList token) g.nodes.size
    rw [if_pos rfl] at first
    have all := LoadedAll.of_each ih (isList_add_emptyList g token)
    have size := size_add g (.emptyList token)
    have grown : g.nodes.size < (g.add (.emptyList token)).nodes.size :=
      Nat.lt_of_lt_of_eq (Nat.lt_succ_self _) size.symm
    refine ⟨by rw [load]; rfl, ?_, ?_, fun i hi => ?_, ?_, fun g' depth deep agrees => ?_⟩
    · rw [loads, all.size]
      exact Nat.lt_of_lt_of_le grown (Nat.le_add_right ..)
    · rw [loads, all.size, size, Tree.count]
      omega
    · rw [loads, all.frame i (Nat.lt_trans hi grown), getElem?_add, if_neg (Nat.ne_of_lt hi)]
      simp [Nat.ne_of_gt hi]
    · rw [loads, Tree.assembly, Tree.links, ← size]
      have opened : g.Leads [.newList token []] (g.add (.emptyList token)) [] :=
        ⟨⟨by simp [Operation.given], trivial⟩, rfl, rfl⟩
      exact opened.append all.leads
    · rw [loads] at agrees
      rw [Tree.count] at deep
      have whole := all.frame g.nodes.size grown
      rw [first, Option.map_some, if_pos rfl] at whole
      obtain ⟨p, hp⟩ := agrees g.nodes.size _ (Nat.le_refl _) whole
      obtain ⟨depth, rfl⟩ := Nat.exists_eq_add_of_le' (Nat.le_of_add_left_le deep)
      rw [unfold_list hp rfl depth]
      exact congrArg _ (all.shown g' depth (by omega) (agrees.mono (Nat.le_of_lt grown)))

/-! ## Trees side by side -/

/-- All about the nodes of trees that were made side by side. -/
structure LoadedApart (g : Graph) (ts : List Tree) : Prop where
  ids : (g.loadApart ts).1 = (Tree.starts g.nodes.size ts).map some
  size : (g.loadApart ts).2.nodes.size = g.nodes.size + Tree.countAll ts
  frame (i : NodeId) : i < g.nodes.size → (g.loadApart ts).2.nodes[i]? = g.nodes[i]?
  leads : g.Leads (Tree.assemblyApart g.nodes.size ts) (g.loadApart ts).2
    (Tree.linksApart g.nodes.size ts)
  shown (depth : Nat) : Tree.countAll ts ≤ depth →
    (g.loadApart ts).1.map ((g.loadApart ts).2.unfold depth) = ts

theorem loadApart_cons (g : Graph) (t : Tree) (ts : List Tree) :
    g.loadApart (t :: ts) =
      ((g.load t).1 :: ((g.load t).2.loadApart ts).1, ((g.load t).2.loadApart ts).2) := rfl

theorem LoadedApart.of_whole {ts : List Tree} (whole : ∀ t ∈ ts, t.Whole) (g : Graph) :
    LoadedApart g ts := by
  induction ts generalizing g with
  | nil => exact ⟨rfl, rfl, fun _ _ => rfl, .refl g, fun _ _ => rfl⟩
  | cons t ts ih =>
    obtain ⟨head, whole⟩ := List.forall_mem_cons.mp whole
    have loaded := Loaded.of_whole head g
    have rest := ih whole (g.load t).2
    refine ⟨?_, ?_, fun i hi => ?_, ?_, fun depth deep => ?_⟩
    · rw [loadApart_cons, Tree.starts, List.map_cons, loaded.id, rest.ids, loaded.size]
    · rw [loadApart_cons, rest.size, loaded.size, Tree.countAll, Nat.add_assoc]
    · rw [loadApart_cons, rest.frame i (Nat.lt_trans hi loaded.made), loaded.frame i hi]
    · rw [loadApart_cons, Tree.assemblyApart, Tree.linksApart, ← loaded.size]
      exact loaded.leads.append rest.leads
    · rw [Tree.countAll] at deep
      rw [loadApart_cons, List.map_cons, loaded.id]
      congr 1
      · refine loaded.shown _ depth (by omega) fun i n _ hn => ⟨n.parent, ?_⟩
        rw [rest.frame i (Array.getElem?_eq_some_iff.mp hn).1, hn]
      · exact rest.shown depth (by omega)

end Graph

/-! ## Reading into nodes -/

namespace Parser

open Maker (trees nodes)

/-- Two descents end alike: they stop for the same reason, or have results that fit each other, and
in front of the same tokens. -/
inductive Ends {α β : Type} (P : α → β → Prop) :
    Except Obstacle α × List Token → Except Obstacle β × List Token → Prop
  | ok {a : α} {b : β} (rest : List Token) : P a b → Ends P (.ok a, rest) (.ok b, rest)
  | error (o : Obstacle) (rest : List Token) : Ends P (.error o, rest) (.error o, rest)

theorem Ends.mono {α β : Type} {P Q : α → β → Prop} {x : Except Obstacle α × List Token}
    {y : Except Obstacle β × List Token} (h : Ends P x y) (imp : ∀ a b, P a b → Q a b) :
    Ends Q x y := by
  cases h with
  | ok rest fits => exact .ok rest (imp _ _ fits)
  | error o rest => exact .error o rest

/-- From `g` on, reading into nodes goes as reading trees does. -/
def Mirrors {α β : Type} (g : Graph) (x : Descent α) (y : StateT Graph Descent β)
    (P : α → β × Graph → Prop) : Prop :=
  ∀ ts, Ends P (x ts) (y g ts)

namespace Mirrors

variable {α β γ δ : Type} {g : Graph} {Q : γ → δ × Graph → Prop}

theorem bind {x : Descent α} {y : StateT Graph Descent β} {P : α → β × Graph → Prop}
    {f : α → Descent γ} {k : β → StateT Graph Descent δ} (h : Mirrors g x y P)
    (later : ∀ a b g', P a (b, g') → Mirrors g' (f a) (k b) Q) :
    Mirrors g (x >>= f) (y >>= k) Q := by
  intro ts
  have step : (y >>= k) g ts = (y g >>= fun r => k r.1 r.2) ts := rfl
  rw [step, Descent.bind_apply, Descent.bind_apply]
  have first := h ts
  generalize x ts = read, y g ts = made at first ⊢
  cases first with
  | ok rest fits => exact later _ _ _ fits rest
  | error o rest => exact .error o rest

/-- What is done to the tokens alone is the same for both. -/
theorem lift_bind (x : Descent α) {f : α → Descent γ} {k : α → StateT Graph Descent δ}
    (later : ∀ a, Mirrors g (f a) (k a) Q) : Mirrors g (liftM x >>= f) (liftM x >>= k) Q := by
  have first : Mirrors g x (liftM x) fun a r => r = (a, g) := by
    intro ts
    have step : (liftM x : StateT Graph Descent α) g ts = (x >>= fun a => pure (a, g)) ts := rfl
    rw [step, Descent.bind_apply]
    rcases x ts with ⟨o | a, rest⟩
    · exact .error o rest
    · exact .ok rest rfl
  refine first.bind fun a b g' same => ?_
  cases same
  exact later a

theorem pure_pure {a : γ} {b : δ} (h : Q a (b, g)) : Mirrors g (pure a) (pure b) Q :=
  fun ts => .ok ts h

theorem stop (o : Obstacle) :
    Mirrors g (liftM (Descent.stop o : Descent γ)) (liftM (Descent.stop o : Descent δ)) Q :=
  fun ts => .error o ts

end Mirrors

/-- Within so many levels, the nodes of an expression are made as its tree is read. -/
def BuildsOne (level : Nat) : Prop :=
  ∀ g, Mirrors g (trees.one level) (nodes.one level) fun t r => t.Whole ∧ r = g.load t

/-- Within so many levels, a list takes the nodes of the items that are read. -/
def BuildsItems (level : Nat) : Prop :=
  ∀ (g : Graph) (list : NodeId), g.IsList (some list) → ∀ opening token front,
    Mirrors g (trees.items level opening (.list token front))
      (nodes.items level opening (some list)) fun t r => ∃ items, (∀ t ∈ items, t.Whole) ∧
        t = .list token (front ++ items) ∧ r = (some list, g.loadAll list items)

theorem Mirrors.list {g : Graph} (opening : Token) :
    Mirrors g (trees.list opening) (nodes.list opening) fun t r =>
      t = .list (some opening) [] ∧ r = (some g.nextId, g.add (.emptyList (some opening))) :=
  fun ts => .ok ts ⟨rfl, rfl⟩

/-- A list takes the node of the item that was read for it. -/
theorem Mirrors.push {g : Graph} {list child : NodeId} (known : g.IsList (some list)) {t : Tree}
    (whole : t.Whole) (token : Option Token) (front : List Tree) :
    Mirrors g (trees.push (.list token front) t) (nodes.push (some list) (some child)) fun l r =>
      l = .list token (front ++ [t]) ∧ r = (some list, g.take (list, some child)) := by
  obtain ⟨n, found, kind⟩ := Graph.isList_some_iff.mp known
  have here : g.get? (some list) = some n := found
  have taken : nodes.push (some list) (some child) g = pure (some list, g.adopt list child) := by
    simp only [nodes, Graph.push, here, kind, if_true]
  intro ts
  rw [taken]
  cases whole <;> exact .ok ts ⟨rfl, rfl⟩

theorem BuildsItems.one {level : Nat} (items : BuildsItems level) : BuildsOne (level + 1) := by
  intro g
  rw [Maker.one, Maker.one]
  refine .lift_bind Descent.current fun t => ?_
  cases t.kind with
  | openParen =>
    refine .lift_bind (Descent.expect .openParen) fun opening => (Mirrors.list opening).bind ?_
    rintro _ _ _ ⟨rfl, same⟩
    cases same
    have known := g.isList_add_emptyList (some opening)
    refine (items _ _ known opening (some opening) []).bind ?_
    rintro _ _ _ ⟨ts, whole, rfl, same⟩
    cases same
    refine .lift_bind (Descent.expect .closeParen) fun _ => .pure_pure ⟨.list _ whole, ?_⟩
    rw [List.nil_append, Graph.load]
    rfl
  | number | string | symbol | plus | minus | star | slash =>
    refine .lift_bind Descent.advance fun t => ?_
    exact .pure_pure ⟨.atom _ _, rfl⟩
  | eof | closeParen | invalid => exact .stop _

theorem BuildsItems.succ {level : Nat} (items : BuildsItems level) (one : BuildsOne level) :
    BuildsItems (level + 1) := by
  intro g list known opening token front
  rw [Maker.items, Maker.items]
  refine .lift_bind Descent.current fun t => ?_
  cases t.kind with
  | closeParen =>
    have none : ∀ t ∈ ([] : List Tree), t.Whole := fun _ ht => absurd ht List.not_mem_nil
    exact .pure_pure ⟨[], none, by rw [List.append_nil], rfl⟩
  | eof => exact .stop _
  | openParen | number | string | symbol | plus | minus | star | slash | invalid =>
    refine (one g).bind ?_
    rintro t child g' ⟨whole, same⟩
    obtain ⟨rfl, rfl⟩ := Prod.ext_iff.mp same
    have loaded := Graph.Loaded.of_whole whole g
    have known' := loaded.isList known
    rw [loaded.id]
    refine (Mirrors.push known' whole token front).bind ?_
    rintro _ _ _ ⟨rfl, same⟩
    cases same
    intro ts
    -- What the list takes later comes behind this item.
    have known'' := (Graph.isList_take (t := (list, some g.nodes.size))).mpr known'
    have later := items _ list known'' opening token (front ++ [t]) ts
    apply later.mono
    rintro _ _ ⟨more, each, rfl, rfl⟩
    refine ⟨t :: more, List.forall_mem_cons.mpr ⟨whole, each⟩, ?_, ?_⟩
    · rw [List.append_assoc, List.singleton_append]
    · rw [Graph.loadAll_cons loaded.id]

/-- Of an expression and of items alike, whatever the levels. -/
theorem builds (level : Nat) : BuildsItems level ∧ BuildsOne level := by
  induction level with
  | zero => exact ⟨fun _ _ _ _ _ _ => .stop _, fun _ => .stop _⟩
  | succ level ih => exact ⟨ih.1.succ ih.2, ih.1.one⟩

theorem every_mirrors (level : Nat) (g : Graph) :
    Mirrors g (Descent.every level) (nodes.every level) fun ts r => r = g.loadApart ts := by
  induction level generalizing g with
  | zero => exact .stop _
  | succ level ih =>
    rw [Descent.every, Maker.every, Maker.every]
    refine .lift_bind Descent.current fun t => ?_
    split
    · exact .pure_pure rfl
    · refine ((builds level).2 g).bind ?_
      rintro t id g' ⟨-, same⟩
      obtain ⟨rfl, rfl⟩ := Prod.ext_iff.mp same
      refine (ih (g.load t).2).bind ?_
      rintro ts ids g' same
      obtain ⟨rfl, rfl⟩ := Prod.ext_iff.mp same
      exact .pure_pure (Graph.loadApart_cons g t ts).symm

/-- Reading into nodes is reading trees and then making their nodes. -/
theorem nodes_every (level : Nat) (g : Graph) :
    nodes.every level g = (Descent.every level >>= fun read => pure (g.loadApart read)) := by
  funext ts
  rw [Descent.bind_apply]
  have alike := every_mirrors level g ts
  generalize Descent.every level ts = read, nodes.every level g ts = made at alike ⊢
  cases alike with
  | ok rest same => rw [same]; rfl
  | error o rest => rfl

end Parser

/-- A source is read into the nodes of its trees, or not read for what is wrong with it. -/
theorem Graph.read_eq (g : Graph) (source : List UInt8) :
    g.read source = match parse source with
      | .ok trees => .ok (g.loadApart trees)
      | .error e => .error e.failure := by
  unfold Graph.read parse
  cases tokenize source with
  | error e => rfl
  | ok tokens =>
    dsimp only
    rw [Parser.nodes_every, Parser.Descent.bind_apply, Parser.Descent.every_eq (by omega)]
    rcases Parser.all tokens with ⟨e | trees, rest⟩ <;> rfl

end Lisplet
