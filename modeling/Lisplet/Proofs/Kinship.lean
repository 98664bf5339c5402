import Lisplet.Graph

/-! Parents and children over any history of making nodes and appending them to lists. All that a
list has as children is what it took, in the order of taking, and the parent of a node is the list
that took it last. -/
namespace Lisplet

namespace Graph

/-! ## Histories -/

/-- What can be done to nodes. The nodes and tokens that are given may be missing. -/
inductive Operation where
  | newAtom (token : Option Token) (text : String)
  | newBlank
  | newList (token : Option Token) (children : List (Option NodeId))
  | push (target child : Option NodeId)
  | pushAtom (target : Option NodeId) (token : Option Token)
  | pushList (target : Option NodeId) (token : Option Token)
  deriving DecidableEq, Repr

/-- Does the operation, and gives the node that it makes. -/
def perform (g : Graph) : Operation → Except Refusal (Option NodeId) × Graph
  | .newAtom token text => (.ok (some g.nextId), g.add (.atom token text))
  | .newBlank => (.ok (some g.nextId), g.add .blank)
  | .newList token children =>
    match g.newList token children with
    | (.ok id, g') => (.ok (some id), g')
    | (.error f, g') => (.error (.fault f), g')
  | .push target child => ((g.push target child).1.map fun _ => none, (g.push target child).2)
  | .pushAtom target token => ((g.pushAtom target token).1.map some, (g.pushAtom target token).2)
  | .pushList target token => ((g.pushList target token).1.map some, (g.pushList target token).2)

/-- The nodes after a history, its first operation first. -/
def run (g : Graph) (ops : List Operation) : Graph := ops.foldl (fun g op => (g.perform op).2) g

/-- The nodes that an operation is given. -/
def Operation.given : Operation → List (Option NodeId)
  | .newAtom .. | .newBlank => []
  | .newList _ children => children
  | .push target child => [target, child]
  | .pushAtom target _ | .pushList target _ => [target]

/-- Each operation is given nodes that were made before it. -/
def Orderly (g : Graph) : List Operation → Prop
  | [] => True
  | op :: ops => (∀ id ∈ op.given, ∀ i ∈ id, i < g.nodes.size) ∧ (g.perform op).2.Orderly ops

instance decidableOrderly (g : Graph) : (ops : List Operation) → Decidable (g.Orderly ops)
  | [] => inferInstanceAs (Decidable True)
  | op :: ops =>
    have := decidableOrderly (g.perform op).2 ops
    inferInstanceAs (Decidable (_ ∧ _))

/-! ## What lists take -/

/-- A list and what is appended to it, which may be missing. -/
abbrev Taking := NodeId × Option NodeId

/-- The node is there, and a list. -/
def IsList (g : Graph) (id : Option NodeId) : Prop := (g.get? id).map Node.kind = some .list

instance (g : Graph) (id : Option NodeId) : Decidable (g.IsList id) :=
  inferInstanceAs (Decidable (_ = _))

/-- Only a list takes anything. -/
def taking (g : Graph) (target child : Option NodeId) : List Taking :=
  if g.IsList target then (target.map (·, child)).toList else []

/-- What is taken in an operation. A new list takes what stands in front of a missing node. -/
def Operation.takings (g : Graph) : Operation → List Taking
  | .newAtom .. | .newBlank | .pushAtom _ none => []
  | .newList _ children => (children.takeWhile Option.isSome).map (g.nextId, ·)
  | .push target child => g.taking target child
  | .pushAtom target (some _) | .pushList target _ => g.taking target (some g.nextId)

/-- What is taken in a history, in order. -/
def log (g : Graph) : List Operation → List Taking
  | [] => []
  | op :: ops => op.takings g ++ (g.perform op).2.log ops

/-- What a list took, in order. -/
def taken (log : List Taking) (list : NodeId) : List (Option NodeId) :=
  (log.filter (·.1 = list)).map Prod.snd

/-- The lists that took a node, in order. -/
def takers (log : List Taking) (id : NodeId) : List NodeId :=
  (log.filter (·.2 = some id)).map Prod.fst

/-- The list that took a node most recently. -/
def lastTaker (log : List Taking) (id : NodeId) : Option NodeId := (takers log id).getLast?

section
variable {log : List Taking} {list id : NodeId} {child : Option NodeId}

theorem taken_append (log log' : List Taking) (list : NodeId) :
    taken (log ++ log') list = taken log list ++ taken log' list := by
  simp [taken]

theorem takers_append (log log' : List Taking) (id : NodeId) :
    takers (log ++ log') id = takers log id ++ takers log' id := by
  simp [takers]

theorem taken_singleton (t : Taking) (list : NodeId) :
    taken [t] list = if t.1 = list then [t.2] else [] := by
  by_cases h : t.1 = list <;> simp [taken, h]

theorem takers_singleton (t : Taking) (id : NodeId) :
    takers [t] id = if t.2 = some id then [t.1] else [] := by
  by_cases h : t.2 = some id <;> simp [takers, h]

theorem mem_taken_iff : child ∈ taken log list ↔ (list, child) ∈ log := by
  simp [taken]

theorem mem_takers_iff : list ∈ takers log id ↔ (list, some id) ∈ log := by
  simp [takers]

/-- A node stands in a list as often as the list took it. -/
theorem count_taken (log : List Taking) (list id : NodeId) :
    (taken log list).count (some id) = (takers log id).count list := by
  induction log with
  | nil => rfl
  | cons t log ih =>
    rw [← List.singleton_append, taken_append, takers_append, List.count_append,
      List.count_append, ih, taken_singleton, takers_singleton]
    by_cases hl : t.1 = list <;> by_cases hc : t.2 = some id <;> simp [hl, hc]

end

/-- The list takes the node. A missing one is appended and belongs to nothing. -/
def take (g : Graph) (t : Taking) : Graph :=
  match t.2 with
  | some child => g.adopt t.1 child
  | none => g.append t.1 none

/-! ## What an operation does -/

/-- The nodes that an operation makes, none of them for a list that is not there. -/
def Operation.makes (g : Graph) : Operation → List Node
  | .newAtom token text => [.atom token text]
  | .newBlank => [.blank]
  | .newList token _ => [.emptyList token]
  | .push .. | .pushAtom _ none => []
  | .pushAtom target (some token) =>
    if g.IsList target then [.atom (some token) token.lexeme] else []
  | .pushList target token => if g.IsList target then [.emptyList token] else []

section
variable {g : Graph} {target child : Option NodeId}

theorem isList_some_iff {id : NodeId} :
    g.IsList (some id) ↔ ∃ n, g.nodes[id]? = some n ∧ n.kind = .list := by
  simp [IsList, get?]

theorem lt_of_isList {id : NodeId} (h : g.IsList (some id)) : id < g.nodes.size := by
  obtain ⟨n, hn, -⟩ := isList_some_iff.mp h
  exact (Array.getElem?_eq_some_iff.mp hn).1

theorem getElem?_add (g : Graph) (n : Node) (i : NodeId) :
    (g.add n).nodes[i]? = if i = g.nodes.size then some n else g.nodes[i]? :=
  Array.getElem?_push

theorem get?_add {id : NodeId} (h : id < g.nodes.size) (n : Node) :
    (g.add n).get? (some id) = g.get? (some id) :=
  (getElem?_add g n id).trans (if_neg (Nat.ne_of_lt h))

theorem isList_add {n : Node} {id : NodeId} (h : id < g.nodes.size) :
    (g.add n).IsList (some id) ↔ g.IsList (some id) := by
  rw [IsList, IsList, get?_add h]

theorem size_add (g : Graph) (n : Node) : (g.add n).nodes.size = g.nodes.size + 1 :=
  Array.size_push _

theorem mem_taking_iff {t : Taking} :
    t ∈ g.taking target child ↔ target = some t.1 ∧ t.2 = child ∧ g.IsList target := by
  obtain ⟨list, item⟩ := t
  by_cases known : g.IsList target
  · cases target <;> simp [taking, known, eq_comm]
  · simp [taking, known]

/-- Whatever is pushed, a node that is no list refuses it. -/
theorem push_of_ne {id : NodeId} {n : Node} (hn : g.nodes[id]? = some n) (hk : n.kind ≠ .list) :
    g.push (some id) child = (.error .notAList, g) := by
  have found : g.get? (some id) = some n := hn
  simp [push, found, hk]

theorem pushNew_of_ne {id : NodeId} {n : Node} (hn : g.nodes[id]? = some n)
    (hk : n.kind ≠ .list) (m : Node) : g.pushNew (some id) m = (.error .notAList, g) := by
  have same := (get?_add (Array.getElem?_eq_some_iff.mp hn).1 m).trans hn
  rw [pushNew, push_of_ne same hk]

/-- A list takes what is pushed onto it, and nothing else does. -/
theorem push_eq (g : Graph) (target child : Option NodeId) :
    (g.push target child).2 = (g.taking target child).foldl take g := by
  cases target with
  | none => rfl
  | some id =>
    cases found : g.nodes[id]? with
    | none =>
      have missing : g.get? (some id) = none := found
      simp [push, taking, IsList, missing]
    | some n =>
      have here : g.get? (some id) = some n := found
      by_cases hk : n.kind = .list
      · cases child <;> simp [push, taking, IsList, here, hk, take]
      · simp [push_of_ne found hk, taking, IsList, here, hk]

theorem adoptAll_eq (g : Graph) (list : NodeId) (children : List (Option NodeId)) :
    (g.adoptAll list children).2 =
      ((children.takeWhile Option.isSome).map (list, ·)).foldl take g := by
  induction children generalizing g with
  | nil => rfl
  | cons child children ih =>
    cases child with
    | none => rfl
    | some child => exact ih (g.adopt list child)

theorem newList_eq (g : Graph) (token : Option Token) (children : List (Option NodeId)) :
    (g.newList token children).2 =
      ((children.takeWhile Option.isSome).map (g.nextId, ·)).foldl take
        (g.add (.emptyList token)) := by
  rw [← adoptAll_eq, newList]
  split <;> simp [*]

/-- A node is made for a list and taken by it, or not made at all. -/
theorem pushNew_eq (h : ∀ id ∈ target, id < g.nodes.size) (n : Node) :
    (g.pushNew target n).2 =
      (g.taking target (some g.nextId)).foldl take
        ((if g.IsList target then [n] else []).foldl add g) := by
  cases target with
  | none => rfl
  | some id =>
    have found := get?_add (h id rfl) n
    cases here : g.get? (some id) with
    | none => simp [pushNew, push, taking, IsList, found, here]
    | some m =>
      by_cases hk : m.kind = .list
      · simp [pushNew, push, taking, IsList, found, here, hk, take]
      · simp [pushNew, push, taking, IsList, found, here, hk]

/-- An operation makes nodes, and then lists take what they take. -/
theorem perform_eq {op : Operation} (given : ∀ id ∈ op.given, ∀ i ∈ id, i < g.nodes.size) :
    (g.perform op).2 = (op.takings g).foldl take ((op.makes g).foldl add g) := by
  cases op with
  | newAtom | newBlank => rfl
  | newList token children =>
    rw [perform]
    refine Eq.trans ?_ (newList_eq g token children)
    split <;> simp [*]
  | push target child => exact push_eq g target child
  | pushAtom target token =>
    cases token with
    | none => rfl
    | some token => exact pushNew_eq (given target List.mem_cons_self) _
  | pushList target token => exact pushNew_eq (given target List.mem_cons_self) _

/-- The nodes that are made are nobody's children and have none. -/
theorem makes_alone {op : Operation} {n : Node} (h : n ∈ op.makes g) :
    n.children = [] ∧ n.parent = none := by
  cases op with
  | newAtom | newBlank | newList =>
    obtain rfl := List.mem_singleton.mp h
    exact ⟨rfl, rfl⟩
  | push => cases h
  | pushAtom target token =>
    cases token with
    | none => cases h
    | some token =>
      obtain ⟨-, h⟩ := List.mem_ite_nil_right.mp h
      obtain rfl := List.mem_singleton.mp h
      exact ⟨rfl, rfl⟩
  | pushList =>
    obtain ⟨-, h⟩ := List.mem_ite_nil_right.mp h
    obtain rfl := List.mem_singleton.mp h
    exact ⟨rfl, rfl⟩

/-- A node made for a list is there when the list takes it. -/
theorem taking_made {t : Taking} (n : Node) (ht : t ∈ g.taking target (some g.nextId)) :
    ((if g.IsList target then [n] else []).foldl add g).IsList (some t.1) ∧
      ∀ id ∈ t.2, id < ((if g.IsList target then [n] else []).foldl add g).nodes.size := by
  obtain ⟨rfl, item, known⟩ := mem_taking_iff.mp ht
  rw [if_pos known, List.foldl_cons, List.foldl_nil, size_add, item]
  refine ⟨(isList_add (lt_of_isList known)).mpr known, fun id hid => ?_⟩
  cases hid
  exact Nat.lt_succ_self _

/-- Only lists take nodes, and only nodes that are there. -/
theorem takings_made {op : Operation} (given : ∀ id ∈ op.given, ∀ i ∈ id, i < g.nodes.size)
    {t : Taking} (ht : t ∈ op.takings g) :
    ((op.makes g).foldl add g).IsList (some t.1) ∧
      ∀ id ∈ t.2, id < ((op.makes g).foldl add g).nodes.size := by
  cases op with
  | newAtom | newBlank => cases ht
  | newList token children =>
    obtain ⟨child, hc, rfl⟩ := List.mem_map.mp ht
    have made : (g.add (.emptyList token)).nodes[g.nodes.size]? = some (.emptyList token) := by
      rw [getElem?_add, if_pos rfl]
    refine ⟨isList_some_iff.mpr ⟨_, made, rfl⟩, fun id hid => ?_⟩
    have inside := given child ((List.takeWhile_sublist _).subset hc) id hid
    exact Nat.lt_of_lt_of_eq (Nat.lt_succ_of_lt inside) (size_add ..).symm
  | push target child =>
    obtain ⟨rfl, rfl, known⟩ := mem_taking_iff.mp ht
    exact ⟨known, given t.2 (by simp [Operation.given])⟩
  | pushAtom target token =>
    cases token with
    | none => cases ht
    | some token => exact taking_made _ ht
  | pushList target token => exact taking_made _ ht

end

/-! ## Histories one after the other -/

theorem orderly_append {g : Graph} {ops ops' : List Operation} :
    g.Orderly (ops ++ ops') ↔ g.Orderly ops ∧ (g.run ops).Orderly ops' := by
  induction ops generalizing g with
  | nil => exact iff_of_eq (true_and _).symm
  | cons op ops ih =>
    rw [List.cons_append, Orderly, Orderly, ih, and_assoc]
    rfl

theorem run_append (g : Graph) (ops ops' : List Operation) :
    g.run (ops ++ ops') = (g.run ops).run ops' :=
  List.foldl_append

theorem log_append (g : Graph) (ops ops' : List Operation) :
    g.log (ops ++ ops') = g.log ops ++ (g.run ops).log ops' := by
  induction ops generalizing g with
  | nil => rfl
  | cons op ops ih =>
    rw [List.cons_append, log, log, ih, List.append_assoc]
    rfl

/-! ## What the nodes keep of a history -/

section
variable {g : Graph} {t : Taking}

theorem getElem?_take (g : Graph) (t : Taking) (i : NodeId) :
    (g.take t).nodes[i]? = (g.nodes[i]?).map fun n =>
      { n with
        children := if t.1 = i then n.children ++ [t.2] else n.children
        parent := if t.2 = some i then some t.1 else n.parent } := by
  obtain ⟨list, child⟩ := t
  cases child with
  | none =>
    simp only [take, append, Array.getElem?_modify]
    by_cases h : list = i
    · simp [h]
    · simp [h]
  | some child =>
    simp only [take, adopt, append, setParent, Array.getElem?_modify, Option.some.injEq]
    by_cases h : list = i <;> by_cases h' : child = i
    · subst h h'
      simp [Function.comp_def]
    · simp [h, h']
    · simp [h, h']
    · simp [h, h']

theorem size_take (g : Graph) (t : Taking) : (g.take t).nodes.size = g.nodes.size := by
  obtain ⟨list, child⟩ := t
  cases child <;> simp [take, adopt, append, setParent]

theorem isList_take {id : Option NodeId} : (g.take t).IsList id ↔ g.IsList id := by
  cases id with
  | none => rfl
  | some id => simp [IsList, get?, getElem?_take]

end

/-- The children and parents of nodes are just as the takings have made them. -/
structure Records (g : Graph) (log : List Taking) : Prop where
  list {t : Taking} : t ∈ log → g.IsList (some t.1)
  inside {t : Taking} {id : NodeId} : t ∈ log → t.2 = some id → id < g.nodes.size
  children (id : NodeId) (n : Node) : g.nodes[id]? = some n → n.children = taken log id
  parent (id : NodeId) (n : Node) : g.nodes[id]? = some n → n.parent = lastTaker log id

namespace Records

variable {g : Graph} {log : List Taking} {t : Taking} {n : Node} {id : NodeId}

theorem empty : Records .empty [] := by
  constructor <;> simp [Graph.empty]

/-- A node that is not yet there has taken nothing and was not taken. -/
theorem unknown (h : g.Records log) (new : g.nodes.size ≤ id) :
    taken log id = [] ∧ takers log id = [] := by
  constructor
  · refine List.eq_nil_iff_forall_not_mem.mpr fun child hc => ?_
    exact Nat.not_lt.mpr new (lt_of_isList (h.list (mem_taken_iff.mp hc)))
  · refine List.eq_nil_iff_forall_not_mem.mpr fun list hl => ?_
    exact Nat.not_lt.mpr new (h.inside (mem_takers_iff.mp hl) rfl)

theorem add (h : g.Records log) (alone : n.children = [] ∧ n.parent = none) :
    (g.add n).Records log := by
  obtain ⟨none_taken, no_taker⟩ := h.unknown (Nat.le_refl g.nodes.size)
  refine ⟨fun ht => ?_, fun ht hid => ?_, fun id n hn => ?_, fun id n hn => ?_⟩
  · have known := h.list ht
    exact (isList_add (lt_of_isList known)).mpr known
  · rw [size_add]
    exact Nat.lt_succ_of_lt (h.inside ht hid)
  · rw [getElem?_add] at hn
    split at hn
    · rename_i new
      cases hn
      rw [new, none_taken, alone.1]
    · exact h.children id n hn
  · rw [getElem?_add] at hn
    split at hn
    · rename_i new
      cases hn
      rw [lastTaker, new, no_taker, alone.2]
      rfl
    · exact h.parent id n hn

theorem take (h : g.Records log) (known : g.IsList (some t.1))
    (inside : ∀ id ∈ t.2, id < g.nodes.size) : (g.take t).Records (log ++ [t]) := by
  refine ⟨fun ht => ?_, fun ht hid => ?_, fun id n hn => ?_, fun id n hn => ?_⟩
  · rw [isList_take]
    obtain ht | ht := List.mem_append.mp ht
    · exact h.list ht
    · rwa [List.mem_singleton.mp ht]
  · rw [size_take]
    obtain ht | ht := List.mem_append.mp ht
    · exact h.inside ht hid
    · obtain rfl := List.mem_singleton.mp ht
      exact inside _ hid
  · rw [getElem?_take] at hn
    obtain ⟨m, hm, rfl⟩ := Option.map_eq_some_iff.mp hn
    rw [taken_append, taken_singleton, ← h.children id m hm]
    by_cases own : t.1 = id <;> simp [own]
  · rw [getElem?_take] at hn
    obtain ⟨m, hm, rfl⟩ := Option.map_eq_some_iff.mp hn
    rw [lastTaker, takers_append, takers_singleton, h.parent id m hm]
    by_cases own : t.2 = some id <;> simp [own, lastTaker]

/-- What holds of one taking holds of any number, one after the other. -/
theorem takeAll {ts : List Taking} (h : g.Records log)
    (known : ∀ t ∈ ts, g.IsList (some t.1))
    (inside : ∀ t ∈ ts, ∀ id ∈ t.2, id < g.nodes.size) :
    (ts.foldl Graph.take g).Records (log ++ ts) := by
  induction ts generalizing g log with
  | nil => rwa [List.append_nil]
  | cons t ts ih =>
    obtain ⟨known, known'⟩ := List.forall_mem_cons.mp known
    obtain ⟨inside, inside'⟩ := List.forall_mem_cons.mp inside
    rw [List.foldl_cons, ← List.singleton_append, ← List.append_assoc]
    refine ih (h.take known inside) (fun t ht => isList_take.mpr (known' t ht)) ?_
    rw [size_take]
    exact inside'

theorem addAll {ns : List Node} (h : g.Records log)
    (alone : ∀ n ∈ ns, n.children = [] ∧ n.parent = none) : (ns.foldl Graph.add g).Records log := by
  induction ns generalizing g with
  | nil => exact h
  | cons n ns ih =>
    obtain ⟨alone, alone'⟩ := List.forall_mem_cons.mp alone
    exact ih (h.add alone) alone'

theorem perform {op : Operation} (h : g.Records log)
    (given : ∀ id ∈ op.given, ∀ i ∈ id, i < g.nodes.size) :
    (g.perform op).2.Records (log ++ op.takings g) := by
  rw [perform_eq given]
  exact (h.addAll fun n hn => makes_alone hn).takeAll (fun t ht => (takings_made given ht).1)
    fun t ht => (takings_made given ht).2

theorem run {ops : List Operation} (h : g.Records log) (orderly : g.Orderly ops) :
    (g.run ops).Records (log ++ g.log ops) := by
  induction ops generalizing g log with
  | nil => rwa [Graph.log, List.append_nil]
  | cons op ops ih =>
    rw [Graph.log, ← List.append_assoc]
    exact ih (h.perform orderly.1) orderly.2

/-! ## What follows for parents and children -/

theorem exists_node (h : id < g.nodes.size) : ∃ n, g.nodes[id]? = some n :=
  ⟨g.nodes[id], Array.getElem?_eq_getElem h⟩

/-- A node stands in its parent. -/
theorem mem_children (h : g.Records log) (hn : g.nodes[id]? = some n) {p : NodeId}
    (hp : n.parent = some p) :
    ∃ m, g.nodes[p]? = some m ∧ m.kind = .list ∧ some id ∈ m.children := by
  rw [h.parent id n hn] at hp
  have took := mem_takers_iff.mp (List.mem_of_getLast? hp)
  obtain ⟨m, hm, hk⟩ := isList_some_iff.mp (h.list took)
  refine ⟨m, hm, hk, ?_⟩
  rw [h.children p m hm]
  exact mem_taken_iff.mpr took

/-- What stands in a list has a parent, though it may be another list. -/
theorem parent_ne_none (h : g.Records log) (hn : g.nodes[id]? = some n) {child : NodeId}
    (hc : some child ∈ n.children) : ∃ m, g.nodes[child]? = some m ∧ m.parent ≠ none := by
  rw [h.children id n hn] at hc
  have took := mem_taken_iff.mp hc
  obtain ⟨m, hm⟩ := exists_node (h.inside took rfl)
  refine ⟨m, hm, ?_⟩
  rw [h.parent child m hm, lastTaker, Ne, List.getLast?_eq_none_iff]
  exact List.ne_nil_of_mem (mem_takers_iff.mpr took)

theorem isList_of_children (h : g.Records log) (hn : g.nodes[id]? = some n)
    (hc : n.children ≠ []) : n.kind = .list := by
  obtain ⟨child, hc⟩ := List.exists_mem_of_ne_nil _ hc
  rw [h.children id n hn] at hc
  obtain ⟨m, hm, hk⟩ := isList_some_iff.mp (h.list (mem_taken_iff.mp hc))
  cases hn.symm.trans hm
  exact hk

end Records

end Graph

end Lisplet
