import Lisplet.Proofs.Loading
import Mathlib.Data.List.Nodup

/-! The nodes of a source that is read. Unlike nodes put together by hand, none of them is shared:
each stands in one place, in the list that is its parent or at the top. -/
namespace Lisplet

namespace Graph

/-- From `start` on the nodes stand in one place each: at the top and without a parent, or once in
the list that is their parent and in no other. -/
structure Forest (g : Graph) (start : NodeId) (tops : List NodeId) : Prop where
  nodup : tops.Nodup
  inside (id : NodeId) : id ∈ tops → start ≤ id ∧ id < g.nodes.size
  top (id : NodeId) (n : Node) : start ≤ id → g.nodes[id]? = some n →
    (id ∈ tops ↔ n.parent = none)
  once (id : NodeId) (n : Node) : start ≤ id → g.nodes[id]? = some n →
    ∀ (list : NodeId) (m : Node), g.nodes[list]? = some m →
      m.children.count (some id) = if n.parent = some list then 1 else 0
  child (list : NodeId) (m : Node) : start ≤ list → g.nodes[list]? = some m →
    ∀ item ∈ m.children, ∃ id n, item = some id ∧ g.nodes[id]? = some n ∧ n.parent = some list

section
variable {g g' : Graph} {log : List Taking} {links : List (NodeId × NodeId)} {tops : List NodeId}
  {count : Nat}

/-- As often as a node is among the links, so many lists took it. -/
theorem length_takers (links : List (NodeId × NodeId)) (id : NodeId) :
    (takers (links.map fun l => (l.1, some l.2)) id).length = (links.map Prod.snd).count id := by
  induction links with
  | nil => rfl
  | cons l links ih =>
    rw [List.map_cons, ← List.singleton_append, takers_append, takers_singleton, List.length_append,
      ih, List.map_cons, List.count_cons]
    by_cases own : l.2 = id <;> simp [own, Nat.add_comm]

/-- A new node is at the top and was not taken, or was taken once. -/
theorem takers_new (old : g.Records log)
    (perm : (tops ++ links.map Prod.snd).Perm (List.range' g.nodes.size count)) {id : NodeId}
    (new : g.nodes.size ≤ id) (inside : id < g.nodes.size + count) :
    id ∈ tops ∧ takers (log ++ links.map fun l => (l.1, some l.2)) id = [] ∨
      id ∉ tops ∧ ∃ list, takers (log ++ links.map fun l => (l.1, some l.2)) id = [list] := by
  rw [takers_append, (old.unknown new).2, List.nil_append]
  have length := length_takers links id
  have one := List.count_eq_one_of_mem List.nodup_range' (List.mem_range'_1.mpr ⟨new, inside⟩)
  rw [← perm.count_eq, List.count_append, ← length] at one
  by_cases top : id ∈ tops
  · have := List.count_pos_iff.mpr top
    exact .inl ⟨top, List.length_eq_zero_iff.mp (by omega)⟩
  · rw [List.count_eq_zero_of_not_mem top] at one
    exact .inr ⟨top, List.length_eq_one_iff.mp (by omega)⟩

theorem Forest.of_links (old : g.Records log)
    (new : g'.Records (log ++ links.map fun l => (l.1, some l.2)))
    (perm : (tops ++ links.map Prod.snd).Perm (List.range' g.nodes.size count))
    (size : g'.nodes.size = g.nodes.size + count) : Forest g' g.nodes.size tops := by
  have place {id : NodeId} {n : Node} (hid : g.nodes.size ≤ id) (hn : g'.nodes[id]? = some n) :=
    takers_new old perm hid (size ▸ (Array.getElem?_eq_some_iff.mp hn).1)
  have nodup := perm.nodup_iff.mpr List.nodup_range'
  refine ⟨(List.nodup_append.mp nodup).1, fun id hid => ?_, fun id n hid hn => ?_,
    fun id n hid hn list m hm => ?_, fun list m hlist hm item hitem => ?_⟩
  · rw [size]
    exact List.mem_range'_1.mp (perm.subset (List.mem_append_left _ hid))
  · rw [new.parent id n hn, lastTaker]
    obtain ⟨top, none⟩ | ⟨top, list, one⟩ := place hid hn
    · simp [top, none]
    · simp [top, one]
  · rw [new.children list m hm, count_taken, new.parent id n hn, lastTaker]
    obtain ⟨top, none⟩ | ⟨top, taker, one⟩ := place hid hn
    · simp [none]
    · by_cases own : taker = list <;> simp [one, own]
  · rw [new.children list m hm, taken_append, (old.unknown hlist).1, List.nil_append,
      mem_taken_iff] at hitem
    obtain ⟨l, hl, same⟩ := List.mem_map.mp hitem
    cases same
    have range := List.mem_range'_1.mp
      (perm.subset (List.mem_append_right _ (List.mem_map_of_mem hl)))
    obtain ⟨n, hn⟩ := Records.exists_node (g := g') (size ▸ range.2)
    refine ⟨l.2, n, rfl, hn, ?_⟩
    have took : l.1 ∈ takers (log ++ links.map fun l => (l.1, some l.2)) l.2 :=
      mem_takers_iff.mpr (List.mem_append_right _ hitem)
    obtain ⟨-, none⟩ | ⟨-, taker, one⟩ := place range.1 hn
    · rw [none] at took
      cases took
    · rw [one] at took
      rw [new.parent l.2 n hn, lastTaker, one, List.mem_singleton.mp took]
      rfl

end

/-- What is read is made by operations on nodes like any other. The new nodes are a forest, in which
the trees are seen, and those that were there stay as they are. -/
theorem read_forest {g : Graph} {log : List Taking} (records : g.Records log)
    {source : List UInt8} {trees : List Tree} (parsed : parse source = .ok trees) :
    ∃ tops made, g.Orderly made ∧ g.read source = .ok (tops.map some, g.run made) ∧
      (g.run made).Forest g.nodes.size tops ∧
      (∀ id < g.nodes.size, (g.run made).nodes[id]? = g.nodes[id]?) ∧
      tops.map (fun id => (g.run made).toTree (some id)) = trees := by
  have whole := whole_of_parse parsed
  have loaded := LoadedApart.of_whole whole g
  have new := records.run loaded.leads.orderly
  rw [loaded.leads.run, loaded.leads.log] at new
  have perm := Tree.starts_linksApart_perm (fun t ht => (whole t ht).links_perm) g.nodes.size
  have deep : Tree.countAll trees ≤ (g.loadApart trees).2.nodes.size := by
    rw [loaded.size]
    exact Nat.le_add_left ..
  have shown := loaded.shown _ deep
  rw [loaded.ids, List.map_map] at shown
  refine ⟨Tree.starts g.nodes.size trees, _, loaded.leads.orderly, ?_⟩
  rw [loaded.leads.run, read_eq, parsed]
  exact ⟨congrArg Except.ok (Prod.ext loaded.ids rfl),
    .of_links records new perm loaded.size, loaded.frame, shown⟩

/-- After any history, parents and children fit each other: a node's parent is the list that took it
most recently and has it among its children, and what stands in a list has a parent. Only lists
have children, and all else refuses them and is left as it is. A source that is read then, by making
its nodes token by token, has new nodes, and each stands in one place, which its parent tells; where
it cannot be read, the reason is what is wrong with the source and no check on the way. -/
theorem kinship {ops : List Operation} (orderly : empty.Orderly ops) {g : Graph}
    (history : empty.run ops = g) :
    (∀ id n, g.nodes[id]? = some n →
      n.parent = lastTaker (empty.log ops) id ∧
      (∀ p, n.parent = some p →
        ∃ m, g.nodes[p]? = some m ∧ m.kind = .list ∧ some id ∈ m.children) ∧
      (∀ child, some child ∈ n.children → ∃ m, g.nodes[child]? = some m ∧ m.parent ≠ none) ∧
      (n.children ≠ [] → n.kind = .list)) ∧
    (∀ id n, g.nodes[id]? = some n → n.kind ≠ .list →
      (∀ child, g.push (some id) child = (.error .notAList, g)) ∧
      (∀ token, g.pushAtom (some id) (some token) = (.error .notAList, g)) ∧
      g.pushAtom (some id) none = (.error (.fault .missing), g) ∧
      (∀ token, g.pushList (some id) token = (.error .notAList, g))) ∧
    (∀ source trees, parse source = .ok trees →
      ∃ tops made, g.Orderly made ∧ g.read source = .ok (tops.map some, g.run made) ∧
        (g.run made).Forest g.nodes.size tops ∧
        (∀ id < g.nodes.size, (g.run made).nodes[id]? = g.nodes[id]?) ∧
        tops.map (fun id => (g.run made).toTree (some id)) = trees) ∧
    (∀ source e, parse source = .error e → g.read source = .error e.failure) := by
  subst history
  have records := Records.empty.run orderly
  refine ⟨fun id n hn => ?_, fun id n hn hk => ?_, fun source trees => read_forest records,
    fun source e malformed => ?_⟩
  · exact ⟨records.parent id n hn, fun p => records.mem_children hn,
      fun child => records.parent_ne_none hn, records.isList_of_children hn⟩
  · exact ⟨fun child => push_of_ne hn hk, fun token => pushNew_of_ne hn hk _, rfl,
      fun token => pushNew_of_ne hn hk _⟩
  · rw [read_eq, malformed]

/-- One list takes an atom, then another does, up to a node that is missing, and then the first one
does again. In between the atom is asked to take a list, and a list to take nothing. -/
def sharedAtom : List Operation :=
  [.newAtom none "a", .newList none [some 0], .newList none [some 0, none, some 1],
    .push (some 0) (some 1), .push (some 2) (some 1), .push (some 1) none, .pushAtom (some 2) none,
    .push (some 1) (some 0)]

theorem kinship_sharedAtom :
    empty.Orderly sharedAtom ∧ (empty.run sharedAtom).nodes.toList.map (·.parent) =
      [some 1, some 2, none] ∧
    (∃ m, (empty.run sharedAtom).nodes[1]? = some m ∧ m.kind = .list ∧ some 0 ∈ m.children) ∧
    (empty.run sharedAtom).pushList (some 0) none = (.error .notAList, empty.run sharedAtom) ∧
    (((empty.run sharedAtom).read (Text.Utf8.bytes "(a ())")).toOption.map fun read =>
      read.2.nodes.toList.map (·.parent)) = some [some 1, some 2, none, none, some 3, some 3] ∧
    ∃ trees tops made, parse (Text.Utf8.bytes "(a ())") = .ok trees ∧
      (empty.run sharedAtom).read (Text.Utf8.bytes "(a ())") =
        .ok (tops.map some, (empty.run sharedAtom).run made) ∧
      ((empty.run sharedAtom).run made).Forest 3 tops ∧
      tops.map (fun id => ((empty.run sharedAtom).run made).toTree (some id)) = trees := by
  have orderly : empty.Orderly sharedAtom := by decide
  obtain ⟨links, refusals, reading, -⟩ := kinship orderly rfl
  have atom : (empty.run sharedAtom).nodes[0]? = some ⟨.atom, none, "a", [], some 1⟩ := by decide
  refine ⟨orderly, by decide, (links 0 _ atom).2.1 1 rfl, ?_, by decide +kernel, ?_⟩
  · exact (refusals 0 _ atom (by decide)).2.2.2 none
  · have read : (parse (Text.Utf8.bytes "(a ())")).toOption.isSome = true := by decide +kernel
    cases parsed : parse (Text.Utf8.bytes "(a ())") with
    | error e =>
      rw [parsed] at read
      cases read
    | ok trees =>
      obtain ⟨tops, made, -, nodes, forest, -, seen⟩ := reading _ trees parsed
      exact ⟨trees, tops, made, rfl, nodes, forest, seen⟩

end Graph

end Lisplet
