import Lisplet.Proofs.History
import Mathlib.Data.List.Induction

/-! Look-up (§3) told from the changes that were made. A name is found in the nearest scope outward
in which it was ever defined, as it was defined there last. Nothing else that was done to the scopes
matters: neither the order in which scopes were made and names defined, nor definitions that were
replaced or stand further out. -/
namespace Lisplet

variable {ν : Type}

namespace Store

/-- What can be done to a forest of scopes. -/
inductive Change (ν : Type) where
  | create (parent : Option ScopeId)
  | define (scope : ScopeId) (name : String) (value : Value ν)
  | rename (scope : ScopeId) (name : String)

def change (st : Store ν) : Change ν → Store ν
  | .create parent => st.create parent ""
  | .define scope name value => st.define scope name value
  | .rename scope name => st.rename scope name

/-- The forest that changes have made, the first one first. -/
def grown (changes : List (Change ν)) : Store ν := changes.foldl change empty

/-! ## What the changes tell -/

def Change.parent? : Change ν → Option (Option ScopeId)
  | .create parent => some parent
  | .define .. | .rename .. => none

/-- The scope that each scope was made in, in the order of their making. -/
def parents (changes : List (Change ν)) : List (Option ScopeId) := changes.filterMap Change.parent?

/-- The change refers to the first `n` scopes only. -/
def Change.Fits (n : Nat) : Change ν → Prop
  | .create none => True
  | .create (some p) => p < n
  | .define scope _ _ | .rename scope _ => scope < n

instance (n : Nat) : (c : Change ν) → Decidable (c.Fits n)
  | .create none => inferInstanceAs (Decidable True)
  | .create (some p) => inferInstanceAs (Decidable (p < n))
  | .define scope _ _ | .rename scope _ => inferInstanceAs (Decidable (scope < n))

/-- Every change refers to scopes made before it. -/
def Orderly (changes : List (Change ν)) : Prop :=
  ∀ i (h : i < changes.length), changes[i].Fits (parents (changes.take i)).length

instance (changes : List (Change ν)) : Decidable (Orderly changes) :=
  inferInstanceAs (Decidable (∀ i (_ : i < changes.length), _))

/-- The name was defined in the scope at some time. -/
def Defines (changes : List (Change ν)) (s : ScopeId) (x : String) : Prop :=
  ∃ v, .define s x v ∈ changes

/-- The last time that the name was defined in the scope, it was as `v`. -/
def DefinesLast (changes : List (Change ν)) (s : ScopeId) (x : String) (v : Value ν) : Prop :=
  ∃ before after, changes = before ++ .define s x v :: after ∧ ¬Defines after s x

/-- The way from a scope to one around it, with the scopes that are left on the way. -/
inductive Leads (changes : List (Change ν)) : ScopeId → List ScopeId → ScopeId → Prop
  | here (s : ScopeId) : Leads changes s [] s
  | outward {e p s : ScopeId} {left : List ScopeId} : (parents changes)[e]? = some (some p) →
      Leads changes p left s → Leads changes e (e :: left) s

/-- Seen from `e` no scope stands in front of `s` as far as the name goes. -/
def Clear (changes : List (Change ν)) (e s : ScopeId) (x : String) : Prop :=
  ∃ left, Leads changes e left s ∧ ∀ b ∈ left, ¬Defines changes b x

section
variable {changes : List (Change ν)} {c : Change ν} {e s : ScopeId} {x : String} {v w : Value ν}

theorem grown_concat (changes : List (Change ν)) (c : Change ν) :
    grown (changes ++ [c]) = (grown changes).change c := by
  rw [grown, List.foldl_append]
  rfl

theorem parents_concat (changes : List (Change ν)) (c : Change ν) :
    parents (changes ++ [c]) = parents changes ++ c.parent?.toList := by
  rw [parents, List.filterMap_append]
  cases c <;> rfl

theorem parents_define (changes : List (Change ν)) (s : ScopeId) (x : String) (v : Value ν) :
    parents (changes ++ [.define s x v]) = parents changes :=
  (parents_concat ..).trans (List.append_nil _)

theorem Orderly.concat (h : Orderly (changes ++ [c])) :
    Orderly changes ∧ c.Fits (parents changes).length := by
  have length : (changes ++ [c]).length = changes.length + 1 := List.length_append
  constructor
  · intro i hi
    have fits := h i (length ▸ Nat.lt_succ_of_lt hi)
    rwa [List.getElem_append_left hi, List.take_append_of_le_length (Nat.le_of_lt hi)] at fits
  · have fits := h changes.length (length ▸ Nat.lt_succ_self _)
    rwa [List.getElem_concat_length rfl, List.take_left] at fits

theorem defines_concat :
    Defines (changes ++ [c]) s x ↔ Defines changes s x ∨ ∃ v, c = .define s x v := by
  simp only [Defines, List.mem_append, List.mem_singleton, exists_or, eq_comm]

/-- The last change counts if it defines the name in the scope, and else those before it. -/
theorem definesLast_concat :
    DefinesLast (changes ++ [c]) s x v ↔
      c = .define s x v ∨ (∀ w, c ≠ .define s x w) ∧ DefinesLast changes s x v := by
  constructor
  · rintro ⟨before, after, split, last⟩
    obtain rfl | ⟨after, d, rfl⟩ := List.eq_nil_or_concat after
    · exact .inl (List.cons.inj (List.append_inj_right' split rfl)).1
    · rw [List.concat_eq_append, ← List.cons_append, ← List.append_assoc] at split
      obtain ⟨rfl, tail⟩ := List.append_inj' split rfl
      cases tail
      rw [List.concat_eq_append, defines_concat, not_or] at last
      exact .inr ⟨fun w hw => last.2 ⟨w, hw⟩, before, after, rfl, last.1⟩
  · rintro (rfl | ⟨other, before, after, rfl, last⟩)
    · exact ⟨changes, [], rfl, fun ⟨_, hw⟩ => absurd hw List.not_mem_nil⟩
    · refine ⟨before, after ++ [c], by simp, ?_⟩
      rw [defines_concat, not_or]
      exact ⟨last, fun ⟨w, hw⟩ => other w hw⟩

/-- A name that was defined was defined some last time. -/
theorem defines_iff_last : Defines changes s x ↔ ∃ v, DefinesLast changes s x v := by
  constructor
  · intro defined
    induction changes using List.reverseRecOn with
    | nil => obtain ⟨_, hv⟩ := defined; cases hv
    | append_singleton changes c ih =>
      by_cases here : ∃ v, c = .define s x v
      · obtain ⟨v, rfl⟩ := here
        exact ⟨v, definesLast_concat.mpr (.inl rfl)⟩
      · obtain ⟨v, last⟩ := ih ((defines_concat.mp defined).resolve_right here)
        exact ⟨v, definesLast_concat.mpr (.inr ⟨fun w hw => here ⟨w, hw⟩, last⟩)⟩
  · rintro ⟨v, before, after, rfl, -⟩
    exact ⟨v, by simp⟩

end

/-! ## What the forest keeps of them -/

end Store

theorem Bindings.names_set {α : Type} (bs : Bindings α) (x : String) (a : α) :
    (bs.set x a).map Prod.fst =
      if x ∈ bs.map Prod.fst then bs.map Prod.fst else bs.map Prod.fst ++ [x] := by
  induction bs with
  | nil => rfl
  | cons b bs ih =>
    obtain ⟨y, b⟩ := b
    unfold Bindings.set
    split
    · rename_i same
      simp [same]
    · rename_i other
      simp only [List.map_cons, ih, List.mem_cons, Ne.symm other, false_or]
      split <;> rfl

theorem Bindings.mem_names_iff {α : Type} {bs : Bindings α} {x : String} :
    x ∈ bs.map Prod.fst ↔ ∃ a, bs.get? x = some a := by
  induction bs with
  | nil => simp [Bindings.get?]
  | cons b bs ih =>
    obtain ⟨y, b⟩ := b
    unfold Bindings.get?
    split
    · rename_i same
      simp [same]
    · rename_i other
      simp only [List.map_cons, List.mem_cons, Ne.symm other, false_or, ih]

/-- The scope is what the changes have made of the one of that number. -/
structure Scope.Records (changes : List (Store.Change ν)) (id : ScopeId) (s : Scope ν) : Prop where
  parent : (Store.parents changes)[id]? = some s.parent
  last (x : String) (v : Value ν) :
    s.bindings.get? x = some v ↔ Store.DefinesLast changes id x v
  once : (s.bindings.map Prod.fst).Nodup

namespace Scope.Records

variable {changes : List (Store.Change ν)} {c : Store.Change ν} {id : ScopeId} {s : Scope ν}

/-- A name was defined in the scope if and only if it is bound there. -/
theorem mem_names_iff (h : s.Records changes id) (x : String) :
    x ∈ s.bindings.map Prod.fst ↔ Store.Defines changes id x := by
  rw [Bindings.mem_names_iff, Store.defines_iff_last]
  exact exists_congr (h.last x)

theorem parent_concat (h : s.Records changes id) :
    (Store.parents (changes ++ [c]))[id]? = some s.parent := by
  obtain ⟨inside, -⟩ := List.getElem?_eq_some_iff.mp h.parent
  rw [Store.parents_concat, List.getElem?_append_left inside]
  exact h.parent

theorem other (h : s.Records changes id) (hc : ∀ x v, c ≠ .define id x v) :
    s.Records (changes ++ [c]) id := by
  refine ⟨h.parent_concat, fun x v => ?_, h.once⟩
  rw [h.last, Store.definesLast_concat]
  simp [hc x]

theorem define (h : s.Records changes id) (x : String) (v : Value ν) :
    Scope.Records (changes ++ [.define id x v]) id
      { s with bindings := s.bindings.set x v } := by
  refine ⟨h.parent_concat, fun y w => ?_, ?_⟩
  · rw [Bindings.get?_set, Store.definesLast_concat, ← h.last]
    by_cases same : x = y
    · simp [same]
    · simp [same]
  · simp only [Bindings.names_set]
    split
    · exact h.once
    · rename_i new
      refine List.nodup_append.mpr ⟨h.once, List.pairwise_singleton _ x, fun y hy z hz => ?_⟩
      rintro rfl
      exact new (List.mem_singleton.mp hz ▸ hy)

theorem rename (h : s.Records changes id) (name : String) :
    Scope.Records changes id { s with name } := ⟨h.parent, h.last, h.once⟩

/-- A new scope has nothing bound in it. -/
theorem new (parent : Option ScopeId)
    (none : ∀ x, ¬Store.Defines changes (Store.parents changes).length x) :
    Scope.Records (changes ++ [.create parent]) (Store.parents changes).length
      ⟨"", parent, []⟩ := by
  refine ⟨?_, fun x v => ?_, List.nodup_nil⟩
  · rw [Store.parents_concat]
    exact List.getElem?_concat_length
  · have never : ¬Store.DefinesLast changes (Store.parents changes).length x v := fun last =>
      none x (Store.defines_iff_last.mpr ⟨v, last⟩)
    simp [Bindings.get?, Store.definesLast_concat, never]

end Scope.Records

/-- The store is what the changes have made of an empty one. -/
structure Store.Records (changes : List (Change ν)) (st : Store ν) : Prop where
  size : st.scopes.size = (parents changes).length
  scope {id : ScopeId} {s : Scope ν} : st.scopes[id]? = some s → s.Records changes id
  older {id p : ScopeId} : (parents changes)[id]? = some (some p) → p < id
  inside {id : ScopeId} {x : String} : Defines changes id x → id < (parents changes).length

namespace Store.Records

variable {changes : List (Change ν)} {st : Store ν}

theorem create (h : st.Records changes) {parent : Option ScopeId}
    (fits : (Change.create parent : Change ν).Fits (parents changes).length) :
    (st.create parent "").Records (changes ++ [.create parent]) := by
  have more : parents (changes ++ [.create parent]) = parents changes ++ [parent] :=
    parents_concat ..
  refine ⟨?_, fun {id s} hs => ?_, fun {id p} hp => ?_, fun {id x} hd => ?_⟩
  · rw [more, Store.create, Array.size_push, h.size, List.length_append]
    rfl
  · simp only [Store.create, Array.getElem?_push, h.size] at hs
    split at hs
    · rename_i new
      cases hs
      subst new
      exact .new parent fun x hd => Nat.lt_irrefl _ (h.inside hd)
    · exact (h.scope hs).other (by simp)
  · rw [more, List.getElem?_append] at hp
    split at hp
    · exact h.older hp
    · rename_i outside
      obtain ⟨rfl, new⟩ : parent = some p ∧ id - (parents changes).length = 0 := by
        simpa [List.getElem?_singleton, and_comm] using hp
      exact Nat.lt_of_lt_of_le fits (Nat.le_of_not_lt outside)
  · rw [more, List.length_append]
    have before := (defines_concat.mp hd).resolve_right (by simp)
    exact Nat.lt_add_right _ (h.inside before)

theorem define (h : st.Records changes) {scope : ScopeId} (fits : scope < (parents changes).length)
    (x : String) (v : Value ν) :
    (st.define scope x v).Records (changes ++ [.define scope x v]) := by
  have same := parents_define changes scope x v
  refine ⟨?_, fun {id s} hs => ?_, fun {id p} hp => ?_, fun {id y} hd => ?_⟩
  · rw [same, size_define, h.size]
  · by_cases own : id = scope
    · subst own
      cases before : st.scopes[id]? with
      | none =>
        simp only [Store.define, modify, Array.getElem?_modify, if_true, before] at hs
        cases hs
      | some s₀ =>
        rw [scopes_define_self x v before] at hs
        cases hs
        exact (h.scope before).define x v
    · rw [scopes_define_ne x v own] at hs
      exact (h.scope hs).other fun y w hc => own (by cases hc; rfl)
  · rw [same] at hp
    exact h.older hp
  · rw [same]
    rcases defines_concat.mp hd with before | ⟨w, hw⟩
    · exact h.inside before
    · cases hw
      exact fits

theorem rename (h : st.Records changes) (scope : ScopeId) (name : String) :
    (st.rename scope name).Records (changes ++ [.rename scope name]) := by
  have same : parents (changes ++ [.rename scope name]) = parents changes :=
    (parents_concat ..).trans (List.append_nil _)
  refine ⟨?_, fun {id s} hs => ?_, fun {id p} hp => ?_, fun {id x} hd => ?_⟩
  · rw [same, Store.rename, modify, Array.size_modify, h.size]
  · simp only [Store.rename, modify, Array.getElem?_modify] at hs
    split at hs
    · obtain ⟨s₀, before, rfl⟩ := Option.map_eq_some_iff.mp hs
      exact ((h.scope before).rename name).other (by simp)
    · exact (h.scope hs).other (by simp)
  · rw [same] at hp
    exact h.older hp
  · rw [same]
    exact h.inside ((defines_concat.mp hd).resolve_right (by simp))

end Store.Records

/-- A forest keeps of its changes what look-up asks for. -/
theorem Store.Orderly.records {changes : List (Change ν)} (h : Orderly changes) :
    (grown changes).Records changes := by
  induction changes using List.reverseRecOn with
  | nil => exact ⟨rfl, nofun, nofun, fun ⟨_, hd⟩ => by cases hd⟩
  | append_singleton changes c ih =>
    obtain ⟨before, fits⟩ := h.concat
    rw [grown_concat]
    cases c with
    | create parent => exact (ih before).create fits
    | define scope x v => exact (ih before).define fits x v
    | rename scope name => exact (ih before).rename scope name

namespace Store

/-! ## Look-up -/

section
variable {changes : List (Change ν)} {st : Store ν} {e s : ScopeId} {x y : String}

theorem clear_iff :
    Clear changes e s x ↔ e = s ∨ ¬Defines changes e x ∧
      ∃ p, (parents changes)[e]? = some (some p) ∧ Clear changes p s x := by
  constructor
  · rintro ⟨_, way, unseen⟩
    cases way with
    | here => exact .inl rfl
    | @outward _ p _ left hp way =>
      obtain ⟨own, unseen⟩ := List.forall_mem_cons.mp unseen
      exact .inr ⟨own, p, hp, left, way, unseen⟩
  · rintro (rfl | ⟨own, p, hp, left, way, unseen⟩)
    · exact ⟨[], .here e, nofun⟩
    · exact ⟨e :: left, .outward hp way, List.forall_mem_cons.mpr ⟨own, unseen⟩⟩

theorem exists_clear_of_leads {left : List ScopeId} (way : Leads changes e left s)
    (defined : Defines changes s x) : ∃ s, Clear changes e s x ∧ Defines changes s x := by
  induction way with
  | here s => exact ⟨s, clear_iff.mpr (.inl rfl), defined⟩
  | @outward e p _ _ hp _ ih =>
    by_cases own : Defines changes e x
    · exact ⟨e, clear_iff.mpr (.inl rfl), own⟩
    · obtain ⟨s, clear, defined⟩ := ih defined
      exact ⟨s, clear_iff.mpr (.inr ⟨own, p, hp, clear⟩), defined⟩

/-- Look-up stays in a scope that has the name and else goes one scope outward. -/
theorem Records.lookupFrom_cases (h : st.Records changes) (x : String) (e : ScopeId) :
    (∃ v, (∀ w, DefinesLast changes e x w ↔ v = w) ∧ st.lookupFrom x e = some v) ∨
    ¬Defines changes e x ∧
      ((∃ p, p < e ∧ (parents changes)[e]? = some (some p) ∧
          st.lookupFrom x e = st.lookupFrom x p) ∨
        (∀ p, (parents changes)[e]? ≠ some (some p)) ∧ st.lookupFrom x e = none) := by
  rw [Store.lookupFrom]
  cases hs : st.scopes[e]? with
  | none =>
    have outside : (parents changes).length ≤ e := h.size ▸ Array.getElem?_eq_none_iff.mp hs
    refine .inr ⟨fun hd => Nat.not_lt_of_le outside (h.inside hd), .inr ⟨fun p hp => ?_, rfl⟩⟩
    rw [List.getElem?_eq_none outside] at hp
    cases hp
  | some scope =>
    have kept := h.scope hs
    cases hv : scope.bindings.get? x with
    | some v =>
      refine .inl ⟨v, fun w => ?_, by simp only [hv]⟩
      rw [← kept.last, hv, Option.some.injEq]
    | none =>
      have never : ¬Defines changes e x := by
        rw [← kept.mem_names_iff, Bindings.mem_names_iff, hv]
        exact nofun
      refine .inr ⟨never, ?_⟩
      rw [kept.parent]
      cases hp : scope.parent with
      | none => exact .inr ⟨nofun, by simp only [hv, hp]⟩
      | some p =>
        have lt : p < e := h.older (hp ▸ kept.parent)
        exact .inl ⟨p, lt, rfl, by simp only [hv, hp, lt, if_true]⟩

/-- A name is found as it was defined last in the nearest scope that ever had it. -/
theorem Records.lookupFrom_eq_some_iff (h : st.Records changes) {v : Value ν} :
    st.lookupFrom x e = some v ↔ ∃ s, Clear changes e s x ∧ DefinesLast changes s x v := by
  -- On the scope, which is newer than the one around it.
  induction e using Nat.strongRecOn with
  | ind e ih =>
    obtain ⟨w, last, found⟩ | ⟨never, ⟨p, lt, hp, next⟩ | ⟨outermost, none⟩⟩ :=
      h.lookupFrom_cases x e
    · have own : Defines changes e x := defines_iff_last.mpr ⟨w, (last w).mpr rfl⟩
      rw [found, Option.some.injEq, ← last]
      constructor
      · exact fun here => ⟨e, clear_iff.mpr (.inl rfl), here⟩
      · rintro ⟨s, clear, here⟩
        obtain rfl | ⟨never, -⟩ := clear_iff.mp clear
        · exact here
        · exact absurd own never
    · rw [next, ih p lt]
      refine exists_congr fun s => and_congr_left fun last => ?_
      have other : e ≠ s := by
        rintro rfl
        exact never (defines_iff_last.mpr ⟨v, last⟩)
      rw [clear_iff (e := e)]
      simp [other, never, hp]
    · rw [none]
      refine iff_of_false nofun ?_
      rintro ⟨s, clear, last⟩
      obtain rfl | ⟨-, p, hp, -⟩ := clear_iff.mp clear
      · exact never (defines_iff_last.mpr ⟨v, last⟩)
      · exact outermost p hp

theorem Records.lookupFrom_eq_none_iff (h : st.Records changes) :
    st.lookupFrom x e = none ↔ ∀ left s, Leads changes e left s → ¬Defines changes s x := by
  rw [Option.eq_none_iff_forall_ne_some]
  simp only [Ne, h.lookupFrom_eq_some_iff]
  constructor
  · intro unbound left s way defined
    obtain ⟨s, clear, defined⟩ := exists_clear_of_leads way defined
    obtain ⟨v, last⟩ := defines_iff_last.mp defined
    exact unbound v ⟨s, clear, last⟩
  · rintro never v ⟨s, ⟨left, way, -⟩, last⟩
    exact never left s way (defines_iff_last.mpr ⟨v, last⟩)

theorem get_eq_ok_iff {scope : Option ScopeId} {v : Value ν} :
    st.get scope x = .ok v ↔ st.lookup scope x = some v := by
  unfold Store.get
  cases st.lookup scope x <;> simp

theorem get_eq_error_iff {scope : Option ScopeId} :
    st.get scope x = .error ⟨x⟩ ↔ st.lookup scope x = none := by
  unfold Store.get
  cases st.lookup scope x <;> simp

/-! ## What one definition changes -/

theorem Leads.of_parents {others : List (Change ν)} (same : parents changes = parents others)
    {left : List ScopeId} (way : Leads changes e left s) : Leads others e left s := by
  induction way with
  | here s => exact .here s
  | outward hp _ ih => exact .outward (same ▸ hp) ih

theorem Records.lt_of_leads (h : st.Records changes) {left : List ScopeId}
    (way : Leads changes e left s) : s ≤ e ∧ ∀ b ∈ left, s < b := by
  induction way with
  | here s => exact ⟨Nat.le_refl s, nofun⟩
  | outward hp _ ih =>
    have lt := Nat.lt_of_le_of_lt ih.1 (h.older hp)
    exact ⟨Nat.le_of_lt lt, List.forall_mem_cons.mpr ⟨lt, ih.2⟩⟩

/-- A scope that is left on the way is reached before the others are left. -/
theorem Leads.exists_of_mem {left : List ScopeId} (way : Leads changes e left s) {b : ScopeId}
    (hb : b ∈ left) : ∃ before, Leads changes e before b ∧ before ⊆ left := by
  induction way with
  | here => cases hb
  | @outward e p s left hp way ih =>
    rcases List.mem_cons.mp hb with rfl | hb
    · exact ⟨[], .here b, List.nil_subset _⟩
    · obtain ⟨before, way, sub⟩ := ih hb
      exact ⟨e :: before, .outward hp way, List.cons_subset_cons e sub⟩

section
variable (h : st.Records changes) (fits : s < (parents changes).length) (v : Value ν)
include h fits

/-- A definition is found from wherever nothing stands in front of its scope. -/
theorem Records.lookupFrom_define_of_clear (clear : Clear changes e s x) :
    (st.define s x v).lookupFrom x e = some v := by
  obtain ⟨left, way, unseen⟩ := clear
  rw [(h.define fits x v).lookupFrom_eq_some_iff]
  refine ⟨s, ⟨left, way.of_parents (parents_define ..).symm, fun b hb defined => ?_⟩,
    definesLast_concat.mpr (.inl rfl)⟩
  rcases defines_concat.mp defined with before | ⟨w, hw⟩
  · exact unseen b hb before
  · cases hw
    exact Nat.lt_irrefl _ ((h.lt_of_leads way).2 _ hb)

/-- From elsewhere, and by other names, nothing changes. -/
theorem Records.lookupFrom_define_of_not_clear (hidden : ¬(y = x ∧ Clear changes e s x)) :
    (st.define s x v).lookupFrom y e = st.lookupFrom y e := by
  ext w
  rw [(h.define fits x v).lookupFrom_eq_some_iff, h.lookupFrom_eq_some_iff]
  refine exists_congr fun t => ⟨?_, ?_⟩
  · rintro ⟨⟨left, way, unseen⟩, last⟩
    have clear : Clear changes e t y := ⟨left, way.of_parents (parents_define ..),
      fun b hb before => unseen b hb (defines_concat.mpr (.inl before))⟩
    rcases definesLast_concat.mp last with here | ⟨-, before⟩
    · cases here
      exact absurd ⟨rfl, clear⟩ hidden
    · exact ⟨clear, before⟩
  · rintro ⟨⟨left, way, unseen⟩, last⟩
    refine ⟨⟨left, way.of_parents (parents_define ..).symm, fun b hb defined => ?_⟩, ?_⟩
    · rcases defines_concat.mp defined with before | ⟨w, here⟩
      · exact unseen b hb before
      · cases here
        obtain ⟨front, before, sub⟩ := way.exists_of_mem hb
        exact hidden ⟨rfl, front, before, fun b hb => unseen b (sub hb)⟩
    · refine definesLast_concat.mpr (.inr ⟨fun w here => ?_, last⟩)
      cases here
      exact hidden ⟨rfl, left, way, unseen⟩

end

/-- The names bound in a scope are those defined in it, each once. -/
theorem Records.count (h : st.Records changes) (e : ScopeId) :
    ∃ names : List String, names.Nodup ∧ (∀ x, x ∈ names ↔ Defines changes e x) ∧
      st.count e = names.length := by
  unfold Store.count
  cases hs : st.scopes[e]? with
  | none =>
    have outside : (parents changes).length ≤ e := h.size ▸ Array.getElem?_eq_none_iff.mp hs
    refine ⟨[], List.nodup_nil, fun x => iff_of_false List.not_mem_nil fun defined => ?_, rfl⟩
    exact Nat.not_lt_of_le outside (h.inside defined)
  | some scope =>
    have kept := h.scope hs
    exact ⟨_, kept.once, kept.mem_names_iff, (List.length_map _).symm⟩

end

/-- Scopes are searched from the inside out, and in each the last definition counts. After any
orderly changes a name is found as it was defined last in the nearest scope outward that ever had
it, and is not found if and only if none ever had it. A further definition is what is then found of
that name from its scope, and from those inside with no scope on the way, themselves included, that
has the name; all else is found as before. A scope counts the names ever defined in it. -/
theorem lookup_grown (changes : List (Change ν)) (orderly : Orderly changes) (e : ScopeId)
    (x : String) :
    let st := grown changes
    (∀ v, (st.lookup (some e) x = some v ↔
        ∃ s, Clear changes e s x ∧ DefinesLast changes s x v) ∧
      (st.get (some e) x = .ok v ↔ ∃ s, Clear changes e s x ∧ DefinesLast changes s x v)) ∧
    (st.lookup (some e) x = none ↔ ∀ left s, Leads changes e left s → ¬Defines changes s x) ∧
    (st.get (some e) x = .error ⟨x⟩ ↔ ∀ left s, Leads changes e left s → ¬Defines changes s x) ∧
    (∀ s y v, s < (parents changes).length →
      let later := grown (changes ++ [.define s y v])
      (x = y ∧ Clear changes e s y → later.lookup (some e) x = some v) ∧
      (¬(x = y ∧ Clear changes e s y) → later.lookup (some e) x = st.lookup (some e) x)) ∧
    ∃ names : List String, names.Nodup ∧ (∀ y, y ∈ names ↔ Defines changes e y) ∧
      st.count e = names.length := by
  intro st
  have kept : st.Records changes := orderly.records
  have found (v : Value ν) : st.lookup (some e) x = some v ↔
      ∃ s, Clear changes e s x ∧ DefinesLast changes s x v := kept.lookupFrom_eq_some_iff
  have unbound : st.lookup (some e) x = none ↔
      ∀ left s, Leads changes e left s → ¬Defines changes s x := kept.lookupFrom_eq_none_iff
  refine ⟨fun v => ⟨found v, ?_⟩, unbound, ?_, fun s y v fits => ?_, kept.count e⟩
  · rw [← found, get_eq_ok_iff]
  · rw [← unbound, get_eq_error_iff]
  · rw [grown_concat]
    refine ⟨?_, fun hidden => kept.lookupFrom_define_of_not_clear fits v hidden⟩
    rintro ⟨rfl, clear⟩
    exact kept.lookupFrom_define_of_clear fits v clear

/-- Three scopes, one inside the other. The name is defined in the outer two, anew in both after the
inner one was made. -/
def nestedChanges : List (Change Tree) :=
  [.create none, .define 0 "x" (.ofInt 1), .create (some 0), .define 1 "x" (.ofInt 2),
    .create (some 1), .rename 2 "inner", .define 1 "x" (.ofInt 3), .define 0 "x" (.ofInt 4),
    .define 1 "y" .nil]

theorem lookup_grown_nestedChanges :
    Orderly nestedChanges ∧
    (grown nestedChanges).lookup (some 2) "x" = some (.ofInt 3) ∧
    (grown nestedChanges).get (some 2) "z" = .error ⟨"z"⟩ ∧
    (grown (nestedChanges ++ [.define 0 "x" .nil])).lookup (some 2) "x" =
      (grown nestedChanges).lookup (some 2) "x" ∧
    (grown (nestedChanges ++ [.define 1 "x" .nil])).lookup (some 2) "x" = some .nil := by
  have orderly : Orderly nestedChanges := by decide
  have clear : Clear nestedChanges 2 1 "x" := by
    refine ⟨[2], .outward rfl (.here 1), fun b hb => ?_⟩
    cases List.mem_singleton.mp hb
    simp [Defines, nestedChanges]
  have last : DefinesLast nestedChanges 1 "x" (.ofInt 3) :=
    ⟨nestedChanges.take 6, nestedChanges.drop 7, rfl, by simp [Defines, nestedChanges]⟩
  have hidden : ¬Clear nestedChanges 2 0 "x" := by
    intro seen
    obtain h | ⟨-, p, hp, seen⟩ := clear_iff.mp seen
    · cases h
    · cases hp
      obtain h | ⟨never, -⟩ := clear_iff.mp seen
      · cases h
      · exact never (defines_iff_last.mpr ⟨_, last⟩)
  obtain ⟨found, -, -, further, -⟩ := lookup_grown nestedChanges orderly 2 "x"
  obtain ⟨-, -, unbound, -, -⟩ := lookup_grown nestedChanges orderly 2 "z"
  refine ⟨orderly, (found _).1.mpr ⟨1, clear, last⟩, unbound.mpr fun _ s _ => ?_, ?_, ?_⟩
  · simp [Defines, nestedChanges]
  · exact (further 0 "x" .nil (by decide)).2 fun seen => hidden seen.2
  · exact (further 1 "x" .nil (by decide)).1 ⟨rfl, clear⟩

end Store

end Lisplet
