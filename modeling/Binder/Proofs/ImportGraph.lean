import Mathlib.Logic.Relation
import Binder.Proofs.Entry.Settle

/-!
# The graph of imports

Packages, by the texts of their names, and what they import. One package is the root: it is entered
by a caller and takes the place of the package of the library that has its name. All others are those
of the library.

* `Library.pending`: how many imports of a library are not dealt with yet.
* `ImportGraph.Acyclic`, `ImportGraph.Complete`: whether a package can be loaded.
* `ImportGraph.Loadable.of_targets`: a package can be loaded if what it imports can be.
-/

namespace Binder

open Relation

namespace Library

variable (l : Library) {n : PackageKey} {state state' : PackageKey → Option LoadState}

/-- Everything imported by packages of the library. -/
def targets : List PackageKey := l.entries.flatMap fun e => e.2.collect.imports.map (·.target)

theorem length_targets : l.targets.length = l.importCount := by
  rw [targets, importCount, List.length_flatMap, List.length_flatMap]
  simp only [List.length_map]

theorem mem_targets {p : Package} (h : l.fetch? n.1 n.2 = some p) {i : Import}
    (hi : i ∈ p.collect.imports) : i.target ∈ l.targets :=
  List.mem_flatMap.2 ⟨_, mem_of_lookup h, List.mem_map_of_mem hi⟩

/-- How many imports of the library ask for a package without a state. -/
def pending (state : PackageKey → Option LoadState) : Nat :=
  l.targets.countP fun n => (state n).isNone

theorem pending_le_importCount (state : PackageKey → Option LoadState) :
    l.pending state ≤ l.importCount := l.length_targets ▸ List.countP_le_length

/-- Of some packages, no more are without a state later on. -/
theorem countP_isNone_le (h : ∀ n, (state n).isSome → (state' n).isSome) (ns : List PackageKey) :
    (ns.countP fun n => (state' n).isNone) ≤ ns.countP fun n => (state n).isNone :=
  List.countP_mono_left fun n _ hn => by
    cases hs : state n with
    | none => rfl
    | some st =>
      have hsome := h n (by rw [hs]; rfl)
      rw [Option.isNone_iff_eq_none.1 hn] at hsome
      cases hsome

theorem pending_le (h : ∀ n, (state n).isSome → (state' n).isSome) :
    l.pending state' ≤ l.pending state := countP_isNone_le h l.targets

/-- A package that is imported and gets its first state is not pending any more. -/
theorem pending_lt (h : ∀ n, (state n).isSome → (state' n).isSome) (hn : n ∈ l.targets)
    (hnone : state n = none) (hsome : (state' n).isSome) : l.pending state' < l.pending state := by
  obtain ⟨ns, ms, heq⟩ := List.append_of_mem hn
  have hns := countP_isNone_le h ns
  have hms := countP_isNone_le h ms
  have hnot : (state' n).isNone = false := by
    rw [Option.isNone_eq_false_iff]
    exact hsome
  rw [pending, pending, heq, List.countP_append, List.countP_append, List.countP_cons,
    List.countP_cons, hnot, hnone]
  simp only [Option.isNone_none, Bool.false_eq_true, if_false, if_true]
  omega

end Library

/-- A library with a root package, which is known by the texts of its name. -/
structure ImportGraph where
  library : Library
  root : PackageKey
  package : Package

namespace ImportGraph

variable (g : ImportGraph)

/-- The package with the given texts. -/
def package? (n : PackageKey) : Option Package :=
  if n = g.root then some g.package else g.library.fetch? n.1 n.2

def Found (n : PackageKey) : Prop := (g.package? n).isSome

/-- The packages that a package imports, in order; none if it is not found. -/
def targets (n : PackageKey) : List PackageKey :=
  ((g.package? n).map fun p => p.collect.imports.map (·.target)).getD []

def Edge (n m : PackageKey) : Prop := m ∈ g.targets n

def Reaches : PackageKey → PackageKey → Prop := ReflTransGen g.Edge

def OnCycle (n : PackageKey) : Prop := TransGen g.Edge n n

/-- No cycle can be reached from the package. -/
def Acyclic (n : PackageKey) : Prop := ∀ m, g.Reaches n m → ¬g.OnCycle m

/-- Every package that can be reached from the package is found. -/
def Complete (n : PackageKey) : Prop := ∀ m, g.Reaches n m → g.Found m

def Loadable (n : PackageKey) : Prop := g.Acyclic n ∧ g.Complete n

/-- Everything imported by packages of the library. -/
def libraryTargets : List PackageKey := g.library.targets

variable {g} {n m : PackageKey}

theorem found_root : g.Found g.root := by
  rw [Found, package?, if_pos rfl]
  rfl

theorem found_of_edge (h : g.Edge n m) : g.Found n := by
  unfold Edge targets at h
  cases hp : g.package? n with
  | some p => exact Option.isSome_iff_exists.2 ⟨p, hp⟩
  | none =>
    rw [hp] at h
    exact absurd h List.not_mem_nil

theorem targets_of_package? {p : Package} (h : g.package? n = some p) :
    g.targets n = p.collect.imports.map (·.target) := by
  rw [targets, h]
  rfl

theorem targets_of_not_found (h : ¬g.Found n) : g.targets n = [] := by
  rw [targets, Option.not_isSome_iff_eq_none.1 h]
  rfl

/-- Along an edge that leads back, there is a cycle. -/
theorem onCycle_of_edge (h : g.Edge n m) (hback : g.Reaches m n) : g.OnCycle m :=
  TransGen.tail' hback h

theorem Acyclic.of_edge (h : g.Acyclic n) (he : g.Edge n m) : g.Acyclic m := fun k hk =>
  h k (ReflTransGen.head he hk)

theorem Loadable.of_edge (h : g.Loadable n) (he : g.Edge n m) : g.Loadable m :=
  ⟨h.1.of_edge he, fun k hk => h.2 k (ReflTransGen.head he hk)⟩

/-- A package reaches no cycle if none of those that it imports does. -/
theorem Acyclic.of_targets (h : ∀ m ∈ g.targets n, g.Acyclic m) : g.Acyclic n := by
  intro k hk hcycle
  rcases ReflTransGen.cases_head hk with rfl | ⟨m, hm, hmk⟩
  · -- A cycle through the package is one through a package that it imports.
    obtain ⟨m, hm, hmn⟩ := TransGen.head'_iff.1 hcycle
    exact h m hm m .refl (onCycle_of_edge hm hmn)
  · exact h m hm k hmk hcycle

/-- A package can be loaded if it is found and those that it imports can be loaded. -/
theorem Loadable.of_targets (hfound : g.Found n) (h : ∀ m ∈ g.targets n, g.Loadable m) :
    g.Loadable n := by
  refine ⟨.of_targets fun m hm => (h m hm).1, fun k hk => ?_⟩
  rcases ReflTransGen.cases_head hk with rfl | ⟨m, hm, hmk⟩
  · exact hfound
  · exact (h m hm).2 k hmk

theorem Acyclic.of_not_found (h : ¬g.Found n) : g.Acyclic n :=
  .of_targets fun m hm => by
    rw [targets_of_not_found h] at hm
    exact absurd hm List.not_mem_nil

/-- What is imported by another package than the root is imported by one of the library. -/
theorem mem_libraryTargets (h : g.Edge n m) (hn : n ≠ g.root) : m ∈ g.libraryTargets := by
  obtain ⟨p, hp⟩ := Option.isSome_iff_exists.1 (found_of_edge h)
  rw [Edge, targets_of_package? hp] at h
  rw [package?, if_neg hn] at hp
  obtain ⟨i, hi, rfl⟩ := List.mem_map.1 h
  exact g.library.mem_targets hp hi

theorem length_libraryTargets (g : ImportGraph) : g.libraryTargets.length = g.library.importCount :=
  g.library.length_targets

end ImportGraph

end Binder
