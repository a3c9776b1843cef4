import Mathlib.Data.List.Induction
import Binder.Proofs.ImportGraph

/-!
# Searching the graph of imports

Loading searches the graph of imports depth first. A package is in progress while its imports are
loaded and done afterwards, when it is loaded or has failed. Here is what holds all along, and what
is known when all imports of the root are dealt with.

* `Progress`: how far loading has come.
* `Progress.Search`: the invariant.
* `Progress.Search.start`, `Progress.Search.fail`, `Progress.Search.load`: how packages come and go.
* `Progress.Decides`, `Progress.Searched.decides`: what is known in the end.
-/

namespace Binder

/-- The package was asked for while it was being entered. -/
def LoadError.isCycle : LoadError → Bool
  | .cycle _ => true
  | .notFound _ | .failed _ => false

/-- How far loading has come: the states of the packages, the packages that are loaded, and whether a
    cycle has been reported. -/
structure Progress where
  state : PackageKey → Option LoadState
  loaded : List Package
  cycle : Bool

namespace Progress

/-- Nothing has been asked for yet. -/
def initial : Progress := ⟨fun _ => none, [], false⟩

/-- A package gets a state. -/
def set (s : Progress) (n : PackageKey) (state : LoadState) : Progress :=
  { s with state := fun m => if m = n then some state else s.state m }

/-- A package is done if its state is set for good. -/
def Done (s : Progress) (n : PackageKey) : Prop :=
  ∃ state, s.state n = some state ∧ state ≠ .inProgress

/-- An import of the package has been dealt with: the package has been looked at if it is there, and
    if it leads to a cycle, a cycle has been reported. -/
structure Dealt (g : ImportGraph) (s : Progress) (n : PackageKey) : Prop where
  isSome : g.Found n → (s.state n).isSome
  acyclic : s.cycle = false → g.Acyclic n

/-- The packages that are loaded other than the root, with their names: each after all packages that
    it imports. -/
structure Listed (g : ImportGraph) (s : Progress) (entries : List (PackageKey × Package)) : Prop where
  packages : entries.map (·.2) = s.loaded
  nodup : (entries.map (·.1)).Nodup
  mem_iff : ∀ n, n ∈ entries.map (·.1) ↔ n ≠ g.root ∧ ∃ x, s.state n = some (.loaded x)
  entry : ∀ e ∈ entries, ∃ x p, s.state e.1 = some (.loaded x) ∧ e.2.symbol = some x ∧
    g.package? e.1 = some p ∧ e.2.bare = p.collect.bare
  imports : ∀ l e r, entries = l ++ e :: r → ∀ m ∈ g.targets e.1, m ∈ l.map (·.1)

/-- What holds while the graph is searched from its root. -/
structure Search (g : ImportGraph) (s : Progress) : Prop where
  root : s.state g.root = some .inProgress
  reached : ∀ n, (s.state n).isSome → g.Reaches g.root n ∧ g.Found n
  failed : ∀ n, s.state n = some .failed → ¬g.Loadable n
  done : ∀ n, s.Done n → ∀ m ∈ g.targets n, s.Dealt g m
  cycle : s.cycle = true → ∃ n, g.Reaches g.root n ∧ g.OnCycle n
  listed : ∃ entries, s.Listed g entries

/-- `s'` comes after `s`, and what is in progress then has been in progress before. -/
structure Extends (s s' : Progress) : Prop where
  state : ∀ n state, s.state n = some state → s'.state n = some state
  cycle : s.cycle = true → s'.cycle = true
  inProgress : ∀ n, s'.state n = some .inProgress → s.state n = some .inProgress

variable {g : ImportGraph} {s s' s'' : Progress} {n : PackageKey}

/-! ## Later on -/

namespace Extends

theorem refl (s : Progress) : s.Extends s := ⟨fun _ _ => id, id, fun _ => id⟩

theorem trans (h : s.Extends s') (h' : s'.Extends s'') : s.Extends s'' :=
  ⟨fun n state hn => h'.state n state (h.state n state hn), h'.cycle ∘ h.cycle,
    fun n hn => h.inProgress n (h'.inProgress n hn)⟩

variable (h : s.Extends s')
include h

theorem isSome (hn : (s.state n).isSome) : (s'.state n).isSome := by
  obtain ⟨state, hstate⟩ := Option.isSome_iff_exists.1 hn
  exact Option.isSome_iff_exists.2 ⟨state, h.state n state hstate⟩

theorem cycle_eq_false (hc : s'.cycle = false) : s.cycle = false := by
  cases hs : s.cycle with
  | false => rfl
  | true => exact absurd ((h.cycle hs).symm.trans hc) nofun

theorem dealt (hn : s.Dealt g n) : s'.Dealt g n :=
  ⟨fun hf => h.isSome (hn.isSome hf), fun hc => hn.acyclic (h.cycle_eq_false hc)⟩

end Extends

/-! ## Setting states -/

theorem state_set_self (s : Progress) (n : PackageKey) (state : LoadState) :
    (s.set n state).state n = some state := if_pos rfl

theorem state_set_of_ne (s : Progress) {n m : PackageKey} (h : m ≠ n) (state : LoadState) :
    (s.set n state).state m = s.state m := if_neg h

theorem set_set (s : Progress) (n : PackageKey) (state state' : LoadState) :
    (s.set n state).set n state' = s.set n state' := by
  have heq : ((s.set n state).set n state').state = (s.set n state').state := funext fun m => by
    by_cases hm : m = n
    · rw [hm, state_set_self, state_set_self]
    · rw [state_set_of_ne _ hm, state_set_of_ne _ hm, state_set_of_ne _ hm]
  exact congrArg (Progress.mk · s.loaded s.cycle) heq

/-- Only the first package has a state. -/
theorem eq_of_state_set_initial {root : PackageKey} {state state' : LoadState}
    (h : (initial.set root state).state n = some state') : n = root ∧ state' = state := by
  by_cases hn : n = root
  · rw [hn, state_set_self] at h
    exact ⟨hn, (Option.some.inj h).symm⟩
  · rw [state_set_of_ne _ hn] at h
    cases h

theorem isSome_set {m : PackageKey} (h : (s.state m).isSome) (state : LoadState) :
    ((s.set n state).state m).isSome := by
  by_cases hm : m = n
  · rw [hm, state_set_self]
    rfl
  · rw [state_set_of_ne s hm, h]

theorem Dealt.set {m : PackageKey} (h : s.Dealt g m) (state : LoadState) :
    (s.set n state).Dealt g m := ⟨fun hf => isSome_set (h.isSome hf) state, h.acyclic⟩

/-- A package without a state is loaded in whatever way: what comes after it was begun and done comes
    after what was before. -/
theorem Extends.of_set (hnone : s.state n = none) (h : (s.set n .inProgress).Extends s')
    {state : LoadState} (hstate : state ≠ .inProgress) : s.Extends (s'.set n state) := by
  have hne : ∀ {m old}, s.state m = some old → m ≠ n := fun hm he => by
    rw [he, hnone] at hm
    cases hm
  refine ⟨fun m old hm => ?_, h.cycle, fun m hm => ?_⟩
  · rw [state_set_of_ne s' (hne hm)]
    exact h.state m old ((state_set_of_ne s (hne hm) _).trans hm)
  · by_cases hmn : m = n
    · rw [hmn, state_set_self] at hm
      exact absurd (Option.some.inj hm) hstate
    · rw [state_set_of_ne s' hmn] at hm
      exact (state_set_of_ne s hmn _).symm.trans (h.inProgress m hm)

/-! ## The packages that are loaded -/

namespace Listed

variable {entries : List (PackageKey × Package)} (h : s.Listed g entries)
include h

/-- The list stays the same if the states of its packages do, and no other package is loaded. -/
theorem congr (hstate : s'.loaded = s.loaded) (hmem : ∀ n, n ≠ g.root →
    ∀ x, s'.state n = some (.loaded x) ↔ s.state n = some (.loaded x)) : s'.Listed g entries := by
  have hiff : ∀ n, (n ≠ g.root ∧ ∃ x, s'.state n = some (.loaded x)) ↔
      n ≠ g.root ∧ ∃ x, s.state n = some (.loaded x) := fun n =>
    and_congr_right fun hn => exists_congr (hmem n hn)
  refine ⟨h.packages.trans hstate.symm, h.nodup, fun n => (h.mem_iff n).trans (hiff n).symm,
    fun e he => ?_, h.imports⟩
  obtain ⟨hne, _⟩ := (h.mem_iff e.1).1 (List.mem_map_of_mem he)
  obtain ⟨x, p, hx, hrest⟩ := h.entry e he
  exact ⟨x, p, (hmem e.1 hne x).2 hx, hrest⟩

/-- The list stays the same if a package that is not loaded gets another state. -/
theorem set (hn : ∀ x, s.state n ≠ some (.loaded x)) {state : LoadState}
    (hstate : ∀ x, state ≠ .loaded x) : (s.set n state).Listed g entries := by
  refine h.congr rfl fun m _ x => ?_
  by_cases hm : m = n
  · rw [hm, state_set_self]
    exact ⟨fun hx => absurd (Option.some.inj hx) (hstate x), fun hx => absurd hx (hn x)⟩
  · rw [state_set_of_ne s hm]

/-- The root is not in the list. -/
theorem set_root (state : LoadState) : (s.set g.root state).Listed g entries :=
  h.congr rfl fun m hm x => by rw [state_set_of_ne s hm]

/-- A package is loaded after what it imports. -/
theorem load (hroot : s.state g.root = some .inProgress) (hne : n ≠ g.root)
    (hn : ∀ x, s.state n ≠ some (.loaded x)) {p q : Package} {x : SymbolId}
    (hp : g.package? n = some p) (hbare : q.bare = p.collect.bare) (hx : q.symbol = some x)
    (himports : ∀ m ∈ g.targets n, ∃ y, s.state m = some (.loaded y)) :
    Listed g { s.set n (.loaded x) with loaded := s.loaded ++ [q] } (entries ++ [(n, q)]) := by
  have hnew : n ∉ entries.map (·.1) := fun hmem => by
    obtain ⟨_, y, hy⟩ := (h.mem_iff n).1 hmem
    exact hn y hy
  have hkeys : (entries ++ [(n, q)]).map (·.1) = entries.map (·.1) ++ [n] := List.map_append
  refine ⟨?_, ?_, fun m => ?_, fun e he => ?_, fun l e r heq m hm => ?_⟩
  · rw [List.map_append, h.packages]
    rfl
  · rw [hkeys, List.nodup_append]
    refine ⟨h.nodup, List.pairwise_singleton _ _, fun m hm m' hm' heq => ?_⟩
    exact hnew (List.mem_singleton.1 hm' ▸ heq ▸ hm)
  · rw [hkeys, List.mem_append, List.mem_singleton, h.mem_iff]
    by_cases hm : m = n
    · rw [hm]
      exact ⟨fun _ => ⟨hne, x, state_set_self s n _⟩, fun _ => .inr rfl⟩
    · rw [or_iff_left hm, ← state_set_of_ne s hm (.loaded x)]
  · rcases List.mem_append.1 he with he | he
    · obtain ⟨y, p', hy, hrest⟩ := h.entry e he
      have hne : e.1 ≠ n := fun heq => hn y (heq ▸ hy)
      exact ⟨y, p', (state_set_of_ne s hne _).trans hy, hrest⟩
    · rw [List.mem_singleton.1 he]
      exact ⟨x, p, state_set_self s n _, hx, hp, hbare⟩
  · -- Either the entry is the new one, or it stands in the old list.
    rcases List.eq_nil_or_concat r with rfl | ⟨r', last, rfl⟩
    · obtain ⟨hl, he⟩ := List.append_inj' heq rfl
      cases he
      obtain ⟨y, hy⟩ := himports m hm
      have hmr : m ≠ g.root := fun heq => by
        rw [heq, hroot] at hy
        cases hy
      rw [← hl]
      exact (h.mem_iff m).2 ⟨hmr, y, hy⟩
    · rw [List.concat_eq_append, ← List.cons_append, ← List.append_assoc] at heq
      exact h.imports l e r' (List.append_inj' heq rfl).1 m hm

/-- What is loaded can be loaded. -/
theorem loadable (hfound : ∀ n, (s.state n).isSome → g.Found n) :
    ∀ n ∈ entries.map (·.1), g.Loadable n := by
  have hall : ∀ l r, entries = l ++ r → ∀ n ∈ l.map (·.1), g.Loadable n := fun l => by
    induction l using List.reverseRecOn with
    | nil => exact fun _ _ n hn => absurd hn List.not_mem_nil
    | append_singleton l e ih =>
      intro r heq n hn
      rw [List.append_assoc] at heq
      rw [List.map_append, List.mem_append] at hn
      rcases hn with hn | hn
      · exact ih ([e] ++ r) heq n hn
      · rw [List.mem_singleton.1 hn]
        have he : e ∈ entries := heq ▸ List.mem_append_right _ List.mem_cons_self
        obtain ⟨x, p, hx, _⟩ := h.entry e he
        refine .of_targets (hfound _ (by rw [hx]; rfl)) fun m hm => ?_
        exact ih ([e] ++ r) heq m (h.imports l e r heq m hm)
  exact hall entries [] (List.append_nil _).symm

end Listed

/-! ## The search -/

namespace Search

/-- Nothing is known yet but the root. -/
theorem start (g : ImportGraph) : Search g (initial.set g.root .inProgress) := by
  refine ⟨state_set_self _ _ _, fun n hn => ?_, fun n hn => ?_, fun n hn => ?_, nofun, [], rfl,
    List.nodup_nil, fun n => ⟨fun h => absurd h List.not_mem_nil, fun ⟨_, x, hx⟩ => ?_⟩,
    fun _ h => absurd h List.not_mem_nil, fun l e r heq => absurd heq (by simp)⟩
  · obtain ⟨state, hs⟩ := Option.isSome_iff_exists.1 hn
    rw [(eq_of_state_set_initial hs).1]
    exact ⟨.refl, g.found_root⟩
  · cases (eq_of_state_set_initial hn).2
  · obtain ⟨state, hs, hne⟩ := hn
    exact absurd (eq_of_state_set_initial hs).2 hne
  · cases (eq_of_state_set_initial hx).2

variable (h : s.Search g)
include h

theorem dealt_of_done (hn : s.Done n) : s.Dealt g n := by
  obtain ⟨state, hstate, _⟩ := id hn
  exact ⟨fun _ => by rw [hstate]; rfl,
    fun hc => .of_targets fun m hm => (h.done n hn m hm).acyclic hc⟩

theorem loadable_of_loaded {x : SymbolId} (hn : s.state n = some (.loaded x)) : g.Loadable n := by
  obtain ⟨entries, hl⟩ := h.listed
  have hne : n ≠ g.root := fun heq => by
    rw [heq, h.root] at hn
    cases hn
  exact hl.loadable (fun m hm => (h.reached m hm).2) n ((hl.mem_iff n).2 ⟨hne, x, hn⟩)

omit h in
theorem done_set {m : PackageKey} (state : LoadState) (hm : (s.set n state).Done m) (hne : m ≠ n) :
    s.Done m := by
  obtain ⟨old, hold, hdone⟩ := hm
  exact ⟨old, (state_set_of_ne s hne _).symm.trans hold, hdone⟩

/-- A package that has been reached and is found begins to be loaded. -/
theorem begin (hnone : s.state n = none) (hreach : g.Reaches g.root n) (hfound : g.Found n) :
    (s.set n .inProgress).Search g := by
  have hroot : g.root ≠ n := fun heq => by
    have hprogress := h.root
    rw [heq, hnone] at hprogress
    cases hprogress
  obtain ⟨entries, hl⟩ := h.listed
  refine ⟨(state_set_of_ne s hroot _).trans h.root, fun m hm => ?_, fun m hm => ?_,
    fun m hm k hk => ?_, h.cycle, entries, hl.set (fun x hx => ?_) nofun⟩
  · by_cases hmn : m = n
    · rw [hmn]
      exact ⟨hreach, hfound⟩
    · rw [state_set_of_ne s hmn] at hm
      exact h.reached m hm
  · have hne : m ≠ n := fun hmn => by
      rw [hmn, state_set_self] at hm
      cases hm
    exact h.failed m ((state_set_of_ne s hne _).symm.trans hm)
  · have hne : m ≠ n := fun hmn => by
      obtain ⟨state, hstate, hdone⟩ := hm
      rw [hmn, state_set_self] at hstate
      exact hdone (Option.some.inj hstate).symm
    exact (h.done m (done_set _ hm hne) k hk).set _
  · rw [hnone] at hx
    cases hx

section

variable (hn : s.state n = some .inProgress) (hne : n ≠ g.root)
  (hdealt : ∀ m ∈ g.targets n, s.Dealt g m)
include hn hne hdealt

/-- A package whose imports have been dealt with cannot be loaded. -/
theorem fail (hbad : ¬g.Loadable n) : (s.set n .failed).Search g := by
  obtain ⟨entries, hl⟩ := h.listed
  refine ⟨(state_set_of_ne s hne.symm _).trans h.root, fun m hm => ?_, fun m hm => ?_,
    fun m hm k hk => ?_, h.cycle, entries, hl.set (fun x hx => ?_) nofun⟩
  · by_cases hmn : m = n
    · rw [hmn]
      exact h.reached n (by rw [hn]; rfl)
    · rw [state_set_of_ne s hmn] at hm
      exact h.reached m hm
  · by_cases hmn : m = n
    · rw [hmn]
      exact hbad
    · rw [state_set_of_ne s hmn] at hm
      exact h.failed m hm
  · by_cases hmn : m = n
    · exact (hdealt k (hmn ▸ hk)).set _
    · exact (h.done m (done_set _ hm hmn) k hk).set _
  · rw [hn] at hx
    cases hx

/-- A package all of whose imports are loaded is loaded. -/
theorem load (himports : ∀ m ∈ g.targets n, ∃ y, s.state m = some (.loaded y)) {p q : Package}
    {x : SymbolId} (hp : g.package? n = some p) (hbare : q.bare = p.collect.bare)
    (hx : q.symbol = some x) :
    Search g { s.set n (.loaded x) with loaded := s.loaded ++ [q] } := by
  obtain ⟨entries, hl⟩ := h.listed
  refine ⟨(state_set_of_ne s hne.symm _).trans h.root, fun m hm => ?_, fun m hm => ?_,
    fun m hm k hk => ?_, h.cycle, _, hl.load h.root hne (fun x hx => ?_) hp hbare hx himports⟩
  · by_cases hmn : m = n
    · rw [hmn]
      exact h.reached n (by rw [hn]; rfl)
    · exact h.reached m (by rw [← state_set_of_ne s hmn (.loaded x)]; exact hm)
  · have hmn : m ≠ n := fun hmn => by
      rw [hmn] at hm
      cases (state_set_self s n (.loaded x)).symm.trans hm
    exact h.failed m ((state_set_of_ne s hmn (.loaded x)).symm.trans hm)
  · have hold : s.Dealt g k := by
      by_cases hmn : m = n
      · exact hdealt k (hmn ▸ hk)
      · exact h.done m (done_set (.loaded x) hm hmn) k hk
    exact ⟨fun hf => isSome_set (hold.isSome hf) _, hold.acyclic⟩
  · rw [hn] at hx
    cases hx

end

/-- A cycle is reported. -/
theorem report (hcycle : ∃ n, g.Reaches g.root n ∧ g.OnCycle n) :
    Search g { s with cycle := true } := by
  obtain ⟨entries, hl⟩ := h.listed
  exact ⟨h.root, h.reached, h.failed, fun n hn m hm => ⟨(h.done n hn m hm).isSome, nofun⟩,
    fun _ => hcycle, entries, hl.packages, hl.nodup, hl.mem_iff, hl.entry, hl.imports⟩

end Search

/-! ## How deep the search goes -/

/-- How many imports of the library ask for a package without a state. -/
def pending (g : ImportGraph) (s : Progress) : Nat := g.library.pending s.state

/-- The imports of the package `cur` can be loaded with loads nested at most `depth` deep. What the
    root imports need not be imported by the library. -/
def Fits (g : ImportGraph) (cur : PackageKey) (depth : Nat) (s : Progress) : Prop :=
  s.pending g + (if cur = g.root then 1 else 0) ≤ depth

theorem Extends.pending_le (h : s.Extends s') : s'.pending g ≤ s.pending g :=
  g.library.pending_le fun _ => h.isSome

theorem Fits.mono {cur : PackageKey} {depth : Nat} (hf : s.Fits g cur depth) (h : s.Extends s') :
    s'.Fits g cur depth := Nat.le_trans (Nat.add_le_add_right h.pending_le _) hf

/-- A package that gets its first state is not pending any more. -/
theorem pending_set (hnone : s.state n = none) (state : LoadState) :
    (s.set n state).pending g ≤ s.pending g ∧
      (n ∈ g.libraryTargets → (s.set n state).pending g < s.pending g) := by
  have hsome : ∀ m, (s.state m).isSome → ((s.set n state).state m).isSome := fun _ hm =>
    isSome_set hm state
  refine ⟨g.library.pending_le hsome, fun hmem => g.library.pending_lt hsome hmem hnone ?_⟩
  rw [state_set_self]
  rfl

/-- There is depth left for a package that is begun to be loaded. -/
theorem Fits.begin {cur : PackageKey} {depth : Nat} (hf : s.Fits g cur depth) (he : g.Edge cur n)
    (hnone : s.state n = none) (hn : n ≠ g.root) :
    ∃ d, depth = d + 1 ∧ (s.set n .inProgress).Fits g n d := by
  obtain ⟨hle, hlt⟩ := pending_set (g := g) hnone .inProgress
  unfold Fits at hf ⊢
  rw [if_neg hn]
  by_cases hc : cur = g.root
  · rw [if_pos hc] at hf
    exact ⟨depth - 1, by omega, by omega⟩
  · have hlt := hlt (ImportGraph.mem_libraryTargets he hc)
    rw [if_neg hc] at hf
    exact ⟨depth - 1, by omega, by omega⟩

/-! ## Imports -/

/-- What a load of the package `n` comes to. -/
def Outcome (g : ImportGraph) (s s' : Progress) (n : PackageKey) :
    Except LoadError SymbolId → Prop
  | .ok x => s'.state n = some (.loaded x)
  | .error (.cycle _) => s.state n = some .inProgress
  | .error (.notFound _) => ¬g.Found n
  | .error (.failed _) => s'.state n = some .failed

/-- Imports of the packages `ns` are entered, and some of them have failed or not. -/
structure Searched (g : ImportGraph) (ns : List PackageKey) (failed : Bool) (s s' : Progress) :
    Prop where
  search : s'.Search g
  after : s.Extends s'
  dealt : ∀ n ∈ ns, s'.Dealt g n
  loaded : failed = false → ∀ n ∈ ns, ∃ x, s'.state n = some (.loaded x)
  failed : failed = true → ∃ n ∈ ns, ¬g.Loadable n

theorem Searched.nil (h : s.Search g) : Searched g [] false s s :=
  ⟨h, .refl s, fun _ hn => absurd hn List.not_mem_nil, fun _ _ hn => absurd hn List.not_mem_nil,
    nofun⟩

theorem Searched.cons {ns : List PackageKey} {failed failed' : Bool}
    (h : Searched g [n] failed s s') (h' : Searched g ns failed' s' s'') :
    Searched g (n :: ns) (failed || failed') s s'' where
  search := h'.search
  after := h.after.trans h'.after
  dealt m hm := by
    rcases List.mem_cons.1 hm with rfl | hm
    · exact h'.after.dealt (h.dealt m (List.mem_singleton_self m))
    · exact h'.dealt m hm
  loaded hf m hm := by
    obtain ⟨hf, hf'⟩ := Bool.or_eq_false_iff.1 hf
    rcases List.mem_cons.1 hm with rfl | hm
    · obtain ⟨x, hx⟩ := h.loaded hf m (List.mem_singleton_self m)
      exact ⟨x, h'.after.state m _ hx⟩
    · exact h'.loaded hf' m hm
  failed hf := by
    rcases Bool.or_eq_true_iff.1 hf with hf | hf
    · obtain ⟨m, hm, hbad⟩ := h.failed hf
      exact ⟨m, List.mem_cons.2 (.inl (List.mem_singleton.1 hm)), hbad⟩
    · obtain ⟨m, hm, hbad⟩ := h'.failed hf
      exact ⟨m, List.mem_cons_of_mem _ hm, hbad⟩

/-- A load that succeeds. -/
theorem Searched.of_ok (h : s'.Search g) (hs : s.Extends s') {x : SymbolId}
    (hx : s'.state n = some (.loaded x)) : Searched g [n] false s s' where
  search := h
  after := hs
  dealt _ hm := List.mem_singleton.1 hm ▸ h.dealt_of_done ⟨_, hx, nofun⟩
  loaded _ _ hm := ⟨x, List.mem_singleton.1 hm ▸ hx⟩
  failed := nofun

/-- A load that fails, which is reported. -/
theorem Searched.of_error (h : s'.Search g) (hs : s.Extends s') {cur : PackageKey}
    (hgray : s.state n = some .inProgress → g.Reaches n cur) (he : g.Edge cur n) {e : LoadError}
    (ho : Outcome g s s' n (.error e)) :
    Searched g [n] true s { s' with cycle := s'.cycle || e.isCycle } := by
  have hone : ∀ {P : PackageKey → Prop}, P n → ∀ m ∈ [n], P m := fun hn m hm =>
    List.mem_singleton.1 hm ▸ hn
  cases e with
  | notFound =>
    have hbad : ¬g.Found n := ho
    have hsame : { s' with cycle := s'.cycle || false } = s' := by rw [Bool.or_false]
    have hdealt : s'.Dealt g n := ⟨fun hf => absurd hf hbad, fun _ => .of_not_found hbad⟩
    change Searched g [n] true s { s' with cycle := s'.cycle || false }
    rw [hsame]
    exact ⟨h, hs, hone hdealt, nofun, fun _ => ⟨n, List.mem_singleton_self n, fun hl =>
      hbad (hl.2 n .refl)⟩⟩
  | failed =>
    have hfailed : s'.state n = some .failed := ho
    have hsame : { s' with cycle := s'.cycle || false } = s' := by rw [Bool.or_false]
    change Searched g [n] true s { s' with cycle := s'.cycle || false }
    rw [hsame]
    exact ⟨h, hs, hone (h.dealt_of_done ⟨_, hfailed, nofun⟩), nofun,
      fun _ => ⟨n, List.mem_singleton_self n, h.failed n hfailed⟩⟩
  | cycle =>
    -- What is in progress leads here, so the import closes a cycle.
    have hprogress : s'.state n = some .inProgress := hs.state n _ ho
    have hcycle : g.OnCycle n := ImportGraph.onCycle_of_edge he (hgray ho)
    have hsome : (s'.state n).isSome := by rw [hprogress]; rfl
    have htrue : { s' with cycle := s'.cycle || true } = { s' with cycle := true } := by
      rw [Bool.or_true]
    change Searched g [n] true s { s' with cycle := s'.cycle || true }
    rw [htrue]
    refine ⟨h.report ⟨n, (h.reached n hsome).1, hcycle⟩, ⟨hs.state, fun _ => rfl, hs.inProgress⟩,
      hone ⟨fun _ => hsome, nofun⟩, nofun, fun _ => ⟨n, List.mem_singleton_self n, fun hl => ?_⟩⟩
    exact hl.1 n .refl hcycle

/-! ## The end of a package -/

section

variable {failed : Bool} (h : Searched g (g.targets n) failed (s.set n .inProgress) s')
  (hnone : s.state n = none) (hne : n ≠ g.root)
include h hnone hne

/-- One of the imports of a package cannot be loaded. -/
theorem Searched.fail (hf : failed = true) :
    (s'.set n .failed).Search g ∧ s.Extends (s'.set n .failed) := by
  obtain ⟨m, hm, hbad⟩ := h.failed hf
  have hgray := h.after.state n _ (state_set_self s n .inProgress)
  exact ⟨h.search.fail hgray hne h.dealt fun hl => hbad (hl.of_edge hm), .of_set hnone h.after nofun⟩

/-- All imports of a package are loaded. -/
theorem Searched.load (hf : failed = false) {p q : Package} {x : SymbolId}
    (hp : g.package? n = some p) (hbare : q.bare = p.collect.bare) (hx : q.symbol = some x) :
    Search g { s'.set n (.loaded x) with loaded := s'.loaded ++ [q] } ∧
      s.Extends { s'.set n (.loaded x) with loaded := s'.loaded ++ [q] } := by
  have hgray := h.after.state n _ (state_set_self s n .inProgress)
  have hafter : s.Extends (s'.set n (.loaded x)) := .of_set hnone h.after nofun
  exact ⟨h.search.load hgray hne h.dealt (h.loaded hf) hp hbare hx,
    hafter.state, hafter.cycle, hafter.inProgress⟩

end

/-! ## The end of a search -/

/-- What is decided about the graph when its root is entered, be it with success or not: which
    packages could be loaded, and whether there are cycles. -/
structure Decides (g : ImportGraph) (ok : Bool) (s : Progress) : Prop where
  ok_iff : ok = true ↔ g.Loadable g.root
  loaded_iff : ∀ n, n ≠ g.root →
    ((∃ x, s.state n = some (.loaded x)) ↔ g.Reaches g.root n ∧ g.Loadable n)
  failed_iff : ∀ n, n ≠ g.root →
    (s.state n = some .failed ↔ g.Reaches g.root n ∧ g.Found n ∧ ¬g.Loadable n)
  none_iff : ∀ n, n ≠ g.root → (s.state n = none ↔ ¬(g.Reaches g.root n ∧ g.Found n))
  cycle_iff : s.cycle = true ↔ ∃ n, g.Reaches g.root n ∧ g.OnCycle n
  listed : ∃ entries, s.Listed g entries

section

variable {failed : Bool}
  (h : Searched g (g.targets g.root) failed (initial.set g.root .inProgress) s)
include h

/-- Only the root is in progress. -/
theorem Searched.eq_root (hn : s.state n = some .inProgress) : n = g.root :=
  (eq_of_state_set_initial (h.after.inProgress n hn)).1

/-- When the imports of the root are dealt with, all packages that can be reached are done. -/
theorem Searched.done (hreach : g.Reaches g.root n) (hfound : g.Found n) (hn : n ≠ g.root) :
    s.Done n := by
  have hdone : ∀ {m}, (s.state m).isSome → m ≠ g.root → s.Done m := fun hm hne => by
    obtain ⟨state, hstate⟩ := Option.isSome_iff_exists.1 hm
    refine ⟨state, hstate, fun heq => hne (h.eq_root ?_)⟩
    rw [hstate, heq]
  refine hdone ?_ hn
  induction hreach with
  | refl => exact absurd rfl hn
  | @tail b c _ he ih =>
    by_cases hb : b = g.root
    · exact (h.dealt c (hb ▸ he)).isSome hfound
    · have hbdone := hdone (ih (ImportGraph.found_of_edge he) hb) hb
      exact (h.search.done b hbdone c he).isSome hfound

/-- Each package that can be reached is loaded or has failed, as the graph says. -/
theorem Searched.state_cases (hreach : g.Reaches g.root n) (hfound : g.Found n)
    (hn : n ≠ g.root) : (g.Loadable n ∧ ∃ x, s.state n = some (.loaded x)) ∨
      (¬g.Loadable n ∧ s.state n = some .failed) := by
  obtain ⟨state, hstate, hdone⟩ := h.done hreach hfound hn
  cases state with
  | inProgress => exact absurd rfl hdone
  | loaded x => exact .inl ⟨h.search.loadable_of_loaded hstate, x, hstate⟩
  | failed => exact .inr ⟨h.search.failed n hstate, hstate⟩

/-- The root can be loaded just if no import of it has failed. -/
theorem Searched.loadable_root_iff : g.Loadable g.root ↔ failed = false := by
  refine ⟨fun hl => Bool.eq_false_iff.2 fun hf => ?_, fun hf => ?_⟩
  · obtain ⟨m, hm, hbad⟩ := h.failed hf
    exact hbad (hl.of_edge hm)
  · refine .of_targets g.found_root fun m hm => ?_
    obtain ⟨x, hx⟩ := h.loaded hf m hm
    exact h.search.loadable_of_loaded hx

/-- A cycle is reported just if one can be reached. -/
theorem Searched.cycle_iff : s.cycle = true ↔ ∃ n, g.Reaches g.root n ∧ g.OnCycle n := by
  refine ⟨h.search.cycle, fun ⟨n, hreach, hcycle⟩ => ?_⟩
  cases hc : s.cycle with
  | true => rfl
  | false =>
    have hacyclic : g.Acyclic g.root := .of_targets fun m hm => (h.dealt m hm).acyclic hc
    exact absurd hcycle (hacyclic n hreach)

/-- When all imports of the root have been entered, everything is decided. The state of the root
    itself does not matter. -/
theorem Searched.decides (state : LoadState) : (s.set g.root state).Decides g (!failed) := by
  obtain ⟨entries, hl⟩ := h.search.listed
  refine ⟨?_, fun n hn => ?_, fun n hn => ?_, fun n hn => ?_, h.cycle_iff, entries,
    hl.set_root state⟩
  · rw [h.loadable_root_iff, Bool.not_eq_true']
  all_goals rw [state_set_of_ne s hn]
  · refine ⟨fun ⟨x, hx⟩ => ?_, fun ⟨hreach, hloadable⟩ => ?_⟩
    · exact ⟨(h.search.reached n (by rw [hx]; rfl)).1, h.search.loadable_of_loaded hx⟩
    · rcases h.state_cases hreach (hloadable.2 n .refl) hn with ⟨_, hx⟩ | ⟨hbad, _⟩
      · exact hx
      · exact absurd hloadable hbad
  · refine ⟨fun hfailed => ?_, fun ⟨hreach, hfound, hbad⟩ => ?_⟩
    · obtain ⟨hreach, hfound⟩ := h.search.reached n (by rw [hfailed]; rfl)
      exact ⟨hreach, hfound, h.search.failed n hfailed⟩
    · rcases h.state_cases hreach hfound hn with ⟨hloadable, _⟩ | ⟨_, hfailed⟩
      · exact absurd hloadable hbad
      · exact hfailed
  · refine ⟨fun hnone ⟨hreach, hfound⟩ => ?_, fun hnot => ?_⟩
    · obtain ⟨state, hstate, _⟩ := h.done hreach hfound hn
      exact absurd (hnone.symm.trans hstate) nofun
    · exact Option.not_isSome_iff_eq_none.1 fun hsome => hnot (h.search.reached n hsome)

end

/-- What is decided is the same for graphs with the same imports, in whatever order these are
    written. -/
theorem Decides.agree {g' : ImportGraph} {ok ok' : Bool} (h : s.Decides g ok)
    (h' : s'.Decides g' ok') (hroot : g'.root = g.root) (hfound : g'.Found = g.Found)
    (hedge : g'.Edge = g.Edge) : ok' = ok ∧ s'.cycle = s.cycle ∧ ∀ n, n ≠ g.root →
      ((∃ x, s'.state n = some (.loaded x)) ↔ ∃ x, s.state n = some (.loaded x)) ∧
      (s'.state n = some .failed ↔ s.state n = some .failed) ∧
      (s'.state n = none ↔ s.state n = none) := by
  have hreaches : g'.Reaches = g.Reaches := congrArg Relation.ReflTransGen hedge
  have hcycle : g'.OnCycle = g.OnCycle :=
    funext fun n => congrArg (Relation.TransGen · n n) hedge
  have hloadable : g'.Loadable = g.Loadable := funext fun n => by
    unfold ImportGraph.Loadable ImportGraph.Acyclic ImportGraph.Complete
    rw [hreaches, hcycle, hfound]
  refine ⟨Bool.eq_iff_iff.2 ?_, Bool.eq_iff_iff.2 ?_, fun n hn => ?_⟩
  · rw [h'.ok_iff, h.ok_iff, hloadable, hroot]
  · rw [h'.cycle_iff, h.cycle_iff, hreaches, hcycle, hroot]
  · have hn' : n ≠ g'.root := hroot ▸ hn
    rw [h'.loaded_iff n hn', h.loaded_iff n hn, h'.failed_iff n hn', h.failed_iff n hn,
      h'.none_iff n hn', h.none_iff n hn, hreaches, hfound, hloadable, hroot]
    exact ⟨.rfl, .rfl, .rfl⟩

end Progress

end Binder
