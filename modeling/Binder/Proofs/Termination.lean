import Mathlib.Data.List.Dedup
import Binder.History
import Binder.Proofs.Entry.Turn
import Binder.Proofs.ImportGraph

/-!
# Loading comes to an end

The depth to which loads may be nested is no part of what loading means: a package that has no state
is fetched and entered, its imports are loaded in the same way, and nothing says how long this goes
on. Here loading is described like that, without a bound, along with the packages that are entered on
the way. Every request is answered nevertheless, whatever packages import each other. A package has a
state from the moment it is begun to be entered, and no state is ever taken away. So no package is
entered twice for one request, and each nested load leaves fewer imports that ask for a package
without a state.

* `Session.Loads`, `Session.Answers`: what loads and requests come to, and the packages entered.
* `Session.Loads.unique`: they come to one thing only.
* `Session.Visits`: every package entered has had no state before.
* `Session.loadWithin_ends`: a depth that fits the imports without a state is deep enough.
* `Session.Reachable.answers`: every request is answered, and how many packages are entered for it.
-/

namespace Binder

/-! ## Loading without a bound -/

/-- The turns of the imports of a package that is entered. -/
def Package.turns (load : Loader) (path : Option PackageName) (p : Package) (s : Session) :
    List Import.Turn :=
  Import.turns load (p.collect.opened path s).2.1 p.collect.imports (p.collect.opened path s).2.2

namespace Session

/-- A load comes to an answer and a session, with packages entered on the way: the one that is asked
    for, unless it is settled or missing, and those that are entered for its imports. The loader
    stands for the loads of the imports only. -/
inductive Loads :
    PackageName → Session → Except LoadError SymbolId × Session → List PackageKey → Prop
  | settled {s : Session} {name : PackageName} {outcome : Except LoadError SymbolId} :
    s.settled? name = some outcome → Loads name s (outcome, s) []
  | missing {s : Session} {name : PackageName} :
    s.settled? name = none → s.fetch? name = none →
    Loads name s (.error (.notFound (name.text s.store.names)), s) []
  | fetched {s : Session} {name : PackageName} {p : Package} {load : Loader}
      {entered : Import.Turn → List PackageKey} :
    s.Fetches name p →
    (∀ t ∈ p.turns load (some name) (setState name .inProgress s).2,
      Loads t.asked.1 t.asked.2 t.answered (entered t)) →
    Loads name s (enterFetched load name p s) (name.key s.store.names ::
      (p.turns load (some name) (setState name .inProgress s).2).flatMap entered)

end Session

/-- The load of a turn comes to what it is answered with, with `keys` entered on the way. -/
def Import.Turn.Loads (t : Import.Turn) (keys : List PackageKey) : Prop :=
  Session.Loads t.asked.1 t.asked.2 t.answered keys

/-- There is nothing else that the load of a turn could come to. -/
def Import.Turn.Only (t : Import.Turn) (keys : List PackageKey) : Prop :=
  ∀ r keys', Session.Loads t.asked.1 t.asked.2 r keys' → r = t.answered ∧ keys' = keys

namespace Session

/-- A request comes to a response and a session, with packages entered on the way. -/
inductive Answers : Request → Session → Response × Session → List PackageKey → Prop
  | define {s : Session} {p : Package} {load : Loader} {entered : Import.Turn → List PackageKey} :
    (∀ t ∈ p.turns load none s, t.Loads (entered t)) →
    Answers (.define p) s
      (.entered (p.enterWith load none s).1.1 (p.enterWith load none s).1.2,
        (p.enterWith load none s).2)
      (p.collect.ownKey s.config none :: (p.turns load none s).flatMap entered)
  | enterAs {s s₁ : Session} {name : PackageName} {path : List String} {version : Option String}
      {p : Package} {load : Loader} {entered : Import.Turn → List PackageKey} :
    onStore (Store.internPackage path version) s = (name, s₁) →
    (∀ t ∈ p.turns load (some name) s₁, t.Loads (entered t)) →
    Answers (.enterAs path version p) s
      (.entered (p.enterWith load (some name) s₁).1.1 (p.enterWith load (some name) s₁).1.2,
        (p.enterWith load (some name) s₁).2)
      ((path, version) :: (p.turns load (some name) s₁).flatMap entered)
  | load {s s₁ s' : Session} {name : PackageName} {path : List String} {version : Option String}
      {outcome : Except LoadError SymbolId} {keys : List PackageKey} :
    onStore (Store.internPackage path version) s = (name, s₁) →
    Loads name s₁ (outcome, s') keys →
    Answers (.load path version) s (.loaded outcome, s') keys

end Session

/-! ## One answer only -/

section

variable {load load' : Loader} {entered entered' : Import.Turn → List PackageKey} {site : Site}
  {path : Option PackageName} {s : Session}

/-- Imports are entered in one way only if there is only one way to load what they ask for. -/
theorem Import.turns_unique (imports : List Import)
    (h : ∀ t ∈ turns load site imports s, t.Only (entered t))
    (h' : ∀ t ∈ turns load' site imports s, t.Loads (entered' t)) :
    enterAll load' site imports s = enterAll load site imports s ∧
      (turns load' site imports s).flatMap entered' = (turns load site imports s).flatMap entered := by
  induction imports generalizing s with
  | nil => exact ⟨rfl, rfl⟩
  | cons i rest ih =>
    rw [turns] at h h'
    obtain ⟨hloaded, hkeys⟩ := h (i.turn load s) List.mem_cons_self (i.turn load' s).answered
      (entered' (i.turn load' s)) (h' (i.turn load' s) List.mem_cons_self)
    have henter : i.enter load' site s = i.enter load site s := enter_congr hloaded
    rw [henter] at h'
    obtain ⟨hrest, hflat⟩ := ih (fun t ht => h t (List.mem_cons_of_mem _ ht))
      fun t ht => h' t (List.mem_cons_of_mem _ ht)
    rw [enterAll_cons, enterAll_cons, turns, turns, henter, hrest, List.flatMap_cons,
      List.flatMap_cons, hkeys, hflat]
    exact ⟨rfl, rfl⟩

theorem Package.turns_unique (p : Package)
    (h : ∀ t ∈ p.turns load path s, t.Only (entered t))
    (h' : ∀ t ∈ p.turns load' path s, t.Loads (entered' t)) :
    p.enterWith load' path s = p.enterWith load path s ∧
      (p.turns load' path s).flatMap entered' = (p.turns load path s).flatMap entered := by
  obtain ⟨hall, hkeys⟩ := Import.turns_unique p.collect.imports h h'
  exact ⟨p.enterWith_congr hall, hkeys⟩

end

namespace Session

theorem enterFetched_congr {load load' : Loader} {name : PackageName} {p : Package} {s : Session}
    (h : p.enterWith load' (some name) (setState name .inProgress s).2 =
      p.enterWith load (some name) (setState name .inProgress s).2) :
    enterFetched load' name p s = enterFetched load name p s := by
  unfold enterFetched
  simp only [run_bind, run_get, h]

/-- A load comes to one thing only. -/
theorem Loads.unique {name : PackageName} {s : Session}
    {r r' : Except LoadError SymbolId × Session} {keys keys' : List PackageKey}
    (h : Loads name s r keys) (h' : Loads name s r' keys') : r' = r ∧ keys' = keys := by
  induction h generalizing r' keys' with
  | settled hs =>
    cases h' with
    | settled hs' =>
      cases hs.symm.trans hs'
      exact ⟨rfl, rfl⟩
    | missing hs' => cases hs.symm.trans hs'
    | fetched hf => cases hs.symm.trans hf.settled?
  | missing hs hp =>
    cases h' with
    | settled hs' => cases hs.symm.trans hs'
    | missing => exact ⟨rfl, rfl⟩
    | fetched hf => cases hp.symm.trans hf.fetch?
  | @fetched s name p load entered hf _ ih =>
    cases h' with
    | settled hs' => cases hf.settled?.symm.trans hs'
    | missing _ hp' => cases hf.fetch?.symm.trans hp'
    | @fetched _ _ p' load' entered' hf' h' =>
      cases hf.fetch?.symm.trans hf'.fetch?
      obtain ⟨henter, hkeys⟩ := p.turns_unique (fun t ht _ _ => ih t ht) h'
      rw [enterFetched_congr henter, hkeys]
      exact ⟨rfl, rfl⟩

/-- So does a request. -/
theorem Answers.unique {r : Request} {s : Session} {a a' : Response × Session}
    {keys keys' : List PackageKey} (h : Answers r s a keys) (h' : Answers r s a' keys') :
    a' = a ∧ keys' = keys := by
  cases h with
  | @define _ p _ _ h =>
    cases h' with
    | define h' =>
      obtain ⟨henter, hkeys⟩ := p.turns_unique (fun t ht _ _ => (h t ht).unique) h'
      rw [henter, hkeys]
      exact ⟨rfl, rfl⟩
  | @enterAs _ _ _ _ _ p _ _ hname h =>
    cases h' with
    | enterAs hname' h' =>
      cases hname.symm.trans hname'
      obtain ⟨henter, hkeys⟩ := p.turns_unique (fun t ht _ _ => (h t ht).unique) h'
      rw [henter, hkeys]
      exact ⟨rfl, rfl⟩
  | load hname h =>
    cases h' with
    | load hname' h' =>
      cases hname.symm.trans hname'
      obtain ⟨heq, hkeys⟩ := h.unique h'
      cases heq
      exact ⟨rfl, hkeys⟩

/-! ## Packages that are visited -/

/-- Between the sessions, packages were entered that had no state, each of them once, and they have
    states since. No state was changed that was set. -/
structure Visits (s : Session) (keys : List PackageKey) (s' : Session) : Prop where
  settles : s.Settles s'
  nodup : keys.Nodup
  fresh : ∀ key ∈ keys, s.stateOf key = none
  visited : ∀ key ∈ keys, (s'.stateOf key).isSome

variable {s s₁ s' : Session} {keys keys' : List PackageKey}

theorem Settles.isSome (h : s.Settles s') {key : PackageKey} (hkey : (s.stateOf key).isSome) :
    (s'.stateOf key).isSome := by
  obtain ⟨state, hstate⟩ := Option.isSome_iff_exists.1 hkey
  exact Option.isSome_iff_exists.2 ⟨state, h key state hstate⟩

/-- What has no state later on had none before. -/
theorem Settles.eq_none (h : s.Settles s') {key : PackageKey} (hkey : s'.stateOf key = none) :
    s.stateOf key = none := by
  cases hs : s.stateOf key with
  | none => rfl
  | some state => exact absurd (hkey.symm.trans (h key state hs)) nofun

theorem Visits.nil (h : s.Settles s') : s.Visits [] s' :=
  ⟨h, .nil, fun _ hkey => absurd hkey List.not_mem_nil, fun _ hkey => absurd hkey List.not_mem_nil⟩

theorem Visits.append (h : s.Visits keys s₁) (h' : s₁.Visits keys' s') :
    s.Visits (keys ++ keys') s' where
  settles := h.settles.trans h'.settles
  nodup := List.nodup_append.2 ⟨h.nodup, h'.nodup, fun key hkey _ hkey' heq => by
    -- What was entered first has a state when the others begin.
    have hsome := h.visited key hkey
    rw [heq, h'.fresh _ hkey'] at hsome
    cases hsome⟩
  fresh key hkey := (List.mem_append.1 hkey).elim (h.fresh key) fun hkey' =>
    h.settles.eq_none (h'.fresh key hkey')
  visited key hkey := (List.mem_append.1 hkey).elim
    (fun hkey => h'.settles.isSome (h.visited key hkey)) (h'.visited key)

theorem Visits.of_eq (h : s.Visits keys s₁) (heq : ∀ key, s'.stateOf key = s₁.stateOf key) :
    s.Visits keys s' := by
  have hvisits := h.append (.nil (.of_eq heq))
  rw [List.append_nil] at hvisits
  exact hvisits

end Session

section

variable {load : Loader} {entered : Import.Turn → List PackageKey} {site : Site}
  {path : Option PackageName} {s₀ s : Session}

/-- The packages entered for imports are all different, as each turn leaves states behind. -/
theorem Import.visits_turns (hload : load.Sound) (imports : List Import) (h : site.Opens s₀ s)
    (hturns : ∀ t ∈ turns load site imports s, t.before.Visits (entered t) t.loaded) :
    s.Visits ((turns load site imports s).flatMap entered) (enterAll load site imports s).2 := by
  induction imports generalizing s with
  | nil => exact .nil (.refl s)
  | cons i rest ih =>
    have hfirst : s.Visits (entered (i.turn load s)) (i.loaded load s).2 :=
      hturns _ List.mem_cons_self
    have hrest := ih (i.enter_opens hload h).1 fun t ht => hturns t (List.mem_cons_of_mem _ ht)
    rw [enterAll_cons, turns, List.flatMap_cons]
    exact (hfirst.of_eq (i.stateOf_enter hload site h.sound)).append hrest

/-- A package is entered along with others for its imports. It is in progress meanwhile, so it is
    none of them. -/
theorem Package.visits_turns (hload : load.Sound) (p : Package) (hs : s.Sound)
    (hpath : ∀ name ∈ path, name.Known s.store.names)
    (hturns : ∀ t ∈ p.turns load path s, t.before.Visits (entered t) t.loaded) :
    let own := p.collect.ownKey s.config (path.map (·.key s.store.names))
    let keys := (p.turns load path s).flatMap entered
    (own :: keys).Nodup ∧ (∀ key ∈ keys, s.stateOf key = none) ∧
      ∀ key ∈ own :: keys, ((p.enterWith load path s).2.stateOf key).isSome := by
  intro own keys
  obtain ⟨hopened, _⟩ := p.collect.opened_spec hs hpath
  obtain ⟨_, hstates⟩ := p.collect.opened_settles hs hpath
  have hset := p.stateOf_enterWith hload hs hpath
  have hvisits := Import.visits_turns hload p.collect.imports hopened.opens hturns
  have hne : ∀ key ∈ keys, key ≠ own := fun key hkey heq => by
    have hnone := hvisits.fresh key hkey
    rw [hstates, if_pos heq] at hnone
    cases hnone
  refine ⟨List.nodup_cons.2 ⟨fun hown => hne own hown rfl, hvisits.nodup⟩, fun key hkey => ?_,
    List.forall_mem_cons.2 ⟨?_, fun key hkey => ?_⟩⟩
  · have hnone := hvisits.fresh key hkey
    rw [hstates, if_neg (hne key hkey)] at hnone
    exact hnone
  · rw [hset, if_pos rfl]
    rfl
  · rw [hset, if_neg (hne key hkey)]
    exact hvisits.visited key hkey

end

namespace Session

variable {s s₁ : Session} {name : PackageName} {key : PackageKey} {depth : Nat} {load : Loader}

/-- A package that is fetched is visited with those that are entered for its imports. -/
theorem visits_enterFetched {entered : Import.Turn → List PackageKey} (hload : load.Sound)
    (hsettles : load.Settles) (p : Package) (hs : s.Sound) (hname : name.Known s.store.names)
    (hnone : s.stateOf (name.key s.store.names) = none)
    (hturns : ∀ t ∈ p.turns load (some name) (setState name .inProgress s).2,
      t.before.Visits (entered t) t.loaded) :
    s.Visits (name.key s.store.names ::
      (p.turns load (some name) (setState name .inProgress s).2).flatMap entered)
      (enterFetched load name p s).2 := by
  have hs₁ : (setState name .inProgress s).2.Sound := hs.setState hname nofun
  have hbegin := hs.settles_setState hname hnone .inProgress
  obtain ⟨hnodup, hfresh, hvisited⟩ :=
    p.visits_turns hload hs₁ (known_of_mem_some hname) hturns
  have hset := stateOf_enterFetched hload p hs hname
  refine ⟨(enterFetched_settles hload hsettles p hs hname hnone).1, hnodup,
    List.forall_mem_cons.2 ⟨hnone, fun key hkey => hbegin.eq_none (hfresh key hkey)⟩,
    fun key hkey => ?_⟩
  rw [hset]
  split
  · rfl
  · exact hvisited key hkey

/-! ## How deep loads go -/

/-- A load of the package can be nested so deep only. What the library does not import is asked for
    by the caller. -/
def Fits (s : Session) (key : PackageKey) (depth : Nat) : Prop :=
  s.registry.library.pending s.stateOf +
    (if key ∈ s.registry.library.targets then 0 else 1) ≤ depth

/-- No more imports ask for a package without a state later on. -/
theorem Settles.pending_le (h : s.Settles s₁) (l : Library) :
    l.pending s₁.stateOf ≤ l.pending s.stateOf := l.pending_le fun _ => h.isSome

theorem Settles.pending_lt (h : s.Settles s₁) {l : Library} (hkey : key ∈ l.targets)
    (hnone : s.stateOf key = none) (hsome : (s₁.stateOf key).isSome) :
    l.pending s₁.stateOf < l.pending s.stateOf :=
  l.pending_lt (fun _ => h.isSome) hkey hnone hsome

theorem Fits.mono (h : s.Fits key depth) (hsettles : s.Settles s₁)
    (hlibrary : s₁.registry.library = s.registry.library) : s₁.Fits key depth := by
  unfold Fits at h ⊢
  rw [hlibrary]
  exact Nat.le_trans (Nat.add_le_add_right (hsettles.pending_le _) _) h

/-- There is depth left for the imports of a package that is begun to be entered. -/
theorem Fits.begin (h : s.Fits key depth) (hsettles : s.Settles s₁)
    (hlibrary : s₁.registry.library = s.registry.library) (hnone : s.stateOf key = none)
    (hsome : (s₁.stateOf key).isSome) :
    ∃ d, depth = d + 1 ∧ ∀ n ∈ s.registry.library.targets, s₁.Fits n d := by
  obtain ⟨d, hd, hpending⟩ : ∃ d, depth = d + 1 ∧ s.registry.library.pending s₁.stateOf ≤ d := by
    unfold Fits at h
    by_cases hkey : key ∈ s.registry.library.targets
    · have hlt := hsettles.pending_lt hkey hnone hsome
      exact ⟨depth - 1, by omega, by omega⟩
    · have hle := hsettles.pending_le s.registry.library
      rw [if_neg hkey] at h
      exact ⟨depth - 1, by omega, by omega⟩
  refine ⟨d, hd, fun n hn => ?_⟩
  rw [Fits, hlibrary, if_pos hn]
  exact hpending

/-- What a caller asks for fits the bound. -/
theorem fits_depthBound (s : Session) (key : PackageKey) : s.Fits key s.depthBound := by
  have hpending := s.registry.library.pending_le_importCount s.stateOf
  unfold Fits depthBound
  split <;> omega

end Session

/-- A load comes to an end if it fits the depth. The packages entered are those asked for and imports
    of the library. -/
def Loader.Ends (depth : Nat) (load : Loader) : Prop :=
  ∀ name (s : Session), s.Sound → name.Known s.store.names →
    s.Fits (name.key s.store.names) depth →
    ∃ keys, Session.Loads name s (load name s) keys ∧ s.Visits keys (load name s).2 ∧
      ∀ key ∈ keys, key = name.key s.store.names ∨ key ∈ s.registry.library.targets

section

variable {load : Loader} {depth : Nat} {site : Site} {path : Option PackageName} {s₀ s : Session}

/-- The load of an import comes to an end. -/
theorem Import.turn_ends (hends : load.Ends depth) (i : Import) (hs : s.Sound)
    (hfits : s.Fits i.target depth) :
    ∃ keys, (i.turn load s).Loads keys ∧ s.Visits keys (i.loaded load s).2 ∧
      ∀ key ∈ keys, key = i.target ∨ key ∈ s.registry.library.targets := by
  obtain ⟨hs₁, hl₁, hknown⟩ := hs.internPackage i.target.1 i.target.2
  have hkey : (i.targetName s).1.key (i.targetName s).2.store.names = i.target :=
    (Store.internPackage_spec i.target.1 i.target.2 s.store).2
  have hnames : s.Settles (i.targetName s).2 := .of_eq (hs.stateOf_withStore hl₁.keeps.names)
  have hload := hends (i.targetName s).1 (i.targetName s).2 hs₁ hknown
  rw [hkey] at hload
  obtain ⟨keys, hloads, hvisits, hmem⟩ := hload (hfits.mono hnames hl₁.library)
  exact ⟨keys, hloads, Session.Visits.append (.nil hnames) hvisits, hl₁.library ▸ hmem⟩

/-- So do the loads of all imports of a package, whatever the first ones have entered. -/
theorem Import.turns_end (hload : load.Sound) (hsettles : load.Settles) (hends : load.Ends depth)
    (imports : List Import) (h : site.Opens s₀ s) (hfits : ∀ i ∈ imports, s.Fits i.target depth) :
    ∀ t ∈ turns load site imports s, ∃ keys, t.Loads keys ∧ t.before.Visits keys t.loaded ∧
      ∀ key ∈ keys, key = t.written.target ∨ key ∈ s.registry.library.targets := by
  induction imports generalizing s with
  | nil => exact fun t ht => absurd ht List.not_mem_nil
  | cons i rest ih =>
    obtain ⟨hopens, hstates, _⟩ := i.enter_settles hload hsettles h
    have hlibrary : (i.enter load site s).2.registry.library = s.registry.library :=
      hopens.leads.library.trans h.leads.library.symm
    have hrest := ih hopens fun j hj =>
      (hfits j (List.mem_cons_of_mem i hj)).mono hstates hlibrary
    rw [hlibrary] at hrest
    rw [turns]
    exact List.forall_mem_cons.2 ⟨i.turn_ends hends h.sound (hfits i List.mem_cons_self), hrest⟩

/-- The imports of a package that is entered have turns that come to an end. -/
theorem Package.turns_end (hload : load.Sound) (hsettles : load.Settles) (hends : load.Ends depth)
    (p : Package) (hs : s.Sound) (hpath : ∀ name ∈ path, name.Known s.store.names)
    (hfits : ∀ i ∈ p.collect.imports, (p.collect.opened path s).2.2.Fits i.target depth) :
    ∃ entered : Import.Turn → List PackageKey, ∀ t ∈ p.turns load path s,
      t.Loads (entered t) ∧ t.before.Visits (entered t) t.loaded ∧
        ∀ key ∈ entered t, key ∈ p.collect.imports.map (·.target) ++ s.registry.library.targets := by
  obtain ⟨hopened, _⟩ := p.collect.opened_spec hs hpath
  have hturns := Import.turns_end hload hsettles hends p.collect.imports hopened.opens hfits
  rw [hopened.opens.leads.library] at hturns
  choose! entered hloads hvisits hmem using hturns
  refine ⟨entered, fun t ht => ⟨hloads t ht, hvisits t ht, fun key hkey => ?_⟩⟩
  rcases hmem t ht key hkey with rfl | hkey
  · have hwritten : t.written ∈ p.collect.imports := by
      rw [← Import.map_written_turns load (p.collect.opened path s).2.1 p.collect.imports
        (p.collect.opened path s).2.2]
      exact List.mem_map_of_mem ht
    exact List.mem_append_left _ (List.mem_map_of_mem hwritten)
  · exact List.mem_append_right _ hkey

end

namespace Session

/-! ## Loads come to an end -/

section

variable {s : Session} {name : PackageName}

/-- The imports of a package that is fetched are loaded in a later session, in which it is in
    progress. -/
theorem opened_fetched (p : Package) (hs : s.Sound) (hname : name.Known s.store.names)
    (hnone : s.stateOf (name.key s.store.names) = none) :
    let s₁ := (p.collect.opened (some name) (setState name .inProgress s).2).2.2
    s.Settles s₁ ∧ s₁.registry.library = s.registry.library ∧
      (s₁.stateOf (name.key s.store.names)).isSome := by
  intro s₁
  have hs₁ : (setState name .inProgress s).2.Sound := hs.setState hname nofun
  obtain ⟨hopened, _⟩ := p.collect.opened_spec hs₁ (known_of_mem_some hname)
  obtain ⟨_, hstates⟩ := p.collect.opened_settles hs₁ (known_of_mem_some hname)
  refine ⟨fun key state hold => ?_, hopened.opens.leads.library, ?_⟩
  · have hne : key ≠ name.key s.store.names := fun heq => by
      rw [heq, hnone] at hold
      cases hold
    exact (hstates key).trans ((if_neg hne).trans (hs.settles_setState hname hnone _ key state hold))
  · rw [show s₁.stateOf (name.key s.store.names) = _ from (hstates _).trans (if_pos rfl)]
    rfl

/-- Loading comes to an end, and the depth to which loads may be nested is not noticed. -/
theorem loadWithin_ends : ∀ depth : Nat, Loader.Ends depth (loadWithin depth) := by
  intro depth name s hs hname hfits
  cases hsettled : s.settled? name with
  | some outcome =>
    rw [loadWithin_of_settled? hsettled]
    exact ⟨[], .settled hsettled, .nil (.refl s), fun _ hkey => absurd hkey List.not_mem_nil⟩
  | none =>
    cases hp : s.fetch? name with
    | none =>
      rw [loadWithin_of_fetch?_eq_none hsettled hp]
      exact ⟨[], .missing hsettled hp, .nil (.refl s), fun _ hkey => absurd hkey List.not_mem_nil⟩
    | some p =>
      have hnone := (hs.stateOf_eq hname).trans (state?_of_settled? hsettled)
      have hs₁ : (setState name .inProgress s).2.Sound := hs.setState hname nofun
      obtain ⟨hbegun, hlibrary, hsome⟩ := opened_fetched p hs hname hnone
      obtain ⟨d, rfl, hfits'⟩ := hfits.begin hbegun hlibrary hnone hsome
      have himports : ∀ i ∈ p.collect.imports, i.target ∈ s.registry.library.targets := fun i hi =>
        Library.mem_targets (n := name.key s.store.names) _ hp hi
      obtain ⟨entered, hturns⟩ := p.turns_end (loadWithin_sound d) (loadWithin_settles d)
        (loadWithin_ends d) hs₁ (known_of_mem_some hname) fun i hi => hfits' _ (himports i hi)
      rw [Fetches.loadWithin_succ ⟨hsettled, hp⟩]
      refine ⟨_, .fetched ⟨hsettled, hp⟩ fun t ht => (hturns t ht).1,
        visits_enterFetched (loadWithin_sound d) (loadWithin_settles d) p hs hname hnone
          fun t ht => (hturns t ht).2.1, fun key hkey => ?_⟩
      rcases List.mem_cons.1 hkey with rfl | hkey
      · exact .inl rfl
      · obtain ⟨t, ht, hkey⟩ := List.mem_flatMap.1 hkey
        refine .inr ((List.mem_append.1 ((hturns t ht).2.2 key hkey)).elim (fun hkey => ?_) id)
        obtain ⟨i, hi, rfl⟩ := List.mem_map.1 hkey
        exact himports i hi

end

end Session

/-! ## Requests -/

namespace Request

/-- The texts of the package that is asked for first. -/
def root (config : Config) : Request → PackageKey
  | define p => p.collect.ownKey config none
  | enterAs path version _ | load path version => (path, version)

/-- What is imported by the package of the caller. -/
def targets : Request → List PackageKey
  | define p | enterAs _ _ p => p.collect.imports.map (·.target)
  | load .. => []

end Request

namespace Session

/-- Different packages that are one of them or among some others. -/
theorem length_le_dedup {root : PackageKey} {keys names : List PackageKey} (hnodup : keys.Nodup)
    (hmem : ∀ key ∈ keys, key = root ∨ key ∈ names) : keys.length ≤ names.dedup.length + 1 := by
  have hsubset : keys ⊆ root :: names.dedup := fun key hkey => by
    rw [List.mem_cons, List.mem_dedup]
    exact hmem key hkey
  exact (List.subperm_of_subset hnodup hsubset).length_le

section

variable {s : Session} {path : Option PackageName} {own : PackageKey}

/-- What a package of the caller comes to, whose imports are loaded as deep as it takes. -/
theorem enterWith_ends (p : Package) (hs : s.Sound)
    (hpath : ∀ name ∈ path, name.Known s.store.names)
    (hown : p.collect.ownKey s.config (path.map (·.key s.store.names)) = own) :
    ∃ entered : Import.Turn → List PackageKey,
      (∀ t ∈ p.turns (loadWithin s.depthBound) path s, t.Loads (entered t)) ∧
      let keys := own :: (p.turns (loadWithin s.depthBound) path s).flatMap entered
      keys.Nodup ∧ ∀ key ∈ keys,
        key = own ∨ key ∈ p.collect.imports.map (·.target) ++ s.registry.library.targets := by
  obtain ⟨hopened, _⟩ := p.collect.opened_spec hs hpath
  have hbound := hopened.opens.leads.depthBound
  obtain ⟨entered, hturns⟩ := p.turns_end (loadWithin_sound s.depthBound)
    (loadWithin_settles s.depthBound) (loadWithin_ends s.depthBound) hs hpath
    fun i _ => hbound ▸ fits_depthBound _ i.target
  obtain ⟨hnodup, _⟩ := p.visits_turns (loadWithin_sound s.depthBound) hs hpath
    fun t ht => (hturns t ht).2.1
  rw [hown] at hnodup
  refine ⟨entered, fun t ht => (hturns t ht).1, hnodup,
    List.forall_mem_cons.2 ⟨.inl rfl, fun key hkey => .inr ?_⟩⟩
  obtain ⟨t, ht, hkey⟩ := List.mem_flatMap.1 hkey
  exact (hturns t ht).2.2 key hkey

/-- Every request is answered, with different packages entered. -/
theorem Sound.exists_answers (hs : s.Sound) (r : Request) :
    ∃ keys, Answers r s (respond r s) keys ∧ keys.Nodup ∧
      ∀ key ∈ keys, key = r.root s.config ∨ key ∈ r.targets ++ s.registry.library.targets := by
  cases r with
  | define p =>
    obtain ⟨entered, hturns, hnodup, hmem⟩ := @enterWith_ends s none _ p hs nofun rfl
    exact ⟨_, .define hturns, hnodup, hmem⟩
  | enterAs path version p =>
    obtain ⟨hs₁, hl₁, hname⟩ := hs.internPackage path version
    obtain ⟨entered, hturns, hnodup, hmem⟩ := enterWith_ends p hs₁ (known_of_mem_some hname)
      (Store.internPackage_spec path version s.store).2
    rw [hl₁.library] at hmem
    exact ⟨_, .enterAs rfl hturns, hnodup, hmem⟩
  | load path version =>
    obtain ⟨hs₁, hl₁, hname⟩ := hs.internPackage path version
    have hkey : (onStore (Store.internPackage path version) s).1.key
        (onStore (Store.internPackage path version) s).2.store.names = (path, version) :=
      (Store.internPackage_spec path version s.store).2
    obtain ⟨keys, hloads, hvisits, hmem⟩ := loadWithin_ends _ _ _ hs₁ hname (fits_depthBound _ _)
    rw [hl₁.library, hkey] at hmem
    exact ⟨keys, .load rfl hloads, hvisits.nodup, hmem⟩

/-- Every request in a reachable session is answered, in one way, however packages import each other.
    The packages entered for it are all different. They are the one that is asked for and those that
    it or packages of the library import, so there is at most one for each name that is imported
    somewhere, and one more. -/
theorem Reachable.answers (h : s.Reachable) (r : Request) :
    ∃ entered, (∀ answer keys, Answers r s answer keys ↔ answer = respond r s ∧ keys = entered) ∧
      entered.Nodup ∧
      (∀ key ∈ entered, key = r.root s.config ∨ key ∈ r.targets ++ s.registry.library.targets) ∧
      entered.length ≤ (r.targets ++ s.registry.library.targets).dedup.length + 1 := by
  obtain ⟨entered, hanswers, hnodup, hmem⟩ := h.sound.exists_answers r
  refine ⟨entered, fun answer keys => ⟨hanswers.unique, ?_⟩, hnodup, hmem,
    length_le_dedup hnodup hmem⟩
  rintro ⟨rfl, rfl⟩
  exact hanswers

/-- A package is entered that imports another one twice, which leads back to itself in two ways and
    imports one package under two names. One package has failed already. -/
theorem answers_tangled :
    let i (path : List String) : Import :=
      { span := .origin, path := path.map fun text => ⟨text, .origin⟩ }
    let library := ((((Library.insert {} "a" none { imports := [i ["b"], i ["c"]] }).insert "b" none
      { imports := [i ["a"], i ["d", "e"]] }).insert "c" none
      { imports := [i ["c"], i ["a"], i ["d.e"]] }).insert "d.e" none {}).insert "f" none
      { imports := [i ["g"]] }
    let s := (start {} {} library).after [.load ["f"] none]
    let r : Request := .define { imports := [i ["a"], i ["f"], i ["a"]] }
    s.Reachable ∧ s.stateOf (["f"], none) = some .failed ∧
      ∃ entered, Answers r s (respond r s) entered ∧ entered.Nodup ∧ entered.length ≤ 8 := by
  intro i library s r
  have h : s.Reachable := (Reachable.start {} {} library).after _
  obtain ⟨entered, hanswers, hnodup, _, hlength⟩ := h.answers r
  have hnames : (r.targets ++ s.registry.library.targets).dedup.length = 7 := by decide +kernel
  rw [hnames] at hlength
  exact ⟨h, by decide +kernel, entered, (hanswers _ _).2 ⟨rfl, rfl⟩, hnodup, hlength⟩

end

end Session

end Binder
