import Binder.Proofs.Entry.Load
import Binder.Proofs.Registry

/-!
# Loading settles states

A package that has a state keeps it while others are loaded, since loading gives states to packages
without one only. So when the importing package is done, a package that was loaded for an import is
the one found under the name of the import.

* `Loader.Settles`: what a loader does to the states.
* `Import.enterAll_settles`: the imports of a package are loaded, and stay so.
* `Package.ownKey`: the texts that the state of a package is kept under.
* `Package.enterWith_settles`: only the state of the package itself is set anew.
* `Session.loadWithin_settles`: loading.
-/

namespace Binder

/-- A loader changes no state that is set, and what it loads has a state that says so. -/
def Loader.Settles (load : Loader) : Prop :=
  ∀ name (s : Session), s.Sound → name.Known s.store.names →
    s.Settles (load name s).2 ∧ ∀ x, (load name s).1 = .ok x →
      (load name s).2.stateOf (name.key s.store.names) = some (.loaded x)

/-! ## Imports -/

namespace Import

variable {load : Loader} {site : Site} {s₀ s : Session}

/-- What is wanted is said by the bare import. -/
theorem target_enter (load : Loader) (site : Site) (i : Import) (s : Session) :
    (i.enter load site s).1.1.target = i.target := by
  have hbare := congrArg target (bare_enter load site i s)
  exact hbare

theorem loaded_settles (hload : load.Settles) (i : Import) (hs : s.Sound) :
    s.Settles (i.loaded load s).2 ∧ ∀ x, (i.loaded load s).1 = .ok x →
      (i.loaded load s).2.stateOf i.target = some (.loaded x) := by
  obtain ⟨hs₁, hl₁, hknown⟩ := hs.internPackage i.target.1 i.target.2
  have hkey : (i.targetName s).1.key (i.targetName s).2.store.names = i.target :=
    (Store.internPackage_spec i.target.1 i.target.2 s.store).2
  have hnames : s.Settles (i.targetName s).2 := .of_eq (hs.stateOf_withStore hl₁.keeps.names)
  obtain ⟨hsettles, hx⟩ := hload (i.targetName s).1 (i.targetName s).2 hs₁ hknown
  rw [hkey] at hx
  exact ⟨hnames.trans hsettles, hx⟩

/-- Once the package that an import asks for is loaded or not, no state is set any more. -/
theorem stateOf_enter (hload : load.Sound) (site : Site) (i : Import) (hs : s.Sound)
    (key : PackageKey) : (i.enter load site s).2.stateOf key = (i.loaded load s).2.stateOf key := by
  obtain ⟨hs₁, _⟩ := i.loaded_spec hload hs
  cases hi : i.loaded load s with
  | mk outcome s₁ =>
    rw [hi] at hs₁
    cases outcome with
    | error e =>
      rw [enter_of_error hi]
      exact hs₁.stateOf_withStore List.prefix_rfl key
    | ok x =>
      rw [enter_of_ok hi]
      refine hs₁.stateOf_withStore ?_ key
      rw [Store.names_define]
      exact s₁.store.names.prefix_intern _

/-- An import that is had has the symbol that its load comes to. -/
theorem loaded_of_enter {i : Import} (h : (i.enter load site s).1.2 = none) :
    ∃ x, (i.enter load site s).1.1.symbol = some x ∧ (i.loaded load s).1 = .ok x := by
  cases hi : i.loaded load s with
  | mk outcome s₁ =>
    cases outcome with
    | error e =>
      rw [enter_of_error hi] at h
      cases h
    | ok x =>
      rw [enter_of_ok hi]
      exact ⟨x, rfl, rfl⟩

/-- An import is entered: what it asks for is loaded, if it can be had. -/
theorem enter_settles (hload : load.Sound) (hsettles : load.Settles) (i : Import)
    (h : site.Opens s₀ s) :
    site.Opens s₀ (i.enter load site s).2 ∧ s.Settles (i.enter load site s).2 ∧
      ((i.enter load site s).1.2 = none → ∃ x, (i.enter load site s).1.1.symbol = some x ∧
        (i.enter load site s).2.stateOf i.target = some (.loaded x)) := by
  obtain ⟨hopens, _⟩ := i.enter_opens hload h
  obtain ⟨hstates, hx⟩ := i.loaded_settles hsettles h.sound
  have hsame := i.stateOf_enter hload site h.sound
  refine ⟨hopens, hstates.trans (.of_eq hsame), fun hnone => ?_⟩
  obtain ⟨x, hsymbol, hloaded⟩ := loaded_of_enter hnone
  exact ⟨x, hsymbol, (hsame _).trans (hx x hloaded)⟩

theorem enterAll_settles (hload : load.Sound) (hsettles : load.Settles) (imports : List Import)
    (h : site.Opens s₀ s) :
    s.Settles (enterAll load site imports s).2 ∧
      ((enterAll load site imports s).1.2 = none →
        ∀ i ∈ (enterAll load site imports s).1.1, ∃ x, i.symbol = some x ∧
          (enterAll load site imports s).2.stateOf i.target = some (.loaded x)) := by
  induction imports generalizing s with
  | nil => exact ⟨.refl s, fun _ i hi => absurd hi List.not_mem_nil⟩
  | cons i rest ih =>
    obtain ⟨h₁, hstates, hi⟩ := i.enter_settles hload hsettles h
    obtain ⟨hrest, hall⟩ := ih h₁
    simp only [enterAll_cons, Option.or_eq_none_iff]
    refine ⟨hstates.trans hrest, fun hnone j hj => ?_⟩
    rcases List.mem_cons.1 hj with rfl | hj
    · obtain ⟨x, hx, hstate⟩ := hi hnone.1
      refine ⟨x, hx, hrest _ _ ?_⟩
      rw [target_enter]
      exact hstate
    · exact hall hnone.2 j hj

end Import

/-! ## Packages -/

namespace Package

variable {load : Loader} {site : Site} {s₀ s : Session} {path : Option PackageName}

/-- The texts that the state of a package is kept under: those of the path it is imported by, if
    there is one, and else its name. -/
def ownKey (config : Config) (path : Option PackageKey) (p : Package) : PackageKey :=
  path.getD (p.title config path)

/-- A package that has its symbol is in progress, and nothing else has another state. -/
theorem opened_settles (p : Package) (hs : s.Sound)
    (hpath : ∀ name ∈ path, name.Known s.store.names) :
    (p.opened path s).1.key (p.opened path s).2.2.store.names =
        p.ownKey s.config (path.map (·.key s.store.names)) ∧
      ∀ key, (p.opened path s).2.2.stateOf key =
        if key = p.ownKey s.config (path.map (·.key s.store.names)) then some .inProgress
        else s.stateOf key := by
  obtain ⟨hnaming, hknown, htitle⟩ := p.naming_spec s.store.mark s.config hpath
  obtain ⟨hs₁, hl₁⟩ := hs.run hs (.refl s) hnaming
  have hlog := (hnaming.follows hs.store).effect.redeclarations
  have hopens := (declare_spec (p.naming s.config path s.store).1 p hl₁ hs hs₁
    (hlog.trans (List.append_nil _))).opens
  have hnames := (declare_spec (p.naming s.config path s.store).1 p (.refl _) hs₁ hs₁
    rfl).opens.leads.keeps.names
  have hkey : (p.opened path s).1.key (p.opened path s).2.2.store.names =
      p.ownKey s.config (path.map (·.key s.store.names)) := by
    cases path with
    | none => exact (hknown.key_eq hnames).trans htitle
    | some name => exact (hpath name rfl).key_eq hopens.leads.keeps.names
  refine ⟨hkey, fun key => ?_⟩
  have hset := hopens.sound.stateOf_setState (p.opened_spec hs hpath).2 .inProgress key
  change _ = if key = (p.opened path s).1.key (p.opened path s).2.2.store.names then _ else _
    at hset
  rw [hkey] at hset
  refine hset.trans ?_
  split
  · rfl
  · exact hs.stateOf_withStore hopens.leads.keeps.names key

/-- Once the imports of a package are entered, no state is set any more for its contents. -/
theorem stateOf_enterContents (hload : load.Sound) (h : site.Opens s₀ s) (p : Package)
    (key : PackageKey) : (p.enterContents load site s).2.stateOf key =
      (Import.enterAll load site p.imports s).2.stateOf key := by
  obtain ⟨h₁, _⟩ := Import.enterAll_opens hload p.imports h
  cases hall : Import.enterAll load site p.imports s with
  | mk r s₁ =>
    obtain ⟨imports, failure⟩ := r
    rw [hall] at h₁
    cases failure with
    | some e => rw [enterContents_of_error hall]
    | none =>
      obtain ⟨hrun, _, _⟩ := run_enterMembers s₁.config { p with imports } h₁.top
      rw [enterContents_of_none hall rfl]
      exact h₁.sound.stateOf_withStore (hrun.grows h₁.sound.store).names key

theorem enterContents_settles (hload : load.Sound) (hsettles : load.Settles) (h : site.Opens s₀ s)
    (p : Package) :
    s.Settles (p.enterContents load site s).2 ∧
      ∀ x, (p.enterContents load site s).1.2 = .ok x →
        ∀ i ∈ (p.enterContents load site s).1.1.imports, ∃ y, i.symbol = some y ∧
          (p.enterContents load site s).2.stateOf i.target = some (.loaded y) := by
  obtain ⟨hstates, hloaded⟩ := Import.enterAll_settles hload hsettles p.imports h
  have hsame := p.stateOf_enterContents hload h
  refine ⟨hstates.trans (.of_eq hsame), fun x hx i hi => ?_⟩
  obtain ⟨hnone, _, hentered, _⟩ := enterContents_of_ok hx
  rw [hentered, imports_enterMembers] at hi
  obtain ⟨y, hy, hstate⟩ := hloaded hnone i hi
  exact ⟨y, hy, (hsame _).trans hstate⟩

/-- What the states are after a package is entered. -/
structure Settled (own : PackageKey) (s : Session) (outcome : Except EnterError SymbolId)
    (p : Package) (s' : Session) : Prop where
  stateOf_own : s'.stateOf own = some (stateAfter outcome)
  keeps : ∀ key state, key ≠ own → s.stateOf key = some state → s'.stateOf key = some state
  imports : ∀ x, outcome = .ok x → ∀ i ∈ p.imports, i.target ≠ own ∧
    ∃ y, i.symbol = some y ∧ s'.stateOf i.target = some (.loaded y)

/-- When a package is done, its own state is set, and the others are as they were when its imports
    had been entered. -/
theorem stateOf_enterWith (hload : load.Sound) (p : Package) (hs : s.Sound)
    (hpath : ∀ name ∈ path, name.Known s.store.names) (key : PackageKey) :
    (p.enterWith load path s).2.stateOf key =
      if key = p.collect.ownKey s.config (path.map (·.key s.store.names)) then
        some (stateAfter (p.enterWith load path s).1.2)
      else (Import.enterAll load (p.collect.opened path s).2.1 p.collect.imports
        (p.collect.opened path s).2.2).2.stateOf key := by
  obtain ⟨hopened, hknown⟩ := p.collect.opened_spec hs hpath
  obtain ⟨hkey, _⟩ := p.collect.opened_settles hs hpath
  cases ho : p.collect.opened path s with
  | mk own r =>
    obtain ⟨site, s₁⟩ := r
    rw [ho] at hopened hknown hkey
    let q : Package := { p.collect with symbol := some site.package }
    obtain ⟨h₂, g₂, _⟩ := enterContents_spec hload hopened.opens q
    have hset := h₂.sound.stateOf_setState (hknown.mono g₂.names)
      (stateAfter (q.enterContents load site s₁).1.2) key
    rw [hknown.key_eq g₂.names, hkey, q.stateOf_enterContents hload hopened.opens] at hset
    rw [enterWith_eq ho rfl]
    exact hset

theorem enterWith_settles (hload : load.Sound) (hsettles : load.Settles) (p : Package)
    (hs : s.Sound) (hpath : ∀ name ∈ path, name.Known s.store.names) :
    Settled (p.collect.ownKey s.config (path.map (·.key s.store.names))) s
      (p.enterWith load path s).1.2 (p.enterWith load path s).1.1 (p.enterWith load path s).2 := by
  obtain ⟨hopened, _⟩ := p.collect.opened_spec hs hpath
  obtain ⟨_, hstates⟩ := p.collect.opened_settles hs hpath
  have hset := p.stateOf_enterWith hload hs hpath
  cases ho : p.collect.opened path s with
  | mk own r =>
    obtain ⟨site, s₁⟩ := r
    rw [ho] at hopened hstates hset
    let q : Package := { p.collect with symbol := some site.package }
    obtain ⟨hsettled, himports⟩ := enterContents_settles hload hsettles hopened.opens q
    have hsame := q.stateOf_enterContents hload hopened.opens
    cases hc : q.enterContents load site s₁ with
    | mk r s₂ =>
      obtain ⟨p', outcome⟩ := r
      rw [hc] at hsettled himports hsame
      rw [enterWith_eq ho hc] at hset ⊢
      have hkept : ∀ key, key ≠ p.collect.ownKey s.config (path.map (·.key s.store.names)) →
          (Session.setState own (stateAfter outcome) s₂).2.stateOf key = s₂.stateOf key :=
        fun key hne => (hset key).trans ((if_neg hne).trans (hsame key).symm)
      refine ⟨(hset _).trans (if_pos rfl), fun key' state hne hstate => ?_, fun x hx i hi => ?_⟩
      · refine (hkept key' hne).trans (hsettled key' state ?_)
        rw [hstates, if_neg hne, hstate]
      · obtain ⟨y, hy, hstate⟩ := himports x hx i hi
        -- The package itself is in progress while its imports are loaded.
        have hne : i.target ≠ p.collect.ownKey s.config (path.map (·.key s.store.names)) :=
          fun heq => by
            have hown := hsettled _ _ ((hstates _).trans (if_pos rfl))
            rw [← heq] at hown
            exact absurd (hown.symm.trans hstate) nofun
        exact ⟨hne, y, hy, (hkept _ hne).trans hstate⟩

end Package

/-! ## Loads -/

namespace Session

variable {s : Session}

section

variable {load : Loader} {name : PackageName}

/-- When a package that is fetched is done, its state is the one that its entry ended with. -/
theorem stateOf_enterFetched (hload : load.Sound) (p : Package) (hs : s.Sound)
    (hname : name.Known s.store.names) (key : PackageKey) :
    let r := p.enterWith load (some name) (setState name .inProgress s).2
    (enterFetched load name p s).2.stateOf key =
      if key = name.key s.store.names then some (Package.stateAfter r.1.2)
      else r.2.stateOf key := by
  have hs₁ : (setState name .inProgress s).2.Sound := hs.setState hname nofun
  obtain ⟨h₂, _⟩ := Package.enterWith_spec hload p hs₁ (known_of_mem_some hname)
  cases hp : p.enterWith load (some name) (setState name .inProgress s).2 with
  | mk r s₂ =>
    obtain ⟨p', outcome⟩ := r
    rw [hp] at h₂
    have hset := h₂.sound.stateOf_setState (hname.mono h₂.leads.keeps.names)
      (Package.stateAfter outcome) key
    rw [hname.key_eq h₂.leads.keeps.names] at hset
    cases outcome with
    | error e =>
      rw [enterFetched_of_error hp]
      exact hset
    | ok x =>
      rw [enterFetched_of_ok hp]
      exact hset

/-- The state of a package that is fetched is set, and no other one that is set already. -/
theorem enterFetched_settles (hload : load.Sound) (hsettles : load.Settles) (p : Package)
    (hs : s.Sound) (hname : name.Known s.store.names)
    (hnone : s.stateOf (name.key s.store.names) = none) :
    s.Settles (enterFetched load name p s).2 ∧ ∀ x, (enterFetched load name p s).1 = .ok x →
      (enterFetched load name p s).2.stateOf (name.key s.store.names) = some (.loaded x) := by
  have hs₁ : (setState name .inProgress s).2.Sound := hs.setState hname nofun
  have hbegin := hs.settles_setState hname hnone .inProgress
  have hset := Package.enterWith_settles hload hsettles p hs₁ (known_of_mem_some hname)
  have hstate := stateOf_enterFetched hload p hs hname
  refine ⟨fun key state hold => ?_, fun x hx => ?_⟩
  · have hne : key ≠ name.key s.store.names := fun heq => by
      rw [heq, hnone] at hold
      cases hold
    exact (hstate key).trans ((if_neg hne).trans (hset.keeps key state hne (hbegin key state hold)))
  · refine (hstate _).trans ((if_pos rfl).trans ?_)
    cases hp : p.enterWith load (some name) (setState name .inProgress s).2 with
    | mk r s₂ =>
      obtain ⟨p', outcome⟩ := r
      cases outcome with
      | error e =>
        rw [enterFetched_of_error hp] at hx
        cases hx
      | ok y =>
        rw [enterFetched_of_ok hp] at hx
        cases hx
        rfl

end

/-- Loading, with loads nested at most `depth` deep in one another. -/
theorem loadWithin_settles : ∀ depth : Nat, Loader.Settles (loadWithin depth) := by
  refine loadWithin_induction (Q := fun name s r => s.Settles r.2 ∧ ∀ x, r.1 = .ok x →
    r.2.stateOf (name.key s.store.names) = some (.loaded x)) (fun name s _ hs hname hok => ?_)
    fun depth name s p ih hs hname hp => ?_
  · refine ⟨.refl s, fun x hx => ?_⟩
    rw [hs.stateOf_eq hname]
    exact state?_of_settled?_ok (hok x hx)
  · have hnone := (hs.stateOf_eq hname).trans (state?_of_settled? hp.settled?)
    exact enterFetched_settles (loadWithin_sound depth) ih p hs hname hnone

theorem load_settles : Loader.Settles load := fun name s hs hname =>
  loadWithin_settles s.depthBound name s hs hname

end Session

end Binder
