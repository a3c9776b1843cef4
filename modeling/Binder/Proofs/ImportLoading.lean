import Binder.Proofs.Entry.Settle
import Binder.Proofs.Search

/-!
# Loading imports

Loading is a search of the graph of imports: entering a package begins it, enters its imports, one
after another, and ends it. So a package of a caller that is entered in a new session succeeds just
if no cycle of imports can be reached from it and no package is missing, whatever the order in which
imports are written.

* `Session.progress`: how far loading has come in a session.
* `Package.enterWith_searches`: entering a package, as a step of the search.
* `Session.loadWithin_searches`: loading.
* `Session.define_start`: a package is entered in a new session.
-/

namespace Binder

/-! ## Reports of cycles -/

/-- An import cycle has been reported. -/
def Log.hasCycle (l : Log) : Bool := l.any (·.code == "E0007")

theorem Log.hasCycle_append (l l' : Log) :
    Log.hasCycle (l ++ l') = (Log.hasCycle l || Log.hasCycle l') := List.any_append

namespace Store

variable {s s' : Store}

/-- Binding a name reports no cycle. -/
theorem hasCycle_define (span : Span) (scope : ScopeId) (name : Name) (x : SymbolId) (s : Store) :
    (define span scope name x s).2.log.hasCycle = s.log.hasCycle := by
  cases hx : s.table.symbol? x with
  | none =>
    simp only [define, run_bind, run_get, hx]
    rfl
  | some sym =>
    rw [define_eq hx, Log.hasCycle_append, clash]
    cases s.table.bound? scope name <;> exact Bool.or_false _

theorem hasCycle_offerNext (sym : Symbol) (scope : ScopeId) (table : Table) (s : Store) :
    (s.offerNext sym scope table).log.hasCycle = s.log.hasCycle :=
  hasCycle_define sym.span scope sym.name s.table.nextSymbol { s with table }

/-- The problems that concern types are no cycles. -/
theorem hasCycle_report {p : Problem} (hp : p.concernsTypes) (span : Span) (s : Store) :
    (report p span s).2.log.hasCycle = s.log.hasCycle := by
  refine (Log.hasCycle_append s.log [p.diagnostic span]).trans ?_
  cases p with
  | redeclared | cyclicImport | importFailed => cases hp
  | _ => exact Bool.or_false _

/-- Entering declarations reports no cycle. -/
theorem Run.hasCycle {m : Mark} {os : List Offer} (h : s.Run m os s') :
    s'.log.hasCycle = s.log.hasCycle := by
  induction h with
  | refl | intern | array => rfl
  | trans _ _ ih ih' => exact ih'.trans ih
  | report s p span hp => exact hasCycle_report hp span s
  | @setFields s id fields _ _ =>
    unfold Store.setFields
    cases s.table.types.setFields? id fields <;> rfl
  | var | container => exact hasCycle_offerNext _ _ _ _
  | callable _ _ _ _ _ _ ih => exact ih.trans (hasCycle_offerNext _ _ _ _)

end Store

/-! ## How far loading has come -/

namespace Session

/-- How far loading has come. -/
def progress (s : Session) : Progress := ⟨s.stateOf, s.registry.loaded, s.store.log.hasCycle⟩

namespace Sound

variable {s : Session} (hs : s.Sound)
include hs

/-- The store matters only for the cycles that are reported. -/
theorem progress_withStore {st : Store} (g : s.store.names.texts <+: st.names.texts) :
    progress { s with store := st } = { s.progress with cycle := st.log.hasCycle } :=
  congrArg (Progress.mk · s.registry.loaded st.log.hasCycle) (funext (hs.stateOf_withStore g))

theorem progress_run {m : Mark} {os : List Offer} {st : Store} (h : s.store.Run m os st) :
    progress { s with store := st } = s.progress := by
  rw [hs.progress_withStore (h.grows hs.store).names, h.hasCycle]
  rfl

theorem progress_setState {name : PackageName} (hname : name.Known s.store.names)
    (state : LoadState) : (Session.setState name state s).2.progress =
      s.progress.set (name.key s.store.names) state :=
  congrArg (Progress.mk · s.registry.loaded s.store.log.hasCycle)
    (funext (hs.stateOf_setState hname state))

end Sound

end Session

/-- The symbol and the scope of a package are made without a report. -/
theorem Package.log_opened (path : Option PackageName) (p : Package) (s : Session) :
    (p.opened path s).2.2.store.log = s.store.log := by
  have hnaming : (p.naming s.config path s.store).2.log = s.store.log := by
    unfold naming
    cases p.clause with
    | some c => rfl
    | none => cases path <;> rfl
  exact hnaming

/-- A package that begins to be entered is in progress. -/
theorem Package.progress_opened (p : Package) {path : Option PackageName} {s : Session}
    (hs : s.Sound) (hpath : ∀ name ∈ path, name.Known s.store.names) :
    (p.opened path s).2.2.progress =
      s.progress.set (p.ownKey s.config (path.map (·.key s.store.names))) .inProgress := by
  obtain ⟨_, hstates⟩ := p.opened_settles hs hpath
  have hloaded : (p.opened path s).2.2.registry.loaded = s.registry.loaded := rfl
  rw [Session.progress, funext hstates, hloaded, p.log_opened path s]
  rfl

/-! ## Imports -/

/-- The imports of the package `cur` are entered while the graph is searched. Whatever is in progress
    leads to that package. -/
structure Session.Searching (g : ImportGraph) (cur : PackageKey) (depth : Nat) (s : Session) :
    Prop where
  sound : s.Sound
  library : s.registry.library = g.library
  search : s.progress.Search g
  inProgress : ∀ n, s.progress.state n = some .inProgress → g.Reaches n cur
  fits : s.progress.Fits g cur depth

theorem Session.Searching.mono {g : ImportGraph} {cur : PackageKey} {depth : Nat} {s s' : Session}
    (h : s.Searching g cur depth) (hs : s'.Sound) (hlibrary : s'.registry.library = g.library)
    (hsearch : s'.progress.Search g) (hafter : s.progress.Extends s'.progress) :
    s'.Searching g cur depth where
  sound := hs
  library := hlibrary
  search := hsearch
  inProgress n hn := h.inProgress n (hafter.inProgress n hn)
  fits := h.fits.mono hafter

/-- A loader searches on from a package that is imported. -/
def Loader.Searches (g : ImportGraph) (depth : Nat) (load : Loader) : Prop :=
  ∀ cur name (s : Session), s.Searching g cur depth → name.Known s.store.names →
    g.Edge cur (name.key s.store.names) →
    (load name s).2.progress.Search g ∧ s.progress.Extends (load name s).2.progress ∧
      Progress.Outcome g s.progress (load name s).2.progress (name.key s.store.names)
        (load name s).1

namespace Import

variable {g : ImportGraph} {cur : PackageKey} {depth : Nat} {load : Loader} {site : Site}
  {s₀ s : Session}

/-- Only the load of an import makes progress, and the report if it fails. -/
theorem loaded_searches (hsearches : load.Searches g depth) (i : Import)
    (h : s.Searching g cur depth) (he : g.Edge cur i.target) :
    (i.loaded load s).2.progress.Search g ∧ s.progress.Extends (i.loaded load s).2.progress ∧
      Progress.Outcome g s.progress (i.loaded load s).2.progress i.target (i.loaded load s).1 := by
  obtain ⟨hs₁, hl₁, hknown⟩ := h.sound.internPackage i.target.1 i.target.2
  have hkey : (i.targetName s).1.key (i.targetName s).2.store.names = i.target :=
    (Store.internPackage_spec i.target.1 i.target.2 s.store).2
  have hprogress : (i.targetName s).2.progress = s.progress :=
    h.sound.progress_run (Store.run_internPackage s.store.mark i.target.1 i.target.2 s.store)
  have h₁ : (i.targetName s).2.Searching g cur depth :=
    h.mono hs₁ (hl₁.library.trans h.library) (hprogress ▸ h.search) (hprogress ▸ .refl _)
  have hload := hsearches cur (i.targetName s).1 (i.targetName s).2 h₁ hknown (hkey.symm ▸ he)
  rw [hkey, hprogress] at hload
  exact hload

/-- The report of an import that cannot be had. -/
theorem progress_report {s : Session} (hs : s.Sound) (e : LoadError) (text : String) (span : Span) :
    Session.progress { s with store := (Store.report (e.problem text) span s.store).2 } =
      { s.progress with cycle := s.progress.cycle || e.isCycle } := by
  rw [hs.progress_withStore List.prefix_rfl]
  refine congrArg (Progress.mk s.stateOf s.registry.loaded) ?_
  refine (Log.hasCycle_append s.store.log [(e.problem text).diagnostic span]).trans ?_
  cases e <;> rfl

/-- An import is entered. -/
theorem enter_searches (hload : load.Sound) (hsearches : load.Searches g depth) (i : Import)
    (ho : site.Opens s₀ s) (h : s.Searching g cur depth) (he : g.Edge cur i.target) :
    site.Opens s₀ (i.enter load site s).2 ∧ (i.enter load site s).2.Searching g cur depth ∧
      Progress.Searched g [i.target] (i.enter load site s).1.2.isSome s.progress
        (i.enter load site s).2.progress := by
  obtain ⟨hs₁, _⟩ := i.loaded_spec hload h.sound
  obtain ⟨hsearch, hafter, houtcome⟩ := i.loaded_searches hsearches h he
  have hopens := (enterAll_opens hload [i] ho).1
  have hsearched : Progress.Searched g [i.target] (i.enter load site s).1.2.isSome s.progress
      (i.enter load site s).2.progress := by
    cases hi : i.loaded load s with
    | mk outcome s₁ =>
      rw [hi] at hs₁ hsearch hafter houtcome
      cases outcome with
      | error e =>
        rw [enter_of_error hi, progress_report hs₁]
        exact .of_error hsearch hafter (h.inProgress i.target) he houtcome
      | ok x =>
        have hsame : (i.enter load site s).2.progress = s₁.progress := by
          rw [enter_of_ok hi]
          refine (hs₁.progress_withStore ?_).trans ?_
          · rw [Store.names_define]
            exact s₁.store.names.prefix_intern _
          · rw [Store.hasCycle_define]
            rfl
        rw [hsame, enter_of_ok hi]
        exact .of_ok hsearch hafter houtcome
  have hlibrary := hopens.leads.library.trans (ho.leads.library.symm.trans h.library)
  exact ⟨hopens, h.mono hopens.sound hlibrary hsearched.search hsearched.after, hsearched⟩

/-- Imports are entered, one after another. -/
theorem enterAll_searches (hload : load.Sound) (hsearches : load.Searches g depth)
    (imports : List Import) (ho : site.Opens s₀ s) (h : s.Searching g cur depth)
    (he : ∀ i ∈ imports, g.Edge cur i.target) :
    Progress.Searched g (imports.map target) (enterAll load site imports s).1.2.isSome s.progress
      (enterAll load site imports s).2.progress := by
  induction imports generalizing s with
  | nil => exact .nil h.search
  | cons i rest ih =>
    obtain ⟨ho₁, h₁, hfirst⟩ := i.enter_searches hload hsearches ho h (he i List.mem_cons_self)
    have hrest := ih ho₁ h₁ fun j hj => he j (List.mem_cons_of_mem i hj)
    simp only [enterAll_cons, Option.isSome_or]
    exact hfirst.cons hrest

end Import

/-! ## Packages -/

namespace Package

variable {g : ImportGraph} {own : PackageKey} {depth : Nat} {load : Loader} {site : Site}
  {s₀ s : Session} {path : Option PackageName}

/-- What is in a package makes no progress but by its imports. -/
theorem enterContents_searches (hload : load.Sound) (hsearches : load.Searches g depth)
    (p : Package) (ho : site.Opens s₀ s) (h : s.Searching g own depth)
    (he : ∀ i ∈ p.imports, g.Edge own i.target) :
    Progress.Searched g (p.imports.map (·.target)) (!(p.enterContents load site s).1.2.isOk)
      s.progress (p.enterContents load site s).2.progress := by
  obtain ⟨ho₁, _⟩ := Import.enterAll_opens hload p.imports ho
  have hsearched := Import.enterAll_searches hload hsearches p.imports ho h he
  cases hall : Import.enterAll load site p.imports s with
  | mk r s₁ =>
    obtain ⟨imports, failure⟩ := r
    rw [hall] at ho₁ hsearched
    cases failure with
    | some e =>
      rw [enterContents_of_error hall]
      exact hsearched
    | none =>
      obtain ⟨hrun, _⟩ := run_enterMembers s₁.config { p with imports } ho₁.top
      have hsame := ho₁.sound.progress_run hrun
      cases hp : { p with imports }.enterMembers s₁.config site s₁.store with
      | mk p' st =>
        rw [hp] at hsame
        rw [enterContents_of_none hall hp, hsame]
        exact hsearched

theorem symbol_enterContents (load : Loader) (site : Site) (p : Package) (s : Session) :
    (p.enterContents load site s).1.1.symbol = p.symbol := by
  cases hall : Import.enterAll load site p.imports s with
  | mk r s₁ =>
    obtain ⟨imports, failure⟩ := r
    cases failure with
    | some e => rw [enterContents_of_error hall]
    | none => rw [enterContents_of_none hall rfl]

/-- A package that is entered has the symbol that it is entered with. -/
theorem symbol_enterWith (hload : load.Sound) (p : Package) (hs : s.Sound)
    (hpath : ∀ name ∈ path, name.Known s.store.names) {x : SymbolId}
    (h : (p.enterWith load path s).1.2 = .ok x) : (p.enterWith load path s).1.1.symbol = some x := by
  obtain ⟨_, hok⟩ := enterWith_spec hload p hs hpath
  rw [(hok x h).1]
  cases ho : p.collect.opened path s with
  | mk key r =>
    obtain ⟨site, s₁⟩ := r
    rw [enterWith_eq ho rfl]
    exact symbol_enterContents load site { p.collect with symbol := some site.package } s₁

/-- A package that was begun is entered: its imports are searched, and then its state is set. -/
theorem enterWith_searches (hload : load.Sound) (hsearches : load.Searches g depth) {p : Package}
    (hs : s.Sound) (hpath : ∀ name ∈ path, name.Known s.store.names)
    (hlibrary : s.registry.library = g.library)
    (hown : p.collect.ownKey s.config (path.map (·.key s.store.names)) = own)
    (hp : g.package? own = some p) (hsearch : (s.progress.set own .inProgress).Search g)
    (hgray : ∀ n, (s.progress.set own .inProgress).state n = some .inProgress → g.Reaches n own)
    (hfits : (s.progress.set own .inProgress).Fits g own depth) :
    ∃ s₁, Progress.Searched g (g.targets own) (!(p.enterWith load path s).1.2.isOk)
        (s.progress.set own .inProgress) s₁ ∧
      (p.enterWith load path s).2.progress =
        s₁.set own (stateAfter (p.enterWith load path s).1.2) := by
  obtain ⟨hopened, hknown⟩ := p.collect.opened_spec hs hpath
  obtain ⟨hkey, _⟩ := p.collect.opened_settles hs hpath
  have hprogress := p.collect.progress_opened hs hpath
  rw [hown] at hkey hprogress
  cases ho : p.collect.opened path s with
  | mk key r =>
    obtain ⟨site, s₁⟩ := r
    rw [ho] at hopened hknown hkey hprogress
    have h₁ : s₁.Searching g own depth := by
      rw [← hprogress] at hsearch hgray hfits
      exact ⟨hopened.opens.sound, hopened.opens.leads.library.trans hlibrary, hsearch, hgray, hfits⟩
    have he : ∀ i ∈ p.collect.imports, g.Edge own i.target := fun i hi => by
      rw [ImportGraph.Edge, ImportGraph.targets_of_package? hp]
      exact List.mem_map_of_mem hi
    have hsearched := enterContents_searches hload hsearches
      { p.collect with symbol := some site.package } hopened.opens h₁ he
    obtain ⟨h₂, g₂, _⟩ :=
      enterContents_spec hload hopened.opens { p.collect with symbol := some site.package }
    cases hc : { p.collect with symbol := some site.package }.enterContents load site s₁ with
    | mk r s₂ =>
      obtain ⟨p', outcome⟩ := r
      rw [hc] at hsearched h₂ g₂
      rw [enterWith_eq ho hc, ImportGraph.targets_of_package? hp, ← hprogress]
      refine ⟨s₂.progress, hsearched, ?_⟩
      rw [h₂.sound.progress_setState (hknown.mono g₂.names), hknown.key_eq g₂.names, hkey]

end Package

/-! ## Loads -/

namespace Session

variable {g : ImportGraph} {cur : PackageKey} {depth : Nat} {s : Session} {name : PackageName}

namespace Searching

variable (h : s.Searching g cur depth)
include h

/-- What is imported by the package is reached from the root, which is in progress all along. -/
theorem reaches {n : PackageKey} (he : g.Edge cur n) : g.Reaches g.root n :=
  (h.inProgress g.root h.search.root).tail he

theorem ne_root {n : PackageKey} (hnone : s.stateOf n = none) : n ≠ g.root := fun heq => by
  have hroot := h.search.root
  rw [← heq] at hroot
  exact absurd (hnone.symm.trans hroot) nofun

theorem fetch? (hnone : s.stateOf (name.key s.store.names) = none) :
    s.fetch? name = g.package? (name.key s.store.names) := by
  rw [ImportGraph.package?, if_neg (h.ne_root hnone), ← h.library]
  rfl

/-- What loading a package comes to that has a state. -/
theorem outcome_of_settled? (hname : name.Known s.store.names)
    {outcome : Except LoadError SymbolId} (ho : s.settled? name = some outcome) :
    Progress.Outcome g s.progress s.progress (name.key s.store.names) outcome := by
  have hstate : s.progress.state (name.key s.store.names) = s.registry.state? name :=
    h.sound.stateOf_eq hname
  unfold settled? at ho
  cases hs : s.registry.state? name with
  | none =>
    rw [hs] at ho
    cases ho
  | some state =>
    rw [hs] at ho hstate
    cases state <;> cases ho <;> exact hstate

end Searching

/-- A package that is fetched is entered: its imports are searched while it is in progress. -/
theorem Searching.enterWith {load : Loader} (hload : load.Sound)
    (hsearches : load.Searches g depth) {p : Package} (h : s.Searching g cur (depth + 1))
    (hname : name.Known s.store.names) (he : g.Edge cur (name.key s.store.names))
    (hnone : s.stateOf (name.key s.store.names) = none)
    (hp : g.package? (name.key s.store.names) = some p) :
    let r := p.enterWith load (some name) (setState name .inProgress s).2
    ∃ s₂, Progress.Searched g (g.targets (name.key s.store.names)) (!r.1.2.isOk)
        (s.progress.set (name.key s.store.names) .inProgress) s₂ ∧
      ∀ state, (setState name state r.2).2.progress =
        s₂.set (name.key s.store.names) state := by
  have hfound : g.Found (name.key s.store.names) := Option.isSome_iff_exists.2 ⟨p, hp⟩
  have hbegin := h.search.begin hnone (h.reaches he) hfound
  have hgray : ∀ m, (s.progress.set (name.key s.store.names) .inProgress).state m =
      some .inProgress → g.Reaches m (name.key s.store.names) := fun m hm => by
    by_cases hmn : m = name.key s.store.names
    · rw [hmn]
      exact .refl
    · rw [Progress.state_set_of_ne _ hmn] at hm
      exact (h.inProgress m hm).tail he
  obtain ⟨d, hd, hfits⟩ := h.fits.begin he hnone (h.ne_root hnone)
  obtain rfl := Nat.succ.inj hd
  -- The package is set in progress once more, under its name, when it is opened.
  have hs₁ : (setState name .inProgress s).2.Sound := h.sound.setState hname nofun
  have hprogress : (setState name .inProgress s).2.progress.set (name.key s.store.names)
      .inProgress = s.progress.set (name.key s.store.names) .inProgress := by
    rw [h.sound.progress_setState hname, Progress.set_set]
  have hown : p.collect.ownKey (setState name .inProgress s).2.config
      ((some name).map (·.key (setState name .inProgress s).2.store.names)) =
        name.key s.store.names := rfl
  rw [← hprogress] at hbegin hgray hfits
  obtain ⟨s₂, hsearched, hend⟩ := Package.enterWith_searches hload hsearches hs₁
    (known_of_mem_some hname) h.library hown hp hbegin hgray hfits
  obtain ⟨ho, _⟩ := Package.enterWith_spec hload p hs₁ (known_of_mem_some hname)
  refine ⟨s₂, hprogress ▸ hsearched, fun state => ?_⟩
  rw [ho.sound.progress_setState (hname.mono ho.leads.keeps.names),
    hname.key_eq ho.leads.keeps.names, hend, Progress.set_set]

/-- What a package that is fetched comes to. -/
theorem enterFetched_searches {load : Loader} (hload : load.Sound)
    (hsearches : load.Searches g depth) {p : Package} (h : s.Searching g cur (depth + 1))
    (hname : name.Known s.store.names) (he : g.Edge cur (name.key s.store.names))
    (hnone : s.stateOf (name.key s.store.names) = none)
    (hp : g.package? (name.key s.store.names) = some p) :
    (enterFetched load name p s).2.progress.Search g ∧
      s.progress.Extends (enterFetched load name p s).2.progress ∧
      Progress.Outcome g s.progress (enterFetched load name p s).2.progress
        (name.key s.store.names) (enterFetched load name p s).1 := by
  have hne := h.ne_root hnone
  have hs₁ : (setState name .inProgress s).2.Sound := h.sound.setState hname nofun
  have hsymbol := @Package.symbol_enterWith load _ (some name) hload p hs₁ (known_of_mem_some hname)
  have hbare := p.bare_enterWith load (some name) (setState name .inProgress s).2
  obtain ⟨s₂, hsearched, hend⟩ := h.enterWith hload hsearches hname he hnone hp
  cases hpw : p.enterWith load (some name) (setState name .inProgress s).2 with
  | mk r s₃ =>
    obtain ⟨p', outcome⟩ := r
    rw [hpw] at hsearched hend hsymbol hbare
    cases outcome with
    | error e =>
      obtain ⟨hsearch, hafter⟩ := hsearched.fail hnone hne rfl
      rw [enterFetched_of_error hpw, hend]
      exact ⟨hsearch, hafter, Progress.state_set_self _ _ _⟩
    | ok x =>
      obtain ⟨hsearch, hafter⟩ := hsearched.load hnone hne rfl hp hbare (hsymbol rfl)
      have hpublish : (publish p' (setState name (.loaded x) s₃).2).2.progress =
          { s₂.set (name.key s.store.names) (.loaded x) with loaded := s₂.loaded ++ [p'] } :=
        congrArg (fun t : Progress => { t with loaded := t.loaded ++ [p'] }) (hend (.loaded x))
      rw [enterFetched_of_ok hpw, hpublish]
      exact ⟨hsearch, hafter, Progress.state_set_self _ _ _⟩

/-- Loading searches the graph, if loads may be nested deep enough. -/
theorem loadWithin_searches : ∀ depth : Nat, Loader.Searches g depth (loadWithin depth) := by
  intro depth cur name s h hname he
  cases hsettled : s.settled? name with
  | some outcome =>
    rw [loadWithin_of_settled? hsettled]
    exact ⟨h.search, .refl _, h.outcome_of_settled? hname hsettled⟩
  | none =>
    have hnone := (h.sound.stateOf_eq hname).trans (state?_of_settled? hsettled)
    have hfetch := h.fetch? hnone
    cases hp : s.fetch? name with
    | none =>
      have hbad : ¬g.Found (name.key s.store.names) := fun hfound => by
        rw [ImportGraph.Found, ← hfetch, hp] at hfound
        cases hfound
      rw [loadWithin_of_fetch?_eq_none hsettled hp]
      exact ⟨h.search, .refl _, hbad⟩
    | some p =>
      cases depth with
      | zero =>
        obtain ⟨d, hd, _⟩ := h.fits.begin he hnone (h.ne_root hnone)
        cases hd
      | succ depth =>
        rw [Fetches.loadWithin_succ ⟨hsettled, hp⟩]
        exact enterFetched_searches (loadWithin_sound depth) (loadWithin_searches depth) h hname he
          hnone (hfetch.symm.trans hp)

/-! ## New sessions -/

/-- When a package of a caller has been entered in a new session, it is decided which packages can be
    loaded: those that reach no cycle of imports and no package that is missing. -/
theorem define_start (names : Names) (config : Config) (library : Library) (p : Package) :
    let r := define p (start names config library)
    r.2.progress.Decides ⟨library, p.collect.title config none, p⟩ r.1.2.isOk := by
  intro r
  let s := start names config library
  let g : ImportGraph := ⟨library, p.collect.title config none, p⟩
  have hpath : ∀ name ∈ (none : Option PackageName), name.Known s.store.names := nofun
  have hown : p.collect.ownKey s.config ((none : Option PackageName).map (·.key s.store.names)) =
      g.root := rfl
  have hgray : ∀ n, (s.progress.set g.root .inProgress).state n = some .inProgress →
      g.Reaches n g.root := fun n hn => by
    rw [(Progress.eq_of_state_set_initial hn).1]
    exact .refl
  -- Every import of the library might ask for another package, and so might those of the root.
  have hfits : (s.progress.set g.root .inProgress).Fits g g.root s.depthBound := by
    have hpending := List.countP_le_length (l := g.libraryTargets) (p := fun n =>
      ((s.progress.set g.root .inProgress).state n).isNone)
    rw [g.length_libraryTargets] at hpending
    rw [Progress.Fits, if_pos rfl]
    exact Nat.succ_le_succ hpending
  obtain ⟨s₁, hsearched, hend⟩ := Package.enterWith_searches (loadWithin_sound s.depthBound)
    (loadWithin_searches s.depthBound) (sound_start names config library) hpath rfl hown (if_pos rfl)
    (Progress.Search.start g) hgray hfits
  have hdecides := hsearched.decides (Package.stateAfter r.1.2)
  rw [Bool.not_not] at hdecides
  exact (congrArg (Progress.Decides g r.1.2.isOk) hend).mpr hdecides

/-- Two packages that import each other fail, and what one of them imports besides is loaded. -/
example :
    let i (text : String) : Import := { span := .origin, path := [⟨text, .origin⟩] }
    let a : Package := { imports := [i "b", i "c"] }
    let library := ((Library.insert {} "a" none a).insert "b" none { imports := [i "a"] }).insert
      "c" none {}
    let s := (define { imports := [i "a"] } (start {} {} library)).2
    s.stateOf (["a"], none) = some .failed ∧ s.stateOf (["b"], none) = some .failed ∧
      s.registry.loaded.length = 1 ∧ s.progress.cycle = true := by
  decide +kernel

end Session

end Binder
