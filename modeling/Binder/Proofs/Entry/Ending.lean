import Binder.Proofs.Entry.Seal

/-!
# Entries that end with success

Which entries end with success while a request is answered: that of the package of the caller, and
those of the packages that are loaded on the way, however deep the loads are nested. When an entry
ends that way, the types written in the package are resolved, and from then on the store only grows.

* `Ending`: an entry that ended with success.
* `Import.endings`, `Package.endings`, `Session.endingsWithin`, `Request.endings`: those in the course
  of imports, of an entry, of a load and of a request.
* `Request.loaded_respond`: their packages are those that are published or given to the caller.
* `Ending.Lasts`: what holds of an ending from then on.
* `Request.lasts_of_mem_endings`: it holds when the request has been answered.
-/

namespace Binder

/-- An entry that ended with success: the package as it came out, its symbol, and the store as it was
    left. -/
structure Ending where
  package : Package
  symbol : SymbolId
  store : Store

/-- The entries that end with success in the course of loads. -/
abbrev Endings := PackageName → Session → List Ending

/-- Those in the course of imports that are entered one after another. -/
def Import.endings (load : Loader) (nested : Endings) (site : Site) :
    List Import → Session → List Ending
  | [], _ => []
  | i :: rest, s =>
    nested (i.targetName s).1 (i.targetName s).2 ++
      endings load nested site rest (i.enter load site s).2

/-- Those in the course of the entry of a package, which is the last of them. -/
def Package.endings (load : Loader) (nested : Endings) (path : Option PackageName) (p : Package)
    (s : Session) : List Ending :=
  let (_, site, s₁) := p.collect.opened path s
  let ((p', outcome), s₂) := p.enterWith load path s
  Import.endings load nested site p.collect.imports s₁ ++
    match outcome with
    | .ok x => [⟨p', x, s₂.store⟩]
    | .error _ => []

/-- Those in the course of a load, with loads nested at most `depth` deep in one another. -/
def Session.endingsWithin : Nat → Endings
  | 0, _, _ => []
  | depth + 1, name, s =>
    match s.settled? name, s.fetch? name with
    | none, some p =>
      p.endings (loadWithin depth) (endingsWithin depth) (some name)
        (setState name .inProgress s).2
    | _, _ => []

open Session

/-- Those in the course of a request. -/
def Request.endings (s : Session) : Request → List Ending
  | .define p => p.endings (loadWithin s.depthBound) (endingsWithin s.depthBound) none s
  | .enterAs path version p =>
    let (name, s₁) := onStore (Store.internPackage path version) s
    p.endings (loadWithin s₁.depthBound) (endingsWithin s₁.depthBound) (some name) s₁
  | .load path version =>
    let (name, s₁) := onStore (Store.internPackage path version) s
    endingsWithin s₁.depthBound name s₁

/-! ## Which entries they are -/

/-- The packages of the endings in the course of a load are those that are published. -/
def Loader.Publishes (load : Loader) (nested : Endings) : Prop :=
  ∀ name (s : Session),
    (load name s).2.registry.loaded = s.registry.loaded ++ (nested name s).map (·.package)

section

variable {load : Loader} {nested : Endings}

/-- Nothing is published but by loads. -/
theorem Import.registry_enter (load : Loader) (site : Site) (i : Import) (s : Session) :
    (i.enter load site s).2.registry = (i.loaded load s).2.registry := by
  cases hi : i.loaded load s with
  | mk outcome s₁ =>
    cases outcome with
    | error e => rw [enter_of_error hi]
    | ok x => rw [enter_of_ok hi]

theorem Import.loaded_enterAll (hpublishes : load.Publishes nested) (site : Site)
    (imports : List Import) (s : Session) : (enterAll load site imports s).2.registry.loaded =
      s.registry.loaded ++ (endings load nested site imports s).map (·.package) := by
  induction imports generalizing s with
  | nil => exact (List.append_nil _).symm
  | cons i rest ih =>
    have hload : (i.loaded load s).2.registry.loaded = s.registry.loaded ++
      (nested (i.targetName s).1 (i.targetName s).2).map (·.package) := hpublishes _ _
    rw [enterAll_cons, ih, i.registry_enter, hload, endings, List.map_append, List.append_assoc]

theorem Package.loaded_enterWith (hpublishes : load.Publishes nested) (path : Option PackageName)
    (p : Package) (s : Session) :
    (p.enterWith load path s).2.registry.loaded ++
        (p.enterWith load path s).1.1.finished (p.enterWith load path s).1.2 =
      s.registry.loaded ++ (p.endings load nested path s).map (·.package) := by
  have hopened : (p.collect.opened path s).2.2.registry.loaded = s.registry.loaded := rfl
  rw [endings]
  cases ho : p.collect.opened path s with
  | mk key r =>
    obtain ⟨site, s₁⟩ := r
    rw [ho] at hopened
    let q : Package := { p.collect with symbol := some site.package }
    have himports := Import.loaded_enterAll hpublishes site q.imports s₁
    rw [show s₁.registry.loaded = s.registry.loaded from hopened] at himports
    cases hall : Import.enterAll load site q.imports s₁ with
    | mk r s₂ =>
      obtain ⟨imports, failure⟩ := r
      rw [hall] at himports
      cases failure with
      | some e =>
        rw [enterWith_eq ho (enterContents_of_error hall)]
        simp only [finished, List.append_nil]
        exact himports
      | none =>
        rw [enterWith_eq ho (enterContents_of_none hall rfl)]
        simp only [finished, List.map_append, List.map_singleton, ← List.append_assoc]
        exact congrArg (· ++ _) himports

end

namespace Session

/-- A package that is fetched is entered, and published if that is a success. -/
theorem enterFetched_left (load : Loader) (name : PackageName) (p : Package) (s : Session) :
    let r := p.enterWith load (some name) (setState name .inProgress s).2
    (enterFetched load name p s).2.store = r.2.store ∧
      (enterFetched load name p s).2.registry.loaded =
        r.2.registry.loaded ++ r.1.1.finished r.1.2 := by
  intro r
  cases hp : r with
  | mk r s₂ =>
    obtain ⟨p', outcome⟩ := r
    cases outcome with
    | error e =>
      rw [enterFetched_of_error hp]
      exact ⟨rfl, (List.append_nil _).symm⟩
    | ok x =>
      rw [enterFetched_of_ok hp]
      exact ⟨rfl, rfl⟩

variable {s : Session} {name : PackageName} {p : Package}

theorem Fetches.endingsWithin_succ (h : s.Fetches name p) (depth : Nat) :
    endingsWithin (depth + 1) name s =
      p.endings (loadWithin depth) (endingsWithin depth) (some name)
        (setState name .inProgress s).2 := by
  rw [endingsWithin, h.settled?, h.fetch?]

/-- A load that fetches no package does nothing. -/
theorem loadWithin_of_not_fetches (h : ¬∃ p, s.Fetches name p) (depth : Nat) :
    (loadWithin depth name s).2 = s ∧ endingsWithin depth name s = [] := by
  cases hsettled : s.settled? name with
  | some outcome =>
    rw [loadWithin_of_settled? hsettled]
    cases depth with
    | zero => exact ⟨rfl, rfl⟩
    | succ depth => exact ⟨rfl, by rw [endingsWithin, hsettled]⟩
  | none =>
    cases hp : s.fetch? name with
    | some p => exact absurd ⟨p, hsettled, hp⟩ h
    | none =>
      rw [loadWithin_of_fetch?_eq_none hsettled hp]
      cases depth with
      | zero => exact ⟨rfl, rfl⟩
      | succ depth => exact ⟨rfl, by rw [endingsWithin, hsettled, hp]⟩

/-- Loading, with loads nested at most `depth` deep in one another. -/
theorem loadWithin_publishes (depth : Nat) :
    Loader.Publishes (loadWithin depth) (endingsWithin depth) := by
  induction depth with
  | zero =>
    intro name s
    have hsame : (loadWithin 0 name s).2 = s := by
      by_cases h : ∃ p, s.Fetches name p
      · obtain ⟨p, hp⟩ := h
        rw [hp.loadWithin_zero]
      · exact (loadWithin_of_not_fetches h 0).1
    rw [hsame]
    exact (List.append_nil _).symm
  | succ depth ih =>
    intro name s
    by_cases h : ∃ p, s.Fetches name p
    · obtain ⟨p, hp⟩ := h
      rw [hp.loadWithin_succ, hp.endingsWithin_succ, (enterFetched_left _ _ _ _).2]
      exact p.loaded_enterWith ih (some name) (setState name .inProgress s).2
    · obtain ⟨hsame, hendings⟩ := loadWithin_of_not_fetches h (depth + 1)
      rw [hsame, hendings]
      exact (List.append_nil _).symm

end Session

/-- The packages of the endings in the course of a request are those that it publishes, and that of
    the caller if it was entered with success. -/
theorem Request.loaded_respond (r : Request) (s : Session) :
    (respond r s).2.registry.loaded ++ (respond r s).1.finished =
      s.registry.loaded ++ (r.endings s).map (·.package) := by
  cases r with
  | define p => exact p.loaded_enterWith (loadWithin_publishes _) none s
  | enterAs path version p =>
    exact p.loaded_enterWith (loadWithin_publishes _) _
      (onStore (Store.internPackage path version) s).2
  | load path version =>
    exact (List.append_nil _).trans
      (loadWithin_publishes _ _ (onStore (Store.internPackage path version) s).2)

/-! ## What lasts -/

/-- Every type written in the package was resolved when its entry ended, in a store that has become
    `u` since. -/
structure Ending.Lasts (e : Ending) (u : Store) : Prop where
  sound : e.store.Sound
  resolved : ∀ v ∈ e.package.allVars, v.type.ResolvedIn e.store e.symbol
  grows : e.store.Grows u

theorem Ending.Lasts.mono {e : Ending} {u u' : Store} (h : e.Lasts u) (g : u.Grows u') :
    e.Lasts u' :=
  ⟨h.sound, h.resolved, h.grows.trans g⟩

/-- What ends in the course of a load lasts when it is over. -/
def Loader.Lasts (load : Loader) (nested : Endings) : Prop :=
  ∀ name (s : Session), s.Sound → name.Known s.store.names →
    ∀ e ∈ nested name s, e.Lasts (load name s).2.store

section

variable {load : Loader} {nested : Endings} {site : Site} {s₀ s : Session}
  {path : Option PackageName}

theorem Import.lasts_of_mem_endings (hload : load.Sound) (hlasts : load.Lasts nested)
    (imports : List Import) (h : site.Opens s₀ s) :
    ∀ e ∈ endings load nested site imports s, e.Lasts (enterAll load site imports s).2.store := by
  induction imports generalizing s with
  | nil => exact fun _ he => absurd he List.not_mem_nil
  | cons i rest ih =>
    obtain ⟨hs₁, _, hknown⟩ := h.sound.internPackage i.target.1 i.target.2
    obtain ⟨h₂, _⟩ := i.enter_opens hload h
    obtain ⟨_, g₃⟩ := enterAll_opens hload rest h₂
    rw [enterAll_cons]
    intro e he
    rcases List.mem_append.1 he with he | he
    · exact (hlasts _ _ hs₁ hknown e he).mono ((i.grows_enter hload h).trans g₃)
    · exact ih h₂ e he

/-- Once its imports are had or not, the store only grows. -/
theorem Package.grows_enterContents (hload : load.Sound) (h : site.Opens s₀ s) (p : Package) :
    (Import.enterAll load site p.imports s).2.store.Grows (p.enterContents load site s).2.store := by
  cases hall : Import.enterAll load site p.imports s with
  | mk r s₁ =>
    obtain ⟨imports, failure⟩ := r
    cases failure with
    | some e =>
      rw [enterContents_of_error hall]
      exact .refl _
    | none =>
      have hentered := entered_enterMembers hload h hall rfl
      rw [enterContents_of_none hall rfl]
      exact hentered.members.grows hentered.opens.sound.store

theorem Package.lasts_of_mem_endings (hload : load.Sound) (hlasts : load.Lasts nested) (p : Package)
    (hs : s.Sound) (hpath : ∀ name ∈ path, name.Known s.store.names) :
    ∀ e ∈ p.endings load nested path s, e.Lasts (p.enterWith load path s).2.store := by
  obtain ⟨hopened, _⟩ := p.collect.opened_spec hs hpath
  obtain ⟨hopens, hok⟩ := p.enterWith_spec hload hs hpath
  rw [endings]
  cases ho : p.collect.opened path s with
  | mk key r =>
    obtain ⟨site, s₁⟩ := r
    rw [ho] at hopened
    let q : Package := { p.collect with symbol := some site.package }
    have himports := Import.lasts_of_mem_endings hload hlasts q.imports hopened.opens
    have g := q.grows_enterContents hload hopened.opens
    cases hc : q.enterContents load site s₁ with
    | mk r s₂ =>
      obtain ⟨p', outcome⟩ := r
      rw [hc] at g
      rw [enterWith_eq ho hc] at hopens hok ⊢
      intro e he
      rcases List.mem_append.1 he with he | he
      · exact (himports e he).mono g
      · cases outcome with
        | error _ => cases he
        | ok x =>
          cases List.mem_singleton.1 he
          obtain ⟨hx, _, hentered⟩ := hok x rfl
          exact ⟨hopens.sound.store, fun v hv => hx ▸ (hentered.vars v hv).type, .refl _⟩

end

namespace Session

/-- Loading, with loads nested at most `depth` deep in one another. -/
theorem loadWithin_lasts (depth : Nat) : Loader.Lasts (loadWithin depth) (endingsWithin depth) := by
  induction depth with
  | zero => exact fun _ _ _ _ _ he => absurd he List.not_mem_nil
  | succ depth ih =>
    intro name s hs hname e he
    by_cases h : ∃ p, s.Fetches name p
    · obtain ⟨p, hp⟩ := h
      have hs₁ : (setState name .inProgress s).2.Sound := hs.setState hname nofun
      rw [hp.endingsWithin_succ] at he
      rw [hp.loadWithin_succ, (enterFetched_left _ _ _ _).1]
      exact p.lasts_of_mem_endings (loadWithin_sound depth) ih hs₁ (known_of_mem_some hname) e he
    · rw [(loadWithin_of_not_fetches h (depth + 1)).2] at he
      cases he

end Session

/-- When a request has been answered, every entry that ended with success in its course lasts. -/
theorem Request.lasts_of_mem_endings {s : Session} (hs : s.Sound) (r : Request) :
    ∀ e ∈ r.endings s, e.Lasts (respond r s).2.store := by
  cases r with
  | define p => exact p.lasts_of_mem_endings (loadWithin_sound _) (loadWithin_lasts _) hs nofun
  | enterAs path version p =>
    obtain ⟨hs₁, _, hname⟩ := hs.internPackage path version
    exact p.lasts_of_mem_endings (loadWithin_sound _) (loadWithin_lasts _) hs₁
      (known_of_mem_some hname)
  | load path version =>
    obtain ⟨hs₁, _, hname⟩ := hs.internPackage path version
    exact loadWithin_lasts _ _ _ hs₁ hname

end Binder
