import Binder.History
import Binder.Proofs.Entry.Package

/-!
# Loading packages

A loader that enters the packages of the library, with itself as the loader of their imports, keeps
sessions sound, however deep loads are nested. So every reachable session is sound, and so is every
session in which a package begins to be entered, be it a package of a caller or one that is loaded
on the way.

* `Session.loadWithin_induction`: what holds of all loads.
* `Session.loadWithin_sound`: loading.
* `Session.define_eq_enterWith`: a package of the caller is entered with the loader of the caller.
* `Session.Reachable.sound`: the reachable sessions.
* `Session.Enters`: the packages that are entered, each with the session in which that begins.
-/

namespace Binder

namespace Session

variable {s : Session}

/-! ## Loaders -/

theorem state?_of_settled? {name : PackageName} (h : s.settled? name = none) :
    s.registry.state? name = none := by
  unfold settled? at h
  cases hstate : s.registry.state? name with
  | none => rfl
  | some state =>
    rw [hstate] at h
    cases state <;> cases h

theorem state?_of_settled?_ok {name : PackageName} {x : SymbolId}
    (h : s.settled? name = some (.ok x)) : s.registry.state? name = some (.loaded x) := by
  unfold settled? at h
  cases hstate : s.registry.state? name with
  | none =>
    rw [hstate] at h
    cases h
  | some state =>
    rw [hstate] at h
    cases state with
    | loaded y =>
      cases h
      rfl
    | inProgress | failed => cases h

/-- A package that is loaded is a package. -/
theorem Sound.kindOf_of_settled? (hs : s.Sound) {name : PackageName} {x : SymbolId}
    (h : s.settled? name = some (.ok x)) : s.store.table.kindOf x = some .package :=
  hs.loaded (name, .loaded x) (mem_of_lookup (state?_of_settled?_ok h)) x rfl

section

variable {load : Loader} {name : PackageName} {p p' : Package} {s' : Session}

theorem enterFetched_of_ok {x : SymbolId}
    (h : p.enterWith load (some name) (setState name .inProgress s).2 = ((p', .ok x), s')) :
    enterFetched load name p s = (.ok x, (publish p' (setState name (.loaded x) s').2).2) := by
  simp only [enterFetched, run_bind, run_get, h]
  rfl

theorem enterFetched_of_error {e : EnterError}
    (h : p.enterWith load (some name) (setState name .inProgress s).2 = ((p', .error e), s')) :
    enterFetched load name p s =
      (.error (.failed (name.text s.store.names)), (setState name .failed s').2) := by
  simp only [enterFetched, run_bind, run_get, h]
  rfl

/-- The name of a package that is begun to be entered for an import. -/
theorem known_of_mem_some {names : Names} (hname : name.Known names) :
    ∀ n ∈ some name, n.Known names := fun _ hn => Option.mem_some_iff.1 hn ▸ hname

/-- A package that is fetched is entered, and its state is kept. -/
theorem enterFetched_spec (hload : load.Sound) (p : Package) (hs : s.Sound)
    (hname : name.Known s.store.names) :
    (enterFetched load name p s).2.Sound ∧ s.Leads (enterFetched load name p s).2 ∧
      ∀ x, (enterFetched load name p s).1 = .ok x →
        (enterFetched load name p s).2.store.table.kindOf x = some .package := by
  have hs₁ : (setState name .inProgress s).2.Sound := hs.setState hname nofun
  obtain ⟨h₂, hok⟩ := Package.enterWith_spec hload p hs₁ (known_of_mem_some hname)
  have hl := (Leads.refl s).setState name .inProgress
  cases hp : p.enterWith load (some name) (setState name .inProgress s).2 with
  | mk r s₂ =>
    obtain ⟨p', outcome⟩ := r
    rw [hp] at h₂ hok
    have hl₂ := hl.trans h₂.leads
    have hname₂ := hname.mono hl₂.keeps.names
    cases outcome with
    | error e =>
      rw [enterFetched_of_error hp]
      exact ⟨h₂.sound.setState hname₂ nofun, hl₂.setState _ _, nofun⟩
    | ok x =>
      have hx : s₂.store.table.kindOf x = some .package := by
        rw [(hok x rfl).1]
        exact h₂.kindOf
      rw [enterFetched_of_ok hp]
      refine ⟨(h₂.sound.setState hname₂ fun y hy => ?_).publish p',
        (hl₂.setState _ _).publish p', fun y hy => ?_⟩
      · cases hy
        exact hx
      · cases hy
        exact hx

end

/-- The package called `name` is not settled yet, and the library has it. -/
structure Fetches (s : Session) (name : PackageName) (p : Package) : Prop where
  settled? : s.settled? name = none
  fetch? : s.fetch? name = some p

theorem loadWithin_of_settled? {name : PackageName} {outcome : Except LoadError SymbolId}
    (h : s.settled? name = some outcome) (depth : Nat) :
    loadWithin depth name s = (outcome, s) := by
  cases depth <;> simp only [loadWithin, run_bind, run_get, h] <;> rfl

theorem loadWithin_of_fetch?_eq_none {name : PackageName} (h : s.settled? name = none)
    (hp : s.fetch? name = none) (depth : Nat) :
    loadWithin depth name s = (.error (.notFound (name.text s.store.names)), s) := by
  cases depth <;> simp only [loadWithin, run_bind, run_get, h, hp] <;> rfl

theorem Fetches.loadWithin_zero {name : PackageName} {p : Package} (h : s.Fetches name p) :
    loadWithin 0 name s = (.error (.cycle (name.text s.store.names)), s) := by
  simp only [loadWithin, run_bind, run_get, h.settled?, h.fetch?]
  rfl

theorem Fetches.loadWithin_succ {name : PackageName} {p : Package} (h : s.Fetches name p)
    (depth : Nat) : loadWithin (depth + 1) name s = enterFetched (loadWithin depth) name p s := by
  simp only [loadWithin, run_bind, run_get, h.settled?, h.fetch?]

/-- What holds of loads that enter nothing, and of those that enter a package if it holds of the
    loads for its imports, holds of all loads. -/
theorem loadWithin_induction
    {Q : PackageName → Session → Except LoadError SymbolId × Session → Prop}
    (hsame : ∀ name s outcome, s.Sound → name.Known s.store.names →
      (∀ x, outcome = .ok x → s.settled? name = some (.ok x)) → Q name s (outcome, s))
    (hfetched : ∀ depth name s p, (∀ name s, s.Sound → name.Known s.store.names →
      Q name s (loadWithin depth name s)) → s.Sound → name.Known s.store.names →
      s.Fetches name p → Q name s (enterFetched (loadWithin depth) name p s)) :
    ∀ depth name s, s.Sound → name.Known s.store.names →
      Q name s (loadWithin depth name s) := by
  intro depth name s hs hname
  cases hsettled : s.settled? name with
  | some outcome =>
    rw [loadWithin_of_settled? hsettled]
    exact hsame name s outcome hs hname fun x hx => hsettled.trans (congrArg some hx)
  | none =>
    cases hp : s.fetch? name with
    | none =>
      rw [loadWithin_of_fetch?_eq_none hsettled hp]
      exact hsame name s _ hs hname nofun
    | some p =>
      cases depth with
      | zero =>
        rw [Fetches.loadWithin_zero ⟨hsettled, hp⟩]
        exact hsame name s _ hs hname nofun
      | succ depth =>
        rw [Fetches.loadWithin_succ ⟨hsettled, hp⟩]
        exact hfetched depth name s p (loadWithin_induction hsame hfetched depth) hs hname
          ⟨hsettled, hp⟩

/-- Loading, with loads nested at most `depth` deep in one another. -/
theorem loadWithin_sound : ∀ depth : Nat, Loader.Sound (loadWithin depth) :=
  loadWithin_induction (Q := fun _ s r => r.2.Sound ∧ s.Leads r.2 ∧
      ∀ x, r.1 = .ok x → r.2.store.table.kindOf x = some .package)
    (fun _ s _ hs _ hok => ⟨hs, .refl s, fun x hx => hs.kindOf_of_settled? (hok x hx)⟩)
    fun _ _ _ p ih hs hname _ => enterFetched_spec ih p hs hname

/-! ## Loads of packages of the caller -/

section

variable {s₁ s' : Session} {site : Site}

theorem load_eq (name : PackageName) (s : Session) :
    load name s = loadWithin s.depthBound name s := rfl

theorem load_sound : Loader.Sound load := fun name s hs hname =>
  loadWithin_sound s.depthBound name s hs hname

/-- The bound on the depth of loads does not change. -/
theorem Leads.depthBound (h : s.Leads s') : s'.depthBound = s.depthBound := by
  rw [Session.depthBound, h.library, Session.depthBound]

/-- While a package of the caller is entered, its imports are loaded as if the caller asked. -/
theorem enterAll_load (imports : List Import) (h : site.Opens s s₁) :
    Import.enterAll (loadWithin s.depthBound) site imports s₁ =
      Import.enterAll load site imports s₁ := by
  induction imports generalizing s₁ with
  | nil =>
    -- The loaders differ, but neither is run.
    have hnil : ∀ load, Import.enterAll load site [] s₁ = (([], none), s₁) := fun _ => rfl
    rw [hnil, hnil]
  | cons i rest ih =>
    obtain ⟨_, hl, _⟩ := h.sound.internPackage i.target.1 i.target.2
    have hbound : (i.targetName s₁).2.depthBound = s.depthBound := (h.leads.trans hl).depthBound
    have hloaded : i.loaded (loadWithin s.depthBound) s₁ = i.loaded load s₁ := by
      rw [Import.loaded, Import.loaded, load_eq, hbound]
    have henter : i.enter (loadWithin s.depthBound) site s₁ = i.enter load site s₁ :=
      Import.enter_congr hloaded
    obtain ⟨h₁, _⟩ := i.enter_opens load_sound h
    rw [Import.enterAll_cons, Import.enterAll_cons, henter, ih h₁]

theorem define_eq_enterWith (p : Package) (hs : s.Sound) : define p s = p.enterWith load none s := by
  have hpath : ∀ name ∈ (none : Option PackageName), name.Known s.store.names := nofun
  obtain ⟨hopened, _⟩ := p.collect.opened_spec hs hpath
  exact p.enterWith_congr (enterAll_load p.collect.imports hopened.opens)

end

/-! ## Requests -/

theorem define_spec (p : Package) (hs : s.Sound) : (define p s).2.Sound ∧ s.Leads (define p s).2 := by
  have hpath : ∀ name ∈ (none : Option PackageName), name.Known s.store.names := nofun
  obtain ⟨h, _⟩ := Package.enterWith_spec (loadWithin_sound s.depthBound) p hs hpath
  exact ⟨h.sound, h.leads⟩

theorem enterAs_spec {name : PackageName} (p : Package) (hs : s.Sound)
    (hname : name.Known s.store.names) :
    (enterAs name p s).2.Sound ∧ s.Leads (enterAs name p s).2 := by
  obtain ⟨h, _⟩ :=
    Package.enterWith_spec (loadWithin_sound s.depthBound) p hs (known_of_mem_some hname)
  exact ⟨h.sound, h.leads⟩

/-- Whatever is requested, a sound session stays sound and nothing in it changes. -/
theorem respond_spec (r : Request) (hs : s.Sound) :
    (respond r s).2.Sound ∧ s.Leads (respond r s).2 := by
  cases r with
  | define p => exact define_spec p hs
  | enterAs path version p =>
    obtain ⟨hs₁, hl₁, hname⟩ := hs.internPackage path version
    obtain ⟨hs₂, hl₂⟩ := enterAs_spec p hs₁ hname
    exact ⟨hs₂, hl₁.trans hl₂⟩
  | load path version =>
    obtain ⟨hs₁, hl₁, hname⟩ := hs.internPackage path version
    obtain ⟨hs₂, hl₂, _⟩ := loadWithin_sound _ _ _ hs₁ hname
    exact ⟨hs₂, hl₁.trans hl₂⟩

theorem Reachable.sound (h : s.Reachable) : s.Sound := by
  induction h with
  | start names config library => exact sound_start names config library
  | step r _ ih => exact (respond_spec r ih).1

/-- What is in a session stays there, whatever is requested. -/
theorem Reachable.leads_after (h : s.Reachable) (requests : List Request) :
    s.Leads (s.after requests) := by
  induction requests generalizing s with
  | nil => exact .refl s
  | cons r rest ih => exact (respond_spec r h.sound).2.trans (ih (h.step r))

/-! ## Packages that are entered -/

/-- In the course of requests to a new session, the package begins to be entered in a session: on
    behalf of an import if a name is given, and with loads nested at most so deep below it. -/
inductive Enters : Nat → Option PackageName → Package → Session → Prop
  | define {s : Session} (p : Package) : s.Reachable → Enters s.depthBound none p s
  | enterAs {s s₁ : Session} {name : PackageName} (path : List String) (version : Option String)
      (p : Package) :
    s.Reachable → onStore (Store.internPackage path version) s = (name, s₁) →
    Enters s₁.depthBound (some name) p s₁
  | load {s s₁ : Session} {name : PackageName} {p : Package} {depth : Nat} (path : List String)
      (version : Option String) :
    s.Reachable → onStore (Store.internPackage path version) s = (name, s₁) →
    s₁.depthBound = depth + 1 → s₁.Fetches name p →
    Enters depth (some name) p (setState name .inProgress s₁).2
  /-- A package is entered for an import of another one, some of whose imports have been entered. -/
  | nested {s s₁ s₂ s₃ : Session} {path : Option PackageName} {key name : PackageName} {site : Site}
      {p q : Package} {i : Import} {done rest : List Import} {depth : Nat} :
    Enters (depth + 1) path p s → p.collect.imports = done ++ i :: rest →
    p.collect.opened path s = (key, site, s₁) →
    (Import.enterAll (loadWithin (depth + 1)) site done s₁).2 = s₂ →
    i.targetName s₂ = (name, s₃) → s₃.Fetches name q →
    Enters depth (some name) q (setState name .inProgress s₃).2

theorem Enters.sound {depth : Nat} {path : Option PackageName} {p : Package}
    (h : Enters depth path p s) : s.Sound ∧ ∀ name ∈ path, name.Known s.store.names := by
  induction h with
  | define p h => exact ⟨h.sound, nofun⟩
  | enterAs path version p h heq =>
    obtain ⟨hs, _, hname⟩ := h.sound.internPackage path version
    rw [heq] at hs hname
    exact ⟨hs, known_of_mem_some hname⟩
  | load path version h heq =>
    obtain ⟨hs, _, hname⟩ := h.sound.internPackage path version
    rw [heq] at hs hname
    exact ⟨hs.setState hname nofun, known_of_mem_some hname⟩
  | @nested s s₁ s₂ s₃ path key name site p q i done rest depth _ _ ho hdone hi _ ih =>
    obtain ⟨hopened, _⟩ := p.collect.opened_spec ih.1 ih.2
    rw [ho] at hopened
    obtain ⟨h₂, _⟩ := Import.enterAll_opens (loadWithin_sound (depth + 1)) done hopened.opens
    rw [hdone] at h₂
    obtain ⟨hs, _, hname⟩ := h₂.sound.internPackage i.target.1 i.target.2
    rw [show onStore (Store.internPackage i.target.1 i.target.2) s₂ = _ from hi] at hs hname
    exact ⟨hs.setState hname nofun, known_of_mem_some hname⟩

end Session

end Binder
