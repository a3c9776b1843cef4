import Binder.Proofs.Entry.Settle

/-!
# No package is left in progress

An entry sets the state of its package to in progress when it begins and to something else when it
ends, whether it succeeds or fails, and so do the entries that are nested in it. So a package that
is in progress afterwards was so before, and between requests none is.

* `Session.Concludes`: no package is in progress that was not before.
* `Loader.Concludes`, `Session.loadWithin_concludes`: loads leave none in progress.
* `Session.Reachable.state?_ne_inProgress`: between requests, no package is in progress.
-/

namespace Binder

/-- A package that is in progress in `s'` was so in `s`. -/
def Session.Concludes (s s' : Session) : Prop :=
  ∀ key, s'.stateOf key = some .inProgress → s.stateOf key = some .inProgress

/-- What a loader begins it also ends. -/
def Loader.Concludes (load : Loader) : Prop :=
  ∀ name (s : Session), s.Sound → name.Known s.store.names → s.Concludes (load name s).2

namespace Import

variable {load : Loader} {site : Site} {s₀ s : Session}

theorem enterAll_concludes (hload : load.Sound) (hconcludes : load.Concludes)
    (imports : List Import) (h : site.Opens s₀ s) :
    s.Concludes (enterAll load site imports s).2 := by
  induction imports generalizing s with
  | nil => exact fun _ => id
  | cons i rest ih =>
    obtain ⟨h₁, _⟩ := i.enter_opens hload h
    obtain ⟨hs₁, hl₁, hknown⟩ := h.sound.internPackage i.target.1 i.target.2
    intro key hkey
    rw [enterAll_cons] at hkey
    have hloaded := ih h₁ key hkey
    rw [i.stateOf_enter hload site h.sound] at hloaded
    rw [← h.sound.stateOf_withStore hl₁.keeps.names]
    exact hconcludes _ _ hs₁ hknown key hloaded

end Import

theorem Package.stateAfter_ne (outcome : Except EnterError SymbolId) :
    stateAfter outcome ≠ .inProgress := by
  cases outcome <;> nofun

/-- When a package is done, it is not in progress any more. -/
theorem Package.enterWith_concludes {load : Loader} {path : Option PackageName} {s : Session}
    (hload : load.Sound) (hconcludes : load.Concludes) (p : Package) (hs : s.Sound)
    (hpath : ∀ name ∈ path, name.Known s.store.names) :
    s.Concludes (p.enterWith load path s).2 := by
  intro key hkey
  rw [p.stateOf_enterWith hload hs hpath] at hkey
  split at hkey
  · exact absurd (Option.some.inj hkey) (stateAfter_ne _)
  · obtain ⟨⟨hopens, _⟩, _⟩ := p.collect.opened_spec hs hpath
    have hopened := Import.enterAll_concludes hload hconcludes p.collect.imports hopens key hkey
    rwa [(p.collect.opened_settles hs hpath).2, if_neg ‹_›] at hopened

namespace Session

variable {s : Session}

theorem enterFetched_concludes {load : Loader} {name : PackageName} (hload : load.Sound)
    (hconcludes : load.Concludes) (p : Package) (hs : s.Sound) (hname : name.Known s.store.names) :
    s.Concludes (enterFetched load name p s).2 := by
  intro key hkey
  have hs₁ : (setState name .inProgress s).2.Sound := hs.setState hname nofun
  rw [stateOf_enterFetched hload p hs hname] at hkey
  split at hkey
  · exact absurd (Option.some.inj hkey) (Package.stateAfter_ne _)
  · have hbegun := p.enterWith_concludes hload hconcludes hs₁ (known_of_mem_some hname) key hkey
    rwa [hs.stateOf_setState hname, if_neg ‹_›] at hbegun

/-- Loading, with loads nested at most `depth` deep in one another. -/
theorem loadWithin_concludes : ∀ depth : Nat, Loader.Concludes (loadWithin depth) :=
  loadWithin_induction (Q := fun _ s r => s.Concludes r.2) (fun _ _ _ _ _ _ _ => id)
    fun depth _ _ p ih hs hname _ => enterFetched_concludes (loadWithin_sound depth) ih p hs hname

theorem concludes_respond (r : Request) (hs : s.Sound) : s.Concludes (respond r s).2 := by
  cases r with
  | define p =>
    exact p.enterWith_concludes (loadWithin_sound _) (loadWithin_concludes _) hs nofun
  | enterAs path version p =>
    obtain ⟨hs₁, hl₁, hname⟩ := hs.internPackage path version
    intro key hkey
    rw [← hs.stateOf_withStore hl₁.keeps.names]
    exact p.enterWith_concludes (loadWithin_sound _) (loadWithin_concludes _) hs₁
      (known_of_mem_some hname) key hkey
  | load path version =>
    obtain ⟨hs₁, hl₁, hname⟩ := hs.internPackage path version
    intro key hkey
    rw [← hs.stateOf_withStore hl₁.keeps.names]
    exact loadWithin_concludes _ _ _ hs₁ hname key hkey

/-- Between requests, no package is in progress. -/
theorem Reachable.state?_ne_inProgress (h : s.Reachable) (name : PackageName) :
    s.registry.state? name ≠ some .inProgress := by
  have hstate : ∀ key, s.stateOf key ≠ some .inProgress := by
    induction h with
    | start => nofun
    | step r h ih => exact fun key hkey => ih key (concludes_respond r h.sound key hkey)
  intro hname
  have hknown := h.sound.known (name, .inProgress) (mem_of_lookup hname)
  exact hstate _ ((h.sound.stateOf_eq hknown).trans hname)

end Session

end Binder
