import Binder.Proofs.Entry.Course
import Binder.Proofs.Entry.Settle

/-!
# Requests leave alone what is there

Whatever is requested of a session, and whether it succeeds or fails, everything that was there is
there afterwards, unchanged and under the same handle: what is written to was made on the way. Of the
states of packages, only that of the package entered is set anew.

* `Session.Preserved`: what is in a session is in a later one, unchanged.
* `Session.Course.packages`, `Session.Course.loaded`: the names of packages and what is loaded.
* `Session.Reachable.preserved_respond`: what a request leaves alone.
-/

namespace Binder

/-- The texts of the name that a request enters a package under. -/
def Request.ownKey (config : Config) : Request → Option PackageKey
  | define p => some (p.collect.ownKey config none)
  | enterAs path version _ => some (path, version)
  | load .. => none

/-- Offering a symbol names no package. -/
theorem Store.packages_define (span : Span) (scope : ScopeId) (name : Name) (x : SymbolId)
    (s : Store) : (define span scope name x s).2.table.packages = s.table.packages := by
  obtain ⟨scopes, log, heq⟩ := define_scopes span scope name x s
  rw [heq]

/-- Runs name no packages. -/
theorem Store.Run.packages {m : Mark} {s s' : Store} {os : List Offer} (h : Run m s os s') :
    s'.table.packages = s.table.packages := by
  induction h with
  | trans _ _ ih ih' => exact ih'.trans ih
  | setFields =>
    simp only [Store.setFields]
    split <;> rfl
  | var | container => exact packages_define ..
  | callable _ _ _ _ _ _ ih => exact ih.trans (packages_define ..)
  | _ => rfl

namespace Session

variable {s s' : Session}

/-- Everything in `s` is in `s'`, unchanged and under the same handle, except that the state of the
    package `own` may be another one. -/
structure Preserved (own : Option PackageKey) (s s' : Session) : Prop where
  store : s.store.Keeps s'.store
  packages : s.store.table.packages <+: s'.store.table.packages
  loaded : s.registry.loaded <+: s'.registry.loaded
  state : ∀ name st, s.registry.state? name = some st → some (name.key s.store.names) ≠ own →
    s'.registry.state? name = some st

/-- The names of packages that are there stay there. -/
theorem Course.packages (h : s.Course s') :
    s.store.table.packages <+: s'.store.table.packages := by
  induction h with
  | trans _ _ ih ih' => exact ih.trans ih'
  | run hrun => exact hrun.packages ▸ List.prefix_rfl
  | @declare s name p _ =>
    obtain ⟨packages, pkg, hgrows, heq⟩ := p.declare_eq name s.store
    rw [run_onStore, heq]
    exact hgrows
  | offer s span scope name x =>
    have hsame := Store.packages_define span scope name x s.store
    exact hsame ▸ List.prefix_rfl
  | _ => exact List.prefix_rfl

/-- What is loaded stays loaded. -/
theorem Course.loaded (h : s.Course s') : s.registry.loaded <+: s'.registry.loaded := by
  induction h with
  | trans _ _ ih ih' => exact ih.trans ih'
  | publish s p => exact List.prefix_append _ _
  | _ => exact List.prefix_rfl

/-- Only the package that is entered has its state set anew. -/
theorem stateOf_respond (hs : s.Sound) (r : Request) {key : PackageKey} {st : LoadState}
    (hne : some key ≠ r.ownKey s.config) (hstate : s.stateOf key = some st) :
    (respond r s).2.stateOf key = some st := by
  cases r with
  | define p =>
    have hpath : ∀ name ∈ (none : Option PackageName), name.Known s.store.names := nofun
    have hsettled := p.enterWith_settles (loadWithin_sound s.depthBound)
      (loadWithin_settles s.depthBound) hs hpath
    exact hsettled.keeps key st (fun heq => hne (congrArg some heq)) hstate
  | enterAs path version p =>
    obtain ⟨hs₁, hl₁, hname⟩ := hs.internPackage path version
    have hkey := (Store.internPackage_spec path version s.store).2
    let depth := (onStore (Store.internPackage path version) s).2.depthBound
    have hsettled := p.enterWith_settles (loadWithin_sound depth) (loadWithin_settles depth) hs₁
      (known_of_mem_some hname)
    refine hsettled.keeps key st (fun heq => hne ?_)
      ((hs.stateOf_withStore hl₁.keeps.names key).trans hstate)
    exact congrArg some (heq.trans hkey)
  | load path version =>
    obtain ⟨hs₁, hl₁, hname⟩ := hs.internPackage path version
    exact (loadWithin_settles _ _ _ hs₁ hname).1 key st
      ((hs.stateOf_withStore hl₁.keeps.names key).trans hstate)

/-- Whatever is requested, nothing that is there is changed but the state of the package entered. -/
theorem Reachable.preserved_respond (h : s.Reachable) (r : Request) :
    s.Preserved (r.ownKey s.config) (respond r s).2 := by
  obtain ⟨hs', hl⟩ := respond_spec r h.sound
  have hcourse := course_respond r h.sound
  refine ⟨hl.keeps, hcourse.packages, hcourse.loaded, fun name st hstate hne => ?_⟩
  have hname : name.Known s.store.names := h.sound.known _ (mem_of_lookup hstate)
  have hkept := stateOf_respond h.sound r hne ((h.sound.stateOf_eq hname).trans hstate)
  rw [← hname.key_eq hl.keeps.names, hs'.stateOf_eq (hname.mono hl.keeps.names)] at hkept
  exact hkept

/-- A package is entered, and then another one under its name, which fails. -/
theorem preserved_entered_again :
    let T : Ident := ⟨"T", .origin⟩
    let s := (start {} {} {}).after [.define { structs := [{ span := .origin, name := T }] }]
    let r : Request := .define { imports := [{ span := .origin, path := [T] }] }
    s.Reachable ∧ s.stateOf (["."], none) = some (.loaded ⟨1⟩) ∧
      (respond r s).2.stateOf (["."], none) = some .failed ∧
      s.Preserved (some (["."], none)) (respond r s).2 := by
  intro T s r
  have h : s.Reachable := (Reachable.start {} {} {}).after _
  have hkey : r.ownKey s.config = some (["."], none) := by decide +kernel
  have hpreserved := h.preserved_respond r
  rw [hkey] at hpreserved
  exact ⟨h, by decide +kernel, by decide +kernel, hpreserved⟩

end Session

end Binder
