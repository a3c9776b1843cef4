import Binder.Proofs.Entry.Complete
import Binder.Proofs.Entry.Report
import Binder.Proofs.Entry.Seal
import Binder.Proofs.Strata

/-!
# Packages that are entered to the end

When the imports of a package are had, its members are entered, and nothing is left to be done about
them: structs have their fields, callables their types, receivers and variables those that they
should have, and all is reported.

* `Package.CompleteIn`: a package has been entered to the end.
* `Package.enterMembers_spec`: that is so when its members have been entered.
* `Session.Enters.complete`: it is so for every package that is entered with success.
-/

namespace Binder

open Store

namespace Package

/-- The package, whose symbol is `c`, has been entered to the end. -/
structure CompleteIn (s : Store) (c : SymbolId) (p : Package) : Prop where
  sealed : ∀ d ∈ p.structs, d.SealedIn s
  completed : ∀ e ∈ p.everyCallable, e.2.CompletedIn s e.1
  received : ∀ f ∈ p.functions, ∀ r, f.head.receiver = some r → r.ReceivedIn s c f.head.name
  typed : ∀ v ∈ p.vars, v.type.ty = v.ty

section

variable {m : Mark} {s s' : Store} {site : Site} {config : Config} {p p' : Package}

theorem completeIn_enterMembers (config : Config) (p : Package) (h : site.Top m s) :
    (p.enterMembers config site s).1.CompleteIn (p.enterMembers config site s).2 site.package where
  sealed := p.sealed_enterMembers config h
  completed := p.completed_enterMembers config h
  received _ hf _ hr := received_enterMembers config p h hf hr
  typed := by
    obtain ⟨structs, connectors, services, structs', connectors', functions, services', vars, s₁,
      s₂, s₃, s₄, s₅, s₆, s₇, s₈, h₁, h₂, h₃, h₄, h₅, h₆, h₇, h₈⟩ := p.exists_stages config site s
    have htyped : ∀ v ∈ (p.vars.mapM (·.enter site) s₇).1, v.type.ty = v.ty :=
      forall_run_mapM (fun v s => (VarDecl.ty_enter site v s).2) p.vars s₇
    rw [h₈] at htyped
    rw [enterMembers_eq h₁ h₂ h₃ h₄ h₅ h₆ h₇ h₈]
    exact htyped

/-- What is known of a package when its members have been entered. -/
theorem enterMembers_spec (h : site.Top m s) (ht : s.table.Stratified)
    (hp : p.enterMembers config site s = (p', s')) :
    p'.CompleteIn s' site.package ∧ s'.table.Stratified ∧
      s'.others = s.others ++ p'.reports s' site.package ∧
      p'.unbound = (p.equipped config (s.symbolText site.package) p'.vars).unbound := by
  have hcomplete := completeIn_enterMembers config p h
  have hothers := others_enterMembers config p h ht
  have hbare := bare_enterMembers config site p s
  obtain ⟨hrun, _, hunbound⟩ := run_enterMembers config p h
  rw [hp] at hcomplete hothers hbare hrun hunbound
  refine ⟨hcomplete, hrun.stratified ht, hothers.trans ?_, hunbound⟩
  rw [← reports_bare s' site.package p', hbare, reports_bare]

end

end Package

namespace Session

variable {s s₁ s' : Session} {path : Option PackageName} {key : PackageName} {site : Site}
  {p p' : Package} {depth : Nat} {x : SymbolId}

/-- Every package that is entered with success has been entered to the end. -/
theorem Enters.complete (h : Enters depth path p s)
    (ho : p.collect.opened path s = (key, site, s₁))
    (hp : p.enterWith (loadWithin depth) path s = ((p', .ok x), s')) :
    let imported := (Import.enterAll (loadWithin depth) site p.collect.imports s₁).2
    x = site.package ∧
      Package.Entered (loadWithin depth) site s s₁ imported p.collect.imports p' s' ∧
      p'.CompleteIn s'.store x ∧
      s'.store.others = imported.store.others ++ p'.reports s'.store x := by
  intro imported
  obtain ⟨hs, hpath⟩ := h.sound
  obtain ⟨hopened, _⟩ := p.collect.opened_spec hs hpath
  have hcourse := p.collect.course_opened hpath
  rw [ho] at hopened hcourse
  have hcourse' := Import.course_enterAll (loadWithin_sound depth) (loadWithin_courses depth)
    p.collect.imports hopened.opens
  obtain ⟨imports, s₂, hall, rfl, hmembers, hentered⟩ :=
    Package.exists_members (loadWithin_sound depth) hs hpath ho hp
  have himported : imported = s₂ := congrArg Prod.snd hall
  have hstratified : imported.store.table.Stratified := by
    obtain ⟨names, config, library, hstart⟩ := h.course
    exact ((hstart.trans hcourse).trans hcourse').stratified (stratified_start names config library)
  rw [himported] at hstratified ⊢
  obtain ⟨hcomplete, _, hothers, _⟩ :=
    Package.enterMembers_spec hentered.opens.top hstratified hmembers
  exact ⟨rfl, hentered, hcomplete, hothers⟩

end Session

end Binder
