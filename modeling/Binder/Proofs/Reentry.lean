import Binder.Proofs.Entry.Again
import Binder.Proofs.Entry.Load

/-!
# Entering a package again

A package that was entered is entered again as if it were new, whether it was entered with success
the first time or failed, and in whichever session that was: the outcome is the same, the session
comes out the same, and so does the package if it is entered with success. Of the first entry, only
the symbols of imports may be left in a package that fails again.

* `Import.enterAll_of_alike`: imports.
* `Package.alike_enterWith`, `Package.enterWith_of_alike`: packages.
* `Session.Reachable.define_again`: packages of the caller.
-/

namespace Binder

/-! ## Imports -/

namespace Import

variable {load : Loader} {site : Site} {i j : Import}

theorem alike_enter (load : Loader) (site : Site) (i : Import) (s : Session) :
    i.Alike (i.enter load site s).1.1 := by
  cases hi : i.loaded load s with
  | mk outcome s₁ =>
    cases outcome with
    | error e =>
      rw [enter_of_error hi]
      exact ⟨i.symbol, rfl⟩
    | ok x =>
      rw [enter_of_ok hi]
      exact ⟨some x, rfl⟩

/-- Imports that are alike come to the same, but for the symbol of one that is not had. -/
theorem enter_of_alike (h : i.Alike j) (load : Loader) (site : Site) (s : Session) :
    (j.enter load site s).2 = (i.enter load site s).2 ∧
      (j.enter load site s).1.2 = (i.enter load site s).1.2 ∧
      ((i.enter load site s).1.2 = none →
        (j.enter load site s).1.1 = (i.enter load site s).1.1) := by
  obtain ⟨x, rfl⟩ := h
  cases hi : i.loaded load s with
  | mk outcome s₁ =>
    have hj : ({ i with symbol := x } : Import).loaded load s = (outcome, s₁) := hi
    cases outcome with
    | error e =>
      rw [enter_of_error hi, enter_of_error hj]
      exact ⟨rfl, rfl, nofun⟩
    | ok y =>
      rw [enter_of_ok hi, enter_of_ok hj]
      exact ⟨rfl, rfl, fun _ => rfl⟩

theorem alike_enterAll (load : Loader) (site : Site) (imports : List Import) (s : Session) :
    List.Forall₂ Alike imports (enterAll load site imports s).1.1 := by
  induction imports generalizing s with
  | nil => exact .nil
  | cons i rest ih =>
    rw [enterAll_cons]
    exact .cons (i.alike_enter load site s) (ih _)

theorem enterAll_of_alike {is js : List Import} (h : List.Forall₂ Alike is js) (load : Loader)
    (site : Site) (s : Session) :
    (enterAll load site js s).2 = (enterAll load site is s).2 ∧
      (enterAll load site js s).1.2 = (enterAll load site is s).1.2 ∧
      ((enterAll load site is s).1.2 = none →
        (enterAll load site js s).1.1 = (enterAll load site is s).1.1) := by
  induction h generalizing s with
  | nil => exact ⟨rfl, rfl, fun _ => rfl⟩
  | @cons i j is js hij _ ih =>
    obtain ⟨hs, hfailure, hi⟩ := enter_of_alike hij load site s
    obtain ⟨hs', hfailure', hrest⟩ := ih (i.enter load site s).2
    rw [enterAll_cons, enterAll_cons, hs, hfailure, hs', hfailure']
    refine ⟨rfl, rfl, fun hnone => ?_⟩
    obtain ⟨hnone, hnone'⟩ := Option.or_eq_none_iff.1 hnone
    exact congrArg₂ List.cons (hi hnone) (hrest hnone')

end Import

/-! ## Packages -/

namespace Package

variable {load : Loader} {site : Site} {s₀ s : Session} {path : Option PackageName}
  {p p' : Package}

/-- What comes of the contents of a package is like the package, whichever symbol it has. -/
theorem alike_enterContents (load : Loader) (hk : site.kind = .package) (p : Package)
    (s : Session) : p.Alike (p.enterContents load site s).1.1 := by
  have himports := Import.alike_enterAll load site p.imports s
  cases hall : Import.enterAll load site p.imports s with
  | mk r s₁ =>
    obtain ⟨imports, failure⟩ := r
    rw [hall] at himports
    have hself : p.Alike { p with imports } := { Alike.refl p with imports := himports, eq := rfl }
    cases failure with
    | some e =>
      rw [enterContents_of_error hall]
      exact hself
    | none =>
      have halike := alike_enterMembers s₁.config hk { p with imports } s₁.store
      have hkept := imports_enterMembers s₁.config site { p with imports } s₁.store
      cases hp : { p with imports }.enterMembers s₁.config site s₁.store with
      | mk q st =>
        rw [hp] at halike hkept
        rw [enterContents_of_none hall hp]
        exact { halike with imports := hkept.symm ▸ himports, eq := halike.eq }

/-- The contents of packages that are alike and have the same symbol come to the same, and so do the
    packages if they are entered with success. -/
theorem enterContents_of_alike (hload : load.Sound) (h : site.Opens s₀ s) (halike : p.Alike p')
    (hsymbol : p'.symbol = p.symbol) :
    (p'.enterContents load site s).2 = (p.enterContents load site s).2 ∧
      (p'.enterContents load site s).1.2 = (p.enterContents load site s).1.2 ∧
      ∀ x, (p.enterContents load site s).1.2 = .ok x →
        (p'.enterContents load site s).1.1 = (p.enterContents load site s).1.1 := by
  obtain ⟨h₁, _⟩ := Import.enterAll_opens hload p.imports h
  obtain ⟨hs, hfailure, himports⟩ := Import.enterAll_of_alike halike.imports load site s
  cases hall : Import.enterAll load site p.imports s with
  | mk r s₁ =>
    obtain ⟨imports, failure⟩ := r
    cases hall' : Import.enterAll load site p'.imports s with
    | mk r s₁' =>
      obtain ⟨imports', failure'⟩ := r
      rw [hall, hall'] at hs hfailure himports
      rw [hall] at h₁
      cases hs
      cases hfailure
      cases failure with
      | some e =>
        rw [enterContents_of_error hall, enterContents_of_error hall']
        exact ⟨rfl, rfl, nofun⟩
      | none =>
        cases himports rfl
        have hself : Alike { p with imports } { p' with imports } :=
          { halike with
            imports := (Alike.refl { p with imports }).imports
            eq := by rw [halike.eq] }
        have hmembers := enterMembers_of_alike s₁.config h₁.top hself rfl hsymbol
        cases hp : { p with imports }.enterMembers s₁.config site s₁.store with
        | mk q st =>
          rw [hp] at hmembers
          rw [enterContents_of_none hall hp, enterContents_of_none hall' hmembers]
          exact ⟨rfl, rfl, fun _ _ => rfl⟩

/-- There is nothing to collect in a package that was entered. -/
theorem Alike.collect_eq (h : p.collect.Alike p') : p'.collect = p' := by
  have hunits : p'.units = p.collect.units := by rw [h.eq]
  have hpending : p'.pending = [] := by
    rw [pending, hunits]
    exact p.pending_collect
  rw [collect, hpending, List.foldl_nil, drain_of_pending hpending]

theorem alike_enterWith (load : Loader) (path : Option PackageName) (p : Package) (s : Session) :
    p.collect.Alike (p.enterWith load path s).1.1 := by
  cases ho : p.collect.opened path s with
  | mk key r =>
    obtain ⟨site, s₁⟩ := r
    have hk : site.kind = .package := by
      have hkind : (p.collect.opened path s).2.1.kind = .package := rfl
      rw [ho] at hkind
      exact hkind
    have halike := alike_enterContents load hk { p.collect with symbol := some site.package } s₁
    rw [enterWith_eq ho rfl]
    exact { halike with eq := halike.eq }

/-- A package that is like another one when that is collected is entered like it. -/
theorem enterWith_of_alike (hload : load.Sound) (hs : s.Sound)
    (hpath : ∀ name ∈ path, name.Known s.store.names) (halike : p.collect.Alike p') :
    (p'.enterWith load path s).2 = (p.enterWith load path s).2 ∧
      (p'.enterWith load path s).1.2 = (p.enterWith load path s).1.2 ∧
      ∀ x, (p.enterWith load path s).1.2 = .ok x →
        (p'.enterWith load path s).1.1 = (p.enterWith load path s).1.1 := by
  obtain ⟨hopened, _⟩ := p.collect.opened_spec hs hpath
  have hsame : p'.collect.opened path s = p.collect.opened path s := by
    rw [halike.collect_eq, halike.eq]
    rfl
  cases ho : p.collect.opened path s with
  | mk key r =>
    obtain ⟨site, s₁⟩ := r
    rw [ho] at hopened hsame
    have hself : Alike { p.collect with symbol := some site.package }
        { p'.collect with symbol := some site.package } :=
      { halike.collect_eq.symm ▸ halike with
        eq := by rw [halike.collect_eq, halike.eq] }
    obtain ⟨hs', houtcome, hp⟩ := enterContents_of_alike hload hopened.opens hself rfl
    cases hc : Package.enterContents load site { p.collect with symbol := some site.package }
        s₁ with
    | mk r s₂ =>
      obtain ⟨q, outcome⟩ := r
      cases hc' : Package.enterContents load site { p'.collect with symbol := some site.package }
          s₁ with
      | mk r s₂' =>
        obtain ⟨q', outcome'⟩ := r
        rw [hc, hc'] at hs' houtcome hp
        cases hs'
        cases houtcome
        rw [enterWith_eq ho hc, enterWith_eq hsame hc']
        exact ⟨rfl, rfl, hp⟩

end Package

/-! ## Packages of the caller -/

namespace Session

/-- A package that was entered in some session, with success or not, is entered in another one, or
    later in the same one, as if it were new. -/
theorem Reachable.define_again {s : Session} (h : s.Reachable) (s₁ : Session) (p : Package) :
    let p' := (define p s₁).1.1
    (define p' s).2 = (define p s).2 ∧ (define p' s).1.2 = (define p s).1.2 ∧
      ∀ x, (define p s).1.2 = .ok x → (define p' s).1.1 = (define p s).1.1 :=
  Package.enterWith_of_alike (loadWithin_sound s.depthBound) h.sound nofun
    (p.alike_enterWith (loadWithin s₁.depthBound) none s₁)

/-- A package with an import, a struct and a method of it, which fails in a session without the
    package imported and is entered with success in another one, both before and now. -/
theorem define_again_twice :
    ∃ (p : Package) (s₁ s₂ s : Session), s.Reachable ∧
      (define p s₁).1.2 = .error ⟨"a", .notFound "a"⟩ ∧ (define p s₂).1.2 = .ok ⟨1⟩ ∧
      (define p s₂).1.1.structs.map (·.symbol) = [some ⟨4⟩] ∧ (define p s).1.2 = .ok ⟨9⟩ ∧
      (define (define p s₁).1.1 s).2 = (define p s).2 ∧
      (define (define p s₂).1.1 s).2 = (define p s).2 ∧
      (define (define p s₁).1.1 s).1.1 = (define p s).1.1 ∧
      (define (define p s₂).1.1 s).1.1 = (define p s).1.1 := by
  let S : Ident := ⟨"S", .origin⟩
  let receiver : VarDecl := { span := .origin, name := S, type := .ofName S }
  let p : Package :=
    { imports := [{ span := .origin, path := [⟨"a", .origin⟩] }]
      structs := [{ span := .origin, name := S, fields := [receiver] }]
      functions := [.mk { span := .origin, name := ⟨"m", .origin⟩, receiver := some receiver } []] }
  let s₂ := start {} {} (Library.insert {} "a" none {})
  have h : (s₂.after [.define p]).Reachable := (Reachable.start {} {} _).after _
  have hok : (define p (s₂.after [.define p])).1.2 = .ok ⟨9⟩ := by decide +kernel
  obtain ⟨hs₁, -, hp₁⟩ := h.define_again (start {} {} {}) p
  obtain ⟨hs₂, -, hp₂⟩ := h.define_again s₂ p
  exact ⟨p, start {} {} {}, s₂, _, h, by decide +kernel, by decide +kernel, by decide +kernel, hok,
    hs₁, hs₂, hp₁ _ hok, hp₂ _ hok⟩

end Session

end Binder
