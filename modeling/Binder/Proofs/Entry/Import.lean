import Binder.Proofs.Entry.Members
import Binder.Proofs.Session

/-!
# Entering imports

The imports of a package are loaded one after another, and each package that is loaded is offered to
the scope of the importing one under the local name of the import. Loading changes nothing that is
there, so the bindings of the importing package are those of the offers alone, and so are the
redeclarations that its imports are reported for. What the loads themselves report is kept apart.

* `Site.Opens`: a package is being entered.
* `Import.loadLog`: what the loads of imports report.
* `Import.enterAll_spec`: the imports of a package.
-/

namespace Binder

/-! ## Reports -/

namespace Store

variable {s₀ s : Store}

theorem Sound.report (hs : s.Sound) (problem : Problem) (span : Span) :
    (Store.report problem span s).2.Sound :=
  ⟨hs.linked, hs.types, hs.symbolText, hs.entryText⟩

theorem Keeps.report (h : s₀.Keeps s) (problem : Problem) (span : Span) :
    s₀.Keeps (Store.report problem span s).2 :=
  ⟨h.symbol, h.scope, h.type, h.names, h.log.trans (List.prefix_append _ _), h.arrays⟩

end Store

/-! ## Packages that are being entered -/

/-- At `site`, a package is being entered since the session `s₀`. -/
structure Site.Opens (site : Site) (s₀ s : Session) : Prop where
  start : s₀.Sound
  sound : s.Sound
  leads : s₀.Leads s
  fresh : s₀.store.table.symbol? site.package = none
  scope?_eq_none : s₀.store.table.scope? site.scope = none
  scopeOf : s.store.table.scopeOf site.package = some site.scope
  kindOf : s.store.table.kindOf site.package = some .package
  pkgOf : s.store.table.pkgOf site.package = some site.pkg
  kind : site.kind = .package
  callable : site.callable = none

namespace Site.Opens

variable {site : Site} {s₀ s s' : Session} (h : site.Opens s₀ s)
include h

theorem mono (hs : s'.Sound) (g : s.store.Grows s'.store) (h₀ : s₀.Leads s') :
    site.Opens s₀ s' where
  start := h.start
  sound := hs
  leads := h₀
  fresh := h.fresh
  scope?_eq_none := h.scope?_eq_none
  scopeOf := g.table.scopeOf h.scopeOf
  kindOf := g.table.kindOf h.kindOf
  pkgOf := g.table.pkgOf h.pkgOf
  kind := h.kind
  callable := h.callable

theorem lead (hs : s'.Sound) (hl : s.Leads s') : site.Opens s₀ s' :=
  h.mono hs hl.keeps.grows (h.leads.trans hl)

theorem exists_symbol : ∃ sym, s.store.table.symbol? site.package = some sym :=
  Table.symbol?_of_scopeOf h.scopeOf

theorem isSome_scope? : (s.store.table.scope? site.scope).isSome :=
  have ⟨_, hsc, _⟩ := h.sound.store.linked.scope?_of_scopeOf h.scopeOf
  Option.isSome_of_eq_some hsc

/-- The members of the package are entered at its top level. -/
theorem top : site.Top s₀.store.mark s.store where
  sound := h.sound.store
  fresh := Array.getElem?_eq_none_iff.1 h.fresh
  types := h.leads.keeps.grows.table.types_size_le
  scopeOf := h.scopeOf
  callable := .inl h.callable
  pkgOf := h.pkgOf
  inside := .here h.scopeOf h.kindOf
  kindOf := h.kindOf
  kind := h.kind
  callable_eq := h.callable

end Site.Opens

/-! ## One import -/

namespace Import

variable {load : Loader} {site : Site} {s₀ s : Session}

/-- The texts of the package that an import asks for. -/
def target (i : Import) : PackageKey := (i.path.map (·.text), i.version.map (·.text))

/-- The name of the package that an import asks for. -/
def targetName (i : Import) : StateM Session PackageName :=
  Session.onStore (Store.internPackage i.target.1 i.target.2)

/-- What loading the package that an import asks for comes to. -/
def loaded (load : Loader) (i : Import) (s : Session) : Except LoadError SymbolId × Session :=
  load (i.targetName s).1 (i.targetName s).2

/-- What the loads of imports report. -/
def loadLog (load : Loader) (site : Site) : List Import → Session → Log
  | [], _ => []
  | i :: rest, s =>
    (i.loaded load s).2.store.log.drop s.store.log.length ++
      loadLog load site rest (i.enter load site s).2

theorem enter_of_error {i : Import} {e : LoadError} {s₁ : Session}
    (h : i.loaded load s = (.error e, s₁)) :
    i.enter load site s =
      ((i, some ⟨(i.targetName s).1.text s₁.store.names, e⟩),
        { s₁ with store := (Store.report
            (e.problem ((i.targetName s).1.text s₁.store.names)) i.span s₁.store).2 }) := by
  unfold loaded targetName target at h
  simp only [enter, run_bind, h]
  rfl

theorem enter_of_ok {i : Import} {x : SymbolId} {s₁ : Session}
    (h : i.loaded load s = (.ok x, s₁)) :
    i.enter load site s =
      (({ i with symbol := some x }, none),
        { s₁ with store := (Store.define i.span site.scope (Store.intern i.localName s₁.store).1 x
            (Store.intern i.localName s₁.store).2).2 }) := by
  unfold loaded targetName target at h
  simp only [enter, run_bind, h]
  rfl

/-- What loading comes to is all that matters of a loader. -/
theorem enter_congr {load' : Loader} {i : Import} (h : i.loaded load s = i.loaded load' s) :
    i.enter load site s = i.enter load' site s := by
  cases hi : i.loaded load' s with
  | mk answer s₁ =>
    cases answer with
    | error e => rw [enter_of_error hi, enter_of_error (h.trans hi)]
    | ok x => rw [enter_of_ok hi, enter_of_ok (h.trans hi)]

/-- An import is loaded in a session that comes later, and if it is had it is a package. -/
theorem loaded_spec (hload : load.Sound) (i : Import) (hs : s.Sound) :
    (i.loaded load s).2.Sound ∧ s.Leads (i.loaded load s).2 ∧
      ∀ x, (i.loaded load s).1 = .ok x →
        (i.loaded load s).2.store.table.kindOf x = some .package := by
  obtain ⟨hs₁, hl₁, hknown⟩ := hs.internPackage i.target.1 i.target.2
  obtain ⟨hs₂, hl₂, hx⟩ := hload _ _ hs₁ hknown
  exact ⟨hs₂, hl₁.trans hl₂, hx⟩

/-- What entering an import that is had comes to: a later session, in which the package is offered
    to the scope of the importing one. -/
theorem enter_spec_of_ok (hload : load.Sound) {i : Import} (h : site.Opens s₀ s) {x : SymbolId}
    {s₁ : Session} (hi : i.loaded load s = (.ok x, s₁)) :
    site.Opens s₀ (i.enter load site s).2 ∧ s₁.store.Grows (i.enter load site s).2.store ∧
      (i.enter load site s).2.store.table.kindOf x = some .package ∧
      s₁.store.Effect [{ i with symbol := some x }.offer (some site.package)]
        (i.enter load site s).2.store := by
  obtain ⟨hs₁, hl₁, hx⟩ := i.loaded_spec hload h.sound
  rw [hi] at hs₁ hl₁ hx
  have h₁ := h.lead hs₁ hl₁
  have hintern : Store.Run s₀.store.mark s₁.store [] (Store.intern i.localName s₁.store).2 :=
    .intern _ _
  obtain ⟨hs₂, hl₂⟩ := hs₁.run h.start h₁.leads hintern
  have hg := hintern.grows hs₁.store
  have h₂ := h₁.mono hs₂ hg hl₂
  have hname : (Store.intern i.localName s₁.store).2.names.text?
      (Store.intern i.localName s₁.store).1 = some i.localName := s₁.store.names.text?_intern _
  have heffect := (hintern.follows hs₁.store).effect
  rw [enter_of_ok hi]
  generalize Store.intern i.localName s₁.store = r at *
  obtain ⟨name, st⟩ := r
  have hkind := hg.table.kindOf (hx x rfl)
  obtain ⟨sym, hsym, hk⟩ := Option.map_eq_some_iff.1 hkind
  let o := { i with symbol := some x }.offer (some site.package)
  have hoffering : st.Offering o site.scope name x :=
    ⟨⟨site.package, rfl, h₂.scopeOf⟩, hname, rfl, hkind⟩
  -- The scope is that of a package, so it can have packages.
  obtain ⟨hs₃, g₃⟩ := hs₂.store.define i.span site.scope name hsym (by rw [hname]; rfl)
    fun o ho => by
      cases (hs₂.store.linked.ownerOf_of_scopeOf h₂.scopeOf).symm.trans ho
      exact ⟨sym, hsym, fun _ => h₂.kindOf, fun hnp => absurd hk hnp⟩
  have hkeeps : s₀.store.Keeps (Store.define i.span site.scope name x st).2 :=
    hl₂.keeps.define h.scope?_eq_none hsym
  have hs₄ := hs₂.withStore hs₃ g₃ fun y ysym hy => by
    rw [Store.define_eq hsym] at hy
    exact hs₂.typed y ysym hy
  exact ⟨h₂.mono hs₄ g₃ ⟨hkeeps, hl₂.config, hl₂.library⟩, hg.trans g₃, g₃.table.kindOf hkind,
    heffect.trans (hoffering.effect hs₂.store)⟩

/-- What entering an import that is not had comes to. -/
theorem enter_spec_of_error (hload : load.Sound) {i : Import} (h : site.Opens s₀ s) {e : LoadError}
    {s₁ : Session} (hi : i.loaded load s = (.error e, s₁)) :
    site.Opens s₀ (i.enter load site s).2 ∧ s.Leads (i.enter load site s).2 := by
  obtain ⟨hs₁, hl₁, _⟩ := i.loaded_spec hload h.sound
  rw [hi] at hs₁ hl₁
  rw [enter_of_error hi]
  let problem := e.problem ((i.targetName s).1.text s₁.store.names)
  have hkeeps := hl₁.keeps.report problem i.span
  have hs₂ := hs₁.withStore (hs₁.store.report problem i.span)
    ((Store.Keeps.refl _).report problem i.span).grows hs₁.typed
  exact ⟨h.lead hs₂ ⟨hkeeps, hl₁.config, hl₁.library⟩, hkeeps, hl₁.config, hl₁.library⟩

/-- Once it is loaded what an import asks for, the store only grows. -/
theorem grows_enter (hload : load.Sound) (i : Import) (h : site.Opens s₀ s) :
    (i.loaded load s).2.store.Grows (i.enter load site s).2.store := by
  cases hi : i.loaded load s with
  | mk outcome s₁ =>
    cases outcome with
    | error e =>
      rw [enter_of_error hi]
      exact ((Store.Keeps.refl s₁.store).report _ _).grows
    | ok x =>
      obtain ⟨_, g, _⟩ := enter_spec_of_ok hload h hi
      exact g

/-- Whether it is had or not, entering an import leads on. -/
theorem enter_opens (hload : load.Sound) (i : Import) (h : site.Opens s₀ s) :
    site.Opens s₀ (i.enter load site s).2 ∧ s.store.Grows (i.enter load site s).2.store := by
  obtain ⟨_, hl, _⟩ := i.loaded_spec hload h.sound
  refine ⟨?_, hl.keeps.grows.trans (i.grows_enter hload h)⟩
  cases hi : i.loaded load s with
  | mk outcome s₁ =>
    cases outcome with
    | error e => exact (enter_spec_of_error hload h hi).1
    | ok x => exact (enter_spec_of_ok hload h hi).1

/-! ## All imports -/

theorem enterAll_opens (hload : load.Sound) (imports : List Import) (h : site.Opens s₀ s) :
    site.Opens s₀ (enterAll load site imports s).2 ∧
      s.store.Grows (enterAll load site imports s).2.store := by
  induction imports generalizing s with
  | nil => exact ⟨h, .refl _⟩
  | cons i rest ih =>
    obtain ⟨h₂, g₂⟩ := enter_opens hload i h
    obtain ⟨h₃, g₃⟩ := ih h₂
    rw [enterAll_cons]
    exact ⟨h₃, g₂.trans g₃⟩

/-- The offers of imports to the scope of `c`. -/
def offers (c : SymbolId) (imports : List Import) : List Offer := imports.map (·.offer (some c))

theorem place_of_mem_offers {c : SymbolId} {imports : List Import} {o : Offer}
    (h : o ∈ offers c imports) : o.place = (some c, o.text) := by
  obtain ⟨i, _, rfl⟩ := List.mem_map.1 h
  rfl

theorem container_of_mem_offers {c : SymbolId} {imports : List Import} {o : Offer}
    (h : o ∈ offers c imports) : o.container = some c := congrArg Prod.fst (place_of_mem_offers h)

/-- What the imports of a package come to, if all of them are had. -/
structure AllEntered (load : Loader) (c : SymbolId) (s : Session) (loads : Log)
    (imports : List Import) (s' : Session) : Prop where
  symbol : ∀ i ∈ imports, ∃ x, i.symbol = some x ∧ s'.store.table.kindOf x = some .package
  bindings : s'.store.bindings c = s.store.bindings c ++
    (firsts Offer.place s.store.taken (offers c imports)).map Offer.binding
  redeclarations : s'.store.redeclarations.Perm (s.store.redeclarations ++ loads.redeclarations ++
    (repeats Offer.place s.store.taken (offers c imports)).map Offer.complaint)

/-- One import is had, and then the others are. -/
theorem AllEntered.cons {c x : SymbolId} {i : Import} {imports : List Import} {loads : Log}
    {s₁ s₂ s' : Session} (hl : s.Leads s₁) (hs : s.Sound)
    (hc : ∃ sym, s.store.table.symbol? c = some sym) (hx : s₂.store.table.kindOf x = some .package)
    (g : s₂.store.Grows s'.store)
    (he : s₁.store.Effect [{ i with symbol := some x }.offer (some c)] s₂.store)
    (h : AllEntered load c s₂ loads imports s') :
    AllEntered load c s (s₁.store.log.drop s.store.log.length ++ loads)
      ({ i with symbol := some x } :: imports) s' := by
  obtain ⟨sym, hc⟩ := hc
  let o := { i with symbol := some x }.offer (some c)
  have hbindings := hl.keeps.bindings_eq hs.store hc
  -- Loading takes no place in the scope of the package.
  have htaken : ∀ text, s₁.store.taken (some c, text) = s.store.taken (some c, text) := fun text => by
    simp only [Store.taken, Option.any_some, Store.binds, hbindings]
  let taken : Option SymbolId × String → Bool := fun k =>
    ([o].map Offer.place).contains k || s.store.taken k
  have htaken₂ : ∀ o' ∈ offers c imports, s₂.store.taken o'.place = taken o'.place :=
    fun o' ho' => by rw [he.taken, place_of_mem_offers ho', htaken]
  have hfirsts : firsts Offer.place s₂.store.taken (offers c imports) =
      firsts Offer.place taken (offers c imports) := firsts_congr htaken₂
  have hrepeats : repeats Offer.place s₂.store.taken (offers c imports) =
      repeats Offer.place taken (offers c imports) := repeats_congr htaken₂
  have hfirst : firsts Offer.place s₁.store.taken [o] = firsts Offer.place s.store.taken [o] :=
    firsts_congr fun o' ho' => by rw [List.mem_singleton.1 ho']; exact htaken _
  have hrepeat : repeats Offer.place s₁.store.taken [o] = repeats Offer.place s.store.taken [o] :=
    repeats_congr fun o' ho' => by rw [List.mem_singleton.1 ho']; exact htaken _
  have hoffers : offers c ({ i with symbol := some x } :: imports) = [o] ++ offers c imports := rfl
  refine ⟨fun j hj => ?_, ?_, ?_⟩
  · rcases List.mem_cons.1 hj with rfl | hj
    · exact ⟨x, rfl, g.table.kindOf hx⟩
    · exact h.symbol j hj
  · have hfilter : (firsts Offer.place s.store.taken [o]).filter (·.container == some c) =
        firsts Offer.place s.store.taken [o] := List.filter_eq_self.2 fun o' ho' => by
      rw [List.mem_singleton.1 (mem_of_mem_firsts ho')]
      exact beq_self_eq_true _
    rw [h.bindings, he.bindings, hbindings, hfirst, hfilter, hfirsts, hoffers,
      firsts_append, List.map_append, List.append_assoc]
  · obtain ⟨log, hlog⟩ := hl.keeps.log
    refine h.redeclarations.trans ?_
    rw [he.redeclarations, hrepeat, hrepeats, hoffers, repeats_append, List.map_append,
      Store.redeclarations, ← hlog, List.drop_left, Log.redeclarations_append,
      Log.redeclarations_append, Store.redeclarations]
    simp only [List.append_assoc]
    refine List.Perm.append_left _ (List.Perm.append_left _ ?_)
    rw [← List.append_assoc, ← List.append_assoc]
    exact List.perm_append_comm.append_right _

theorem enterAll_spec (hload : load.Sound) (imports : List Import) (h : site.Opens s₀ s)
    (hok : (enterAll load site imports s).1.2 = none) :
    AllEntered load site.package s (loadLog load site imports s) (enterAll load site imports s).1.1
      (enterAll load site imports s).2 := by
  induction imports generalizing s with
  | nil =>
    refine ⟨fun i hi => absurd hi List.not_mem_nil, (List.append_nil _).symm, ?_⟩
    exact List.Perm.of_eq ((List.append_nil _).symm.trans (List.append_nil _).symm)
  | cons i rest ih =>
    simp only [enterAll_cons, Option.or_eq_none_iff] at hok ⊢
    cases hi : i.loaded load s with
    | mk outcome s₁ =>
      cases outcome with
      | error e =>
        rw [enter_of_error hi] at hok
        exact absurd hok.1 nofun
      | ok x =>
        obtain ⟨h₂, _, hx, he⟩ := enter_spec_of_ok hload h hi
        obtain ⟨_, hl, _⟩ := i.loaded_spec hload h.sound
        obtain ⟨_, g⟩ := enterAll_opens hload rest h₂
        have hentered : (i.enter load site s).1.1 = { i with symbol := some x } := by
          rw [enter_of_ok hi]
        rw [hi] at hl
        rw [loadLog, hi, hentered]
        exact (ih h₂ hok.2).cons hl h.sound h.exists_symbol hx g he

end Import

end Binder
