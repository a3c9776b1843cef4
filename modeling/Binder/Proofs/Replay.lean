import Binder.Proofs.BoundTexts
import Binder.Proofs.Copies
import Binder.Proofs.Initializers
import Binder.Proofs.Portions

/-!
# Initializers replay their containers

The package, each connector and each service end up with an initializer, which defines the variables
of its container one by one and returns. The initializer of the package is made last, and defines the
module variables of all source units as they are when they have been entered. Those of connectors and
services define copies, because the variables of connectors and services are not entered at all.

* `Callable.Initializes`: what an initializer does, and where its symbol is.
* `Package.ReplayedIn`: the initializers of a package replay the variables of their containers.
* `Package.Entered.exists_offer_of_owner`: what a struct, connector or service owns is offered to it.
* `Session.Enters.replayed`: the packages that are entered with success.
-/

namespace Binder

/-- `f` makes the definitions `defs` one by one and returns; it stands at `span`, and its symbol is a
    function of the package `x`. -/
structure Callable.Initializes (s : Store) (x : SymbolId) (span : Span) (defs : List VarDef)
    (f : Callable) : Prop where
  body : f.head.body = some ⟨span, defs.map .define ++ [.ret span []]⟩
  receiver : f.head.receiver = none
  returns : f.head.returns = []
  workers : f.workers = []
  symbol : ∃ y sym, f.head.symbol = some y ∧ s.table.symbol? y = some sym ∧
    sym.kind = .function ∧ sym.owner = some x ∧ sym.span = span

namespace Package

/-- The initializers of the package, whose symbol is `x`, replay the variables of their containers.
    The variables of connectors and services have no symbols. -/
structure ReplayedIn (s : Store) (x : SymbolId) (p : Package) : Prop where
  package : ∃ f, p.initializer = some f ∧ f.head.params = [] ∧
    f.Initializes s x p.span (p.vars.map fun v => ⟨v.span, v⟩)
  connector : ∀ d ∈ p.connectors, ∃ f copies, d.initializer = some f ∧
    f.Initializes s x d.span copies ∧ List.Forall₂ VarDef.AnewAs d.vars copies
  service : ∀ d ∈ p.services, ∃ f copies, d.initializer = some f ∧ f.head.params = [] ∧
    f.Initializes s x d.span copies ∧ List.Forall₂ VarDef.AnewAs d.vars copies
  connectorVar : ∀ d ∈ p.connectors, ∀ y sym, s.table.symbol? y = some sym →
    sym.owner = d.symbol → sym.kind ≠ .var
  serviceVar : ∀ d ∈ p.services, ∀ y sym, s.table.symbol? y = some sym →
    sym.owner = d.symbol → sym.kind ≠ .var

/-- The initializers are offered to the scope of the package. -/
theorem initializerOffer_mem_scopeOffers {p : Package} (c : SymbolId) {f : Callable}
    (hf : f ∈ p.memberInitializers ++ p.initializer.toList) :
    f.functionOffer (some c) ∈ p.scopeOffers c := by
  simp only [memberInitializers, List.mem_append, List.mem_flatMap] at hf
  rcases hf with (⟨d, hd, hf⟩ | ⟨d, hd, hf⟩) | hf
  · exact connectorInitializer_mem_scopeOffers c hd hf
  · exact serviceInitializer_mem_scopeOffers c hd hf
  · exact initializer_mem_scopeOffers c hf

end Package

/-! ## What is written in an initializer -/

namespace Callable

/-- What is made for the container and entered has kept its body, and nothing was added to it. -/
theorem eq_of_bare_initializer {f : Callable} {span : Span} {name : String}
    {params : List VarDecl} {defs : List VarDef}
    (h : f.bare = (initializer span name params defs).bare) :
    f.head.span = span ∧ f.head.params.map (·.bare) = params.map (·.bare) ∧
      f.head.body = some (.defining span defs) ∧ f.head.receiver = none ∧ f.head.returns = [] ∧
      f.workers = [] := by
  obtain ⟨head, workers⟩ := f
  obtain ⟨hhead, hworkers⟩ := Callable.mk.inj h
  refine ⟨congrArg CallableHead.span hhead, congrArg CallableHead.params hhead,
    congrArg CallableHead.body hhead, Option.map_eq_none_iff.1 (congrArg CallableHead.receiver hhead),
    List.map_eq_nil_iff.1 (congrArg CallableHead.returns hhead), ?_⟩
  cases workers with
  | nil => rfl
  | cons => cases hworkers

end Callable

/-! ## Packages that are entered -/

namespace Package.Entered

variable {load : Loader} {site : Site} {s₀ s s₁ s' : Session} {imports : List Import} {p : Package}
  (h : Entered load site s₀ s s₁ imports p s')
include h

/-- What is made for a container and entered as a member of the package. -/
theorem initializes {f : Callable} (hf : f ∈ p.memberInitializers ++ p.initializer.toList)
    {span : Span} {name : String} {params : List VarDecl} {defs : List VarDef}
    (hbare : f.bare = (Callable.initializer span name params defs).bare) :
    f.Initializes s'.store site.package span defs := by
  obtain ⟨hspan, _, hbody, hreceiver, hreturns, hworkers⟩ := Callable.eq_of_bare_initializer hbare
  have hmem := initializerOffer_mem_scopeOffers site.package hf
  have hkind : f.functionKind = .function := by rw [Callable.functionKind, hreceiver]; rfl
  have hmember := mem_memberOffers (mem_offers_iff.2 (.inl hmem))
    (SymbolKind.of_isCallable f.isCallable_functionKind).1
  obtain ⟨y, sym, hy, hsym, hk, howner, _, hs, _⟩ := h.follows.has _ hmember
  exact ⟨hbody, hreceiver, hreturns, hworkers, y, sym, hy, hsym, hk.trans hkind, howner,
    hs.trans hspan⟩

/-- What a struct, connector or service owns has been offered to it. -/
theorem exists_offer_of_owner {e : Option SymbolId × List Offer} (he : e ∈ p.containers)
    {y : SymbolId} {sym : Symbol} (hy : s'.store.table.symbol? y = some sym)
    (howner : sym.owner = e.1) : ∃ o ∈ e.2, sym.kind = o.kind := by
  have hs := h.opens.sound.store
  obtain ⟨z, _, hz, _⟩ := h.placed.kindOf_container he
  obtain ⟨o, ho, hsymbol⟩ := List.mem_map.1 (map_containers site.package p ▸ List.mem_map_of_mem he)
  have hfresh := (h.members.fresh hs).2 o ((typeOffers_sublist site.package p).subset ho) z
    (hsymbol.trans hz)
  -- The container is new, and so is what it owns.
  have hnew : s₁.store.table.symbol? y = none := by
    by_contra hold
    obtain ⟨sym', hsym'⟩ := Option.ne_none_iff_exists'.1 hold
    cases (h.members.retains.symbol hsym').symm.trans hy
    have hlinked := hs.linked.symbol y sym hsym'
    by_cases hroot : y = Table.root
    · cases (howner.trans hz).symm.trans (hlinked.atRoot hroot).2
    · obtain ⟨o, k, ho, _, hk, _⟩ := hlinked.owner hroot
      cases ho.symm.trans (howner.trans hz)
      obtain ⟨_, hzsym, _⟩ := Option.map_eq_some_iff.1 hk
      cases hfresh.symm.trans hzsym
  obtain ⟨o, ho, hsymbol⟩ := h.members.mem_of_made hnew (hy ▸ rfl)
  obtain ⟨y', sym', hy', hsym', hkind, hcontainer, _⟩ := h.follows.has o ho
  cases hsymbol.symm.trans hy'
  cases hsym'.symm.trans hy
  refine ⟨o, ?_, hkind⟩
  rw [← h.placed.filter_container he]
  exact List.mem_filter.2 ⟨List.mem_append_right _ ho, beq_iff_eq.2 (hcontainer.symm.trans howner)⟩

/-- The initializers replay the variables of their containers. -/
theorem replayedIn {config : Config} {title : String} (hinit : p.Initialized config title)
    {f : Callable} (hf : p.initializer = some f)
    (hbare : f.bare = (makeInitializer title p.span p.vars config).bare) :
    p.ReplayedIn s'.store site.package where
  package := by
    obtain ⟨_, hparams, _⟩ := Callable.eq_of_bare_initializer hbare
    refine ⟨f, hf, List.map_eq_nil_iff.1 hparams, h.initializes ?_ hbare⟩
    exact List.mem_append_right _ (Option.mem_toList.2 hf)
  connector d hd := by
    obtain ⟨f, hf, hbare⟩ := hinit.connector d hd
    have hmem : f ∈ p.connectors.flatMap (·.initializer.toList) :=
      List.mem_flatMap.2 ⟨d, hd, Option.mem_toList.2 hf⟩
    refine ⟨f, d.vars.map VarDef.fresh, hf, h.initializes ?_ hbare, ?_⟩
    · exact List.mem_append_left _ (List.mem_append_left _ hmem)
    · exact (Callable.replays_initializer d.span (config.initName d.name.text) [] d.vars).copies
  service d hd := by
    obtain ⟨f, hf, hbare⟩ := hinit.service d hd
    obtain ⟨_, hparams, _⟩ := Callable.eq_of_bare_initializer hbare
    have hmem : f ∈ p.services.flatMap (·.initializer.toList) :=
      List.mem_flatMap.2 ⟨d, hd, Option.mem_toList.2 hf⟩
    refine ⟨f, d.vars.map VarDef.fresh, hf, List.map_eq_nil_iff.1 hparams, h.initializes ?_ hbare, ?_⟩
    · exact List.mem_append_left _ (List.mem_append_right _ hmem)
    · exact (Callable.replays_initializer d.span (config.initName d.name.text) [] d.vars).copies
  connectorVar d hd y sym hy howner := by
    have hmem : (d.symbol, d.scopeOffers) ∈ p.containers := by
      simp only [containers, List.mem_append]
      exact .inl (.inr (List.mem_map_of_mem hd))
    obtain ⟨o, ho, hkind⟩ := h.exists_offer_of_owner hmem hy howner
    obtain ⟨_, _, rfl⟩ := List.mem_map.1 ho
    rw [hkind]
    exact (by decide : SymbolKind.action ≠ .var)
  serviceVar d hd y sym hy howner := by
    have hmem : (d.symbol, d.scopeOffers) ∈ p.containers := by
      simp only [containers, List.mem_append]
      exact .inr (List.mem_map_of_mem hd)
    obtain ⟨o, ho, hkind⟩ := h.exists_offer_of_owner hmem hy howner
    obtain ⟨_, _, rfl⟩ := List.mem_map.1 ho
    rw [hkind]
    exact (by decide : SymbolKind.resource ≠ .var)

end Package.Entered

namespace Session

variable {s s' : Session} {path : Option PackageName} {p p' : Package} {depth : Nat} {x : SymbolId}

/-- If a package is entered with success, its initializers replay the variables of their containers.
    The module variables are those of all source units, and those of connectors and services are left
    as they are written. -/
theorem Enters.replayed (h : Enters depth path p s)
    (hp : p.enterWith (loadWithin depth) path s = ((p', .ok x), s')) :
    p'.ReplayedIn s'.store x ∧
      p'.vars.map (·.unbound) = (p.vars ++ p.pending.filterMap (·.var?)).map (·.unbound) ∧
      p'.connectors.map (·.vars) = p.collect.connectors.map (·.vars) ∧
      p'.services.map (·.vars) = p.collect.services.map (·.vars) := by
  obtain ⟨hs, hpath⟩ := h.sound
  obtain ⟨_, hok⟩ := Package.enterWith_spec (loadWithin_sound depth) p hs hpath
  have hunbound := p.unbound_enterWith (loadWithin_sound depth) hs hpath (x := x) (by rw [hp])
  have hbare := p.bare_enterWith (loadWithin depth) path s
  rw [hp] at hok hunbound hbare
  dsimp only at hunbound
  obtain ⟨rfl, s₁, hentered⟩ := hok x rfl
  have hspan : p'.span = p.collect.span := (congrArg Package.span hbare :)
  have hconnectors := congrArg (fun q => q.connectors.map (·.vars)) hbare
  have hservices := congrArg (fun q => q.services.map (·.vars)) hbare
  obtain ⟨f, hf, hf'⟩ := Option.map_eq_some_iff.1 (congrArg Package.initializer hunbound)
  refine ⟨hentered.replayedIn (.of_unbound hunbound) hf ?_, ?_, ?_, ?_⟩
  · rw [← f.bare_unbound, hf', Callable.bare_unbound, hspan]
  · rw [← p.vars_collect]
    exact congrArg Package.vars hunbound
  · simpa only [Package.bare, List.map_map, Function.comp_def, Connector.bare] using hconnectors
  · simpa only [Package.bare, List.map_map, Function.comp_def, Service.bare] using hservices

/-- A connector, a service and module variables in two units, one declared twice and one without a
    name. -/
theorem replayed_in_two_units :
    let a : VarDecl := { span := .origin, name := ⟨"a", .origin⟩, type := .primitive .int .origin none }
    let b : Connector := { span := .origin, name := ⟨"B", .origin⟩, vars := [.ofVar a] }
    let c : Service := { span := .origin, name := ⟨"C", .origin⟩, vars := [.ofVar a] }
    let p : Package :=
      { units := [⟨0, "x", [.var a, .connector b]⟩,
          ⟨1, "y", [.service c, .var a, .var { a with name := ⟨"", .origin⟩ }]⟩] }
    let s := start {} {} {}
    let r := p.enterWith (loadWithin s.depthBound) none s
    Enters s.depthBound none p s ∧ r.1.2 = .ok ⟨1⟩ ∧ r.1.1.ReplayedIn r.2.store ⟨1⟩ ∧
      r.1.1.vars.map (·.name.text) = ["a", "a", ""] := by
  intro a b c p s r
  have h : Enters s.depthBound none p s := .define p (.start {} {} {})
  have hok : r.1.2 = .ok ⟨1⟩ := by decide +kernel
  have hp : r = ((r.1.1, .ok ⟨1⟩), r.2) := eq_of_outcome hok
  exact ⟨h, hok, (h.replayed hp).1, by decide +kernel⟩

end Session

end Binder
