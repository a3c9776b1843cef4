import Binder.Proofs.Entry.Settle
import Binder.Proofs.Headings

/-!
# What is in the scopes of a package

When a package is entered with success, its scope and those of its structs, connectors and services
hold the first declarations of their names, in the order in which the kinds of declarations come.
Each later declaration of a name is reported once, where it stands, and nothing else is reported as
declared twice.

* `Package.scopes`: the scopes of a package, with what is offered to them.
* `Package.Filled`: what is in the scopes, and what is reported.
* `Package.filled_enterWith`: a package that a sound loader enters with success.
* `Session.Enters.filled`: every package that is entered with success has its scopes filled.
-/

namespace Binder

/-! ## Offers and what is taken -/

namespace Store

variable {s : Store} {c : SymbolId}

/-- Nothing is taken in a scope without bindings. -/
theorem taken_of_bindings_eq_nil (h : s.bindings c = []) (text : String) :
    s.taken (some c, text) = false := by
  rw [taken, Option.any_some, binds, h]
  rfl

/-- A symbol that is not there yet has no bindings. -/
theorem bindings_of_symbol?_eq_none (h : s.table.symbol? c = none) : s.bindings c = [] := by
  rw [bindings, entries_eq_nil]
  · rfl
  · rw [Table.scopeOf, h, Option.bind_none]

end Store

/-- The places that the imports of a package take. -/
theorem Import.AllEntered.taken {load : Loader} {c : SymbolId} {s s' : Session} {loads : Log}
    {imports : List Import} (h : AllEntered load c s loads imports s')
    (hempty : s.store.bindings c = []) (text : String) :
    s'.store.taken (some c, text) = ((offers c imports).map Offer.place).contains (some c, text) := by
  have hkeys := @mem_keys_firsts_or _ _ _ Offer.place s.store.taken (offers c imports) _
    (some c, text)
  rw [Store.taken_of_bindings_eq_nil hempty] at hkeys
  simp only [Bool.false_eq_true, or_false] at hkeys
  rw [Bool.eq_iff_iff, List.contains_iff_mem, ← hkeys, Store.taken, Option.any_some, Store.binds,
    List.contains_iff_mem, h.bindings, hempty, List.nil_append, List.map_map, List.mem_map,
    List.mem_map]
  constructor
  · rintro ⟨o, ho, rfl⟩
    exact ⟨o, ho, place_of_mem_offers (mem_of_mem_firsts ho)⟩
  · rintro ⟨o, ho, hplace⟩
    exact ⟨o, ho, congrArg Prod.snd hplace⟩

namespace Package

/-- The scopes of a package with the symbol `c` and of its structs, connectors and services, by
    their symbols, each with what is offered to it. -/
def scopes (c : SymbolId) (p : Package) : List (Option SymbolId × List Offer) :=
  (some c, p.scopeOffers c) :: p.containers

theorem mem_offers_of_mem_scopes {c : SymbolId} {p : Package} {e : Option SymbolId × List Offer}
    (he : e ∈ p.scopes c) {o : Offer} (ho : o ∈ e.2) : o ∈ p.offers c := by
  rcases List.mem_cons.1 he with rfl | he
  · exact mem_offers_iff.2 (.inl ho)
  · exact mem_offers_iff.2 (.inr (.inl ⟨e, he, ho⟩))

namespace Entered

variable {load : Loader} {site : Site} {s₀ s s₁ s' : Session} {imports : List Import} {p : Package}
  (h : Entered load site s₀ s s₁ imports p s')
include h

theorem follows : s₁.store.Follows (p.memberOffers (some site.package)) s'.store :=
  h.members.follows h.opens.sound.store

/-- The symbols of the members are new, and they are of the kinds that are offered. -/
theorem placed : p.Placed s'.store.table.kindOf site.package where
  package := h.follows.grows.table.kindOf h.opens.kindOf
  symbol o ho := (h.follows.has o ho).kindOf
  nodup := (h.members.fresh h.opens.sound.store).1

/-- What is offered to the scope of the package has its symbol, which is of the kind that is
    offered. -/
theorem kindOf_of_mem_scopeOffers {o : Offer} (ho : o ∈ p.scopeOffers site.package) :
    ∃ x, o.symbol = some x ∧ s'.store.table.kindOf x = some o.kind := by
  have hmem : o ∈ p.offers site.package := mem_offers_iff.2 (.inl ho)
  rcases List.mem_append.1 hmem with himport | hmember
  · obtain ⟨i, hi, rfl⟩ := List.mem_map.1 himport
    obtain ⟨x, hx, hk⟩ := h.imports.symbol i hi
    exact ⟨x, hx, h.follows.grows.table.kindOf hk⟩
  · exact (h.follows.has o hmember).kindOf

/-- What is offered to another scope than that of the package goes to that of a new symbol. -/
theorem symbol?_container {o : Offer} (ho : o ∈ p.offers site.package) :
    o.container = some site.package ∨
      ∃ x, o.container = some x ∧ s₁.store.table.symbol? x = none := by
  have hnew : ∀ o' ∈ p.memberOffers (some site.package), o.container = o'.symbol →
      ∃ x, o.container = some x ∧ s₁.store.table.symbol? x = none := fun o' ho' hc => by
    obtain ⟨x, hx, _⟩ := h.placed.symbol o' ho'
    exact ⟨x, hc.trans hx, (h.members.fresh h.opens.sound.store).2 o' ho' x hx⟩
  rcases mem_offers_iff.1 ho with ho | ⟨e, he, ho⟩ | ho
  · exact .inl (container_of_mem_scopeOffers ho)
  · have hmem := List.mem_map_of_mem (f := (·.1)) he
    rw [map_containers site.package] at hmem
    obtain ⟨o', ho', hsymbol⟩ := List.mem_map.1 hmem
    refine .inr (hnew o' ((typeOffers_sublist _ p).subset ho') ?_)
    exact (container_of_mem_containers he ho).trans hsymbol.symm
  · obtain ⟨o', ho', hk, hc⟩ := container_of_mem_innerOffers site.package ho
    exact .inr (hnew o' (mem_memberOffers ho' (SymbolKind.of_isCallable hk).1) hc)

/-- When the members are entered, just the places of the imports are taken. -/
theorem taken (hempty : s.store.bindings site.package = []) {o : Offer}
    (ho : o ∈ p.offers site.package) : s₁.store.taken o.place =
      ((Import.offers site.package p.imports).map Offer.place).contains o.place := by
  rcases h.symbol?_container ho with hc | ⟨x, hx, hnone⟩
  · rw [Offer.place, hc]
    exact h.imports.taken hempty o.text
  · rw [Offer.place, hx, Store.taken_of_bindings_eq_nil (Store.bindings_of_symbol?_eq_none hnone),
      eq_comm, ← Bool.not_eq_true, List.contains_iff_mem]
    intro hmem
    obtain ⟨o', ho', hplace⟩ := List.mem_map.1 hmem
    rw [Import.place_of_mem_offers ho'] at hplace
    obtain ⟨sym, hsym⟩ := h.opens.exists_symbol
    cases congrArg Prod.fst hplace
    exact absurd (hsym.symm.trans hnone) (Option.some_ne_none sym)

section

variable (hempty : s.store.bindings site.package = [])
include hempty

/-- The first offers and the repeated ones, whether of imports or of members. -/
theorem occurrences_offers : firsts Offer.place (fun _ => false) (p.offers site.package) =
      firsts Offer.place s.store.taken (Import.offers site.package p.imports) ++
        firsts Offer.place s₁.store.taken (p.memberOffers (some site.package)) ∧
    repeats Offer.place (fun _ => false) (p.offers site.package) =
      repeats Offer.place s.store.taken (Import.offers site.package p.imports) ++
        repeats Offer.place s₁.store.taken (p.memberOffers (some site.package)) := by
  let free : Option SymbolId × String → Bool := fun _ => false
  let after : Option SymbolId × String → Bool := fun k =>
    ((Import.offers site.package p.imports).map Offer.place).contains k || free k
  have himports : ∀ o ∈ Import.offers site.package p.imports,
      s.store.taken o.place = free o.place := fun o ho => by
    rw [Import.place_of_mem_offers ho]
    exact Store.taken_of_bindings_eq_nil hempty o.text
  have hmembers : ∀ o ∈ p.memberOffers (some site.package),
      s₁.store.taken o.place = after o.place := fun o ho =>
    (h.taken hempty (List.mem_append_right _ ho)).trans (Bool.or_false _).symm
  rw [firsts_congr himports, firsts_congr hmembers, repeats_congr himports, repeats_congr hmembers]
  exact ⟨firsts_append _ _, repeats_append _ _⟩

/-- What is bound in the scope of the package, or in one that is made with it. -/
theorem bindings_eq {c : SymbolId}
    (hc : c = site.package ∨ s₁.store.table.symbol? c = none) : s'.store.bindings c =
      (firsts Offer.place (fun _ => false) ((p.offers site.package).filter (·.container == some c))).map
        Offer.binding := by
  rw [← Offer.filter_firsts_place (· == some c), (h.occurrences_offers hempty).1,
    List.filter_append, List.map_append, h.follows.effect.bindings c]
  refine congrArg (· ++ _) ?_
  rcases hc with rfl | hc
  · rw [h.imports.bindings, hempty, List.nil_append]
    refine congrArg _ (List.filter_eq_self.2 fun o ho => ?_).symm
    rw [Import.container_of_mem_offers (mem_of_mem_firsts ho)]
    exact beq_self_eq_true _
  · rw [Store.bindings_of_symbol?_eq_none hc, eq_comm, List.map_eq_nil_iff, List.filter_eq_nil_iff]
    intro o ho heq
    rw [Import.container_of_mem_offers (mem_of_mem_firsts ho)] at heq
    obtain ⟨sym, hsym⟩ := h.opens.exists_symbol
    cases beq_iff_eq.1 heq
    exact absurd (hsym.symm.trans hc) (Option.some_ne_none sym)

/-- What is reported as redeclared. -/
theorem redeclarations_perm : s'.store.redeclarations.Perm (s.store.redeclarations ++
    (Import.loadLog load site imports s).redeclarations ++
    (repeats Offer.place (fun _ => false) (p.offers site.package)).map Offer.complaint) := by
  rw [h.follows.effect.redeclarations, (h.occurrences_offers hempty).2, List.map_append,
    ← List.append_assoc]
  exact h.imports.redeclarations.append_right _

end

end Entered

/-- The package `p`, which is called `title`, has the symbol `c` and is declared as `q`, has filled
    its scopes with what it declares. Before anything of its own is reported as redeclared, `before`
    is. -/
structure Filled (p : Package) (config : Config) (title : String) (q : Package) (c : SymbolId)
    (before : List (Span × String)) (s : Session) : Prop where
  /-- What is offered to the scope of the package is what is declared in it. -/
  headings : (p.scopeOffers c).map Offer.heading = q.headings config title
  /-- What is offered to the scopes of containers is what is declared in them. -/
  containerHeadings : (p.containers.map fun e => e.2.map Offer.heading) = q.containerHeadings
  /-- An import has the symbol of the package it asks for, which is loaded. -/
  imports : ∀ i ∈ p.imports, ∃ x, i.symbol = some x ∧ s.stateOf i.target = some (.loaded x) ∧
    s.store.table.kindOf x = some .package
  /-- Any other declaration has a symbol of its kind and name, owned by the one it is offered to. -/
  has : ∀ e ∈ p.scopes c, ∀ o ∈ e.2, o.kind ≠ .package → s.store.Has o
  /-- The first declarations of the names are bound, in order. -/
  bindings : ∀ e ∈ p.scopes c, ∃ x, e.1 = some x ∧
    s.store.bindings x = (firsts Offer.text (fun _ => false) e.2).map Offer.binding
  /-- The later ones are reported, each once, and so are those in callables. -/
  redeclarations : s.store.redeclarations.Perm (before ++
    ((p.scopes c).flatMap fun e =>
      (repeats Offer.text (fun _ => false) e.2).map Offer.complaint) ++
    (repeats Offer.place (fun _ => false) p.innerOffers).map Offer.complaint)

namespace Entered

variable {load : Loader} {site : Site} {s₀ s s₁ s' : Session} {imports : List Import} {p : Package}
  (h : Entered load site s₀ s s₁ imports p s') (hempty : s.store.bindings site.package = [])
include h hempty

/-- The first offers to a scope are bound in it. -/
theorem bindings_of_mem_scopes {e : Option SymbolId × List Offer}
    (he : e ∈ p.scopes site.package) : ∃ x, e.1 = some x ∧
      s'.store.bindings x = (firsts Offer.text (fun _ => false) e.2).map Offer.binding := by
  rcases List.mem_cons.1 he with rfl | he
  · refine ⟨site.package, rfl, (h.bindings_eq hempty (.inl rfl)).trans ?_⟩
    rw [h.placed.filter_package, Offer.firsts_place fun _ ho => container_of_mem_scopeOffers ho]
  · obtain ⟨x, k, hx, _⟩ := h.placed.kindOf_container he
    have hnew : s₁.store.table.symbol? x = none := by
      have hmem := List.mem_map_of_mem (f := (·.1)) he
      rw [map_containers site.package] at hmem
      obtain ⟨o, ho, hsymbol⟩ := List.mem_map.1 hmem
      exact (h.members.fresh h.opens.sound.store).2 o ((typeOffers_sublist _ p).subset ho) x
        (hsymbol.trans hx)
    refine ⟨x, hx, (h.bindings_eq hempty (.inr hnew)).trans ?_⟩
    rw [← hx, h.placed.filter_container he,
      Offer.firsts_place fun _ ho => container_of_mem_containers he ho]

/-- What is reported as redeclared in the scopes and in callables. -/
theorem redeclarations_scopes : s'.store.redeclarations.Perm (s.store.redeclarations ++
    (Import.loadLog load site imports s).redeclarations ++
    ((p.scopes site.package).flatMap fun e =>
      (repeats Offer.text (fun _ => false) e.2).map Offer.complaint) ++
    (repeats Offer.place (fun _ => false) p.innerOffers).map Offer.complaint) := by
  refine (h.redeclarations_perm hempty).trans ?_
  rw [List.append_assoc (_ ++ _)]
  refine List.Perm.append_left _ ((h.placed.repeats_offers.map Offer.complaint).trans ?_)
  rw [scopes, List.flatMap_cons, List.map_append, List.map_append, List.map_flatMap,
    List.append_assoc]

end Entered

end Package

/-! ## Packages that are entered -/

/-- A package that a sound loader enters with success has its scopes filled with what it declares,
    and what it declares again is reported. -/
theorem Package.filled_enterWith {load : Loader} {s s₁ s' : Session} {path : Option PackageName}
    {key : PackageName} {site : Site} {p p' : Package} {x : SymbolId} (hload : load.Sound)
    (hsettles : load.Settles) (hs : s.Sound) (hpath : ∀ name ∈ path, name.Known s.store.names)
    (ho : p.collect.opened path s = (key, site, s₁))
    (hp : p.enterWith load path s = ((p', .ok x), s')) :
    let title := p.collect.title s.config (path.map (·.key s.store.names))
    p'.Filled s.config (PackageName.render title.1 title.2) p.collect x (s.store.redeclarations ++
      (Import.loadLog load site p.collect.imports s₁).redeclarations) s' := by
  intro title
  have hbare := p.bare_enterWith load path s
  obtain ⟨hopened, _⟩ := p.collect.opened_spec hs hpath
  obtain ⟨_, hok⟩ := Package.enterWith_spec hload p hs hpath
  have hstates := (Package.enterWith_settles hload hsettles p hs hpath).imports
  rw [ho] at hopened hok
  rw [hp] at hbare hok hstates
  obtain ⟨rfl, s₂, hentered⟩ := hok x rfl
  have hempty := hopened.bindings
  have hinitialized := hentered.initialized
  rw [hopened.text] at hinitialized
  refine ⟨?_, ?_, fun i hi => ?_, fun e he o hoe hk => ?_,
    fun e he => hentered.bindings_of_mem_scopes hempty he, ?_⟩
  · rw [hinitialized.map_heading_scopeOffers, ← Package.headings_bare, hbare, Package.headings_bare]
  · rw [Package.map_heading_containers, ← Package.containerHeadings_bare, hbare,
      Package.containerHeadings_bare]
  · obtain ⟨_, y, hy, hstate⟩ := hstates _ rfl i hi
    obtain ⟨y', hy', hk⟩ := hentered.imports.symbol i hi
    cases hy.symm.trans hy'
    exact ⟨y, hy, hstate, hentered.follows.grows.table.kindOf hk⟩
  · exact hentered.follows.has o
      (Package.mem_memberOffers (Package.mem_offers_of_mem_scopes he hoe) hk)
  · have hperm := hentered.redeclarations_scopes hempty
    rw [hopened.redeclarations] at hperm
    exact hperm

namespace Session

variable {s s₁ s' : Session} {path : Option PackageName} {key : PackageName} {site : Site}
  {p p' : Package} {depth : Nat} {x : SymbolId}

/-- Every package that is entered with success has its scopes filled with what it declares, and what
    it declares again is reported. -/
theorem Enters.filled (h : Enters depth path p s)
    (ho : p.collect.opened path s = (key, site, s₁))
    (hp : p.enterWith (loadWithin depth) path s = ((p', .ok x), s')) :
    let title := p.collect.title s.config (path.map (·.key s.store.names))
    p'.Filled s.config (PackageName.render title.1 title.2) p.collect x (s.store.redeclarations ++
      (Import.loadLog (loadWithin depth) site p.collect.imports s₁).redeclarations) s' := by
  obtain ⟨hs, hpath⟩ := h.sound
  exact Package.filled_enterWith (loadWithin_sound depth) (loadWithin_settles depth) hs hpath ho hp

/-- An import, a struct and a variable of one name, and a struct with a field declared twice. -/
theorem filled_declared_again :
    let T : Ident := ⟨"T", .origin⟩
    let i : Import := { span := .origin, path := [⟨"a", .origin⟩], asName := some T }
    let f : VarDecl :=
      { span := .origin, name := ⟨"f", .origin⟩, type := .primitive .int .origin none }
    let p : Package :=
      { imports := [i], structs := [{ span := .origin, name := T, fields := [f, f] }]
        vars := [{ f with name := T }] }
    let s := start {} {} (Library.insert {} "a" none {})
    let o := p.collect.opened none s
    let r := p.enterWith (loadWithin s.depthBound) none s
    Enters s.depthBound none p s ∧ r.1.2 = .ok ⟨1⟩ ∧
      r.2.store.bindings ⟨1⟩ = [("T", some ⟨2⟩), ("..<init>", some ⟨8⟩)] ∧
      r.2.store.bindings ⟨4⟩ = [("f", some ⟨5⟩)] ∧
      r.1.1.Filled {} "." p.collect ⟨1⟩ (s.store.redeclarations ++
        (Import.loadLog (loadWithin s.depthBound) o.2.1 p.collect.imports o.2.2).redeclarations)
        r.2 := by
  intro T i f p s o r
  have h : Enters s.depthBound none p s := .define p (.start {} {} _)
  have hok : r.1.2 = .ok ⟨1⟩ := by decide +kernel
  have hpackage : r.2.store.bindings ⟨1⟩ = [("T", some ⟨2⟩), ("..<init>", some ⟨8⟩)] := by
    decide +kernel
  have hstruct : r.2.store.bindings ⟨4⟩ = [("f", some ⟨5⟩)] := by decide +kernel
  have hp : r = ((r.1.1, .ok ⟨1⟩), r.2) := eq_of_outcome hok
  have ho : o = (o.1, o.2.1, o.2.2) := rfl
  exact ⟨h, hok, hpackage, hstruct, h.filled ho hp⟩

end Session

end Binder
