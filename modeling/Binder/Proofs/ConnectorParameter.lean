import Binder.Proofs.BoundTexts
import Binder.Proofs.Redeclared
import Binder.Proofs.TypeTable

/-!
# What the initializers of connectors take

The initializer of a connector has one parameter, whose type is written as the name of the
connector. That is resolved like any written type, so it is the type of the connector only if nothing
else has been declared under the name before. A struct or connector that came first gives the
parameter its own type, and for an imported package or the initializer of an earlier connector, which
are no types, the parameter is reported.

* `Package.headingsBefore`: what is declared in a package before a connector.
* `Connector.Takes`: what the initializer of a connector takes and what is reported of it.
* `Package.Entered.hasParameter`: the cases, by what has been declared before.
* `Session.Enters.connectorParameters`: the parameters of every package that is entered with success.
-/

namespace Binder

open Store

/-! ## What is declared before a connector -/

namespace Package

/-- The headings of what is declared in the scope of a package before its `k`-th connector. -/
def headingsBefore (config : Config) (k : Nat) (p : Package) : List Heading :=
  p.imports.map (fun i => (i.localName, .package, i.span)) ++
    p.structs.map (fun d => (d.name.text, .struct, d.span)) ++
    (p.connectors.take k).flatMap fun d =>
      [(d.name.text, .connector, d.span), (config.initName d.name.text, .function, d.span)]

/-- The kind of what is declared first under a name, if that is before the `k`-th connector. -/
def kindBefore? (config : Config) (k : Nat) (text : String) (p : Package) : Option SymbolKind :=
  ((p.headingsBefore config k).find? (text == ·.1)).map (·.2.1)

theorem headingsBefore_bare (config : Config) (k : Nat) (p : Package) :
    p.bare.headingsBefore config k = p.headingsBefore config k := by
  simp only [headingsBefore, bare, List.map_map, ← List.map_take, List.flatMap_map]
  rfl

theorem kind_of_mem_headingsBefore {config : Config} {k : Nat} {p : Package} {e : Heading}
    (h : e ∈ p.headingsBefore config k) :
    e.2.1 = .package ∨ e.2.1 = .struct ∨ e.2.1 = .connector ∨ e.2.1 = .function := by
  simp only [headingsBefore, List.mem_append, List.mem_map, List.mem_flatMap, List.mem_cons,
    List.not_mem_nil, or_false] at h
  rcases h with (⟨i, _, rfl⟩ | ⟨d, _, rfl⟩) | ⟨d, _, rfl | rfl⟩ <;> simp

/-- What is offered to the scope of a package before its `k`-th connector. -/
def offersBefore (c : SymbolId) (k : Nat) (p : Package) : List Offer :=
  Import.offers c p.imports ++ p.structs.map (·.offer (some c)) ++
    (p.connectors.take k).flatMap fun d =>
      d.offer (some c) :: d.initializer.toList.map (·.functionOffer (some c))

variable {config : Config} {title : String} {p : Package} {c : SymbolId} {k : Nat} {d : Connector}

theorem Initialized.map_heading_offersBefore (h : p.Initialized config title) (c : SymbolId)
    (k : Nat) : (p.offersBefore c k).map Offer.heading = p.headingsBefore config k := by
  rw [offersBefore, List.map_append,
    Connector.map_heading_offers (fun d hd => h.connector d (List.mem_of_mem_take hd)),
    List.map_append, Import.offers, List.map_map, List.map_map]
  rfl

theorem connectors_eq (hd : p.connectors[k]? = some d) :
    p.connectors = p.connectors.take k ++ d :: p.connectors.drop (k + 1) := by
  obtain ⟨hk, rfl⟩ := List.getElem?_eq_some_iff.1 hd
  rw [List.getElem_cons_drop, List.take_append_drop]

/-- After what comes before it, the connector is offered. -/
theorem offersBefore_prefix (hd : p.connectors[k]? = some d) :
    p.offersBefore c k ++ [d.offer (some c)] <+: p.scopeOffers c := by
  simp only [offersBefore, scopeOffers, List.append_assoc]
  refine (List.prefix_append_right_inj _).2 ((List.prefix_append_right_inj _).2 ?_)
  refine List.IsPrefix.trans ?_ (List.prefix_append _ _)
  conv_rhs => rw [connectors_eq hd, List.flatMap_append, List.flatMap_cons, List.cons_append]
  exact (List.prefix_append_right_inj _).2 (List.cons_prefix_cons.2 ⟨rfl, List.nil_prefix⟩)

/-- What is of a kind of types among the offers before a connector has another symbol. -/
theorem symbol_ne_of_mem_offersBefore (hnodup : ((p.typeOffers c).map Offer.symbol).Nodup)
    (hd : p.connectors[k]? = some d) {o : Offer} (ho : o ∈ p.offersBefore c k)
    (hk : o.kind.isType) : o.symbol ≠ d.symbol := by
  have hmem : o ∈ p.structs.map (·.offer (some c)) ++
      (p.connectors.take k).map (·.offer (some c)) := by
    simp only [offersBefore, Import.offers, List.mem_append, List.mem_map, List.mem_flatMap,
      List.mem_cons] at ho
    rcases ho with (⟨i, _, rfl⟩ | ⟨e, he, rfl⟩) | ⟨e, he, rfl | ⟨f, _, rfl⟩⟩
    · cases hk
    · exact List.mem_append_left _ (List.mem_map_of_mem he)
    · exact List.mem_append_right _ (List.mem_map_of_mem he)
    · exact absurd hk (SymbolKind.of_isCallable f.isCallable_functionKind).2.2
  have htypes : p.typeOffers c = (p.structs.map (·.offer (some c)) ++
      (p.connectors.take k).map (·.offer (some c))) ++ (d.offer (some c) ::
        ((p.connectors.drop (k + 1)).map (·.offer (some c)) ++
          p.services.map (·.offer (some c)))) := by
    rw [typeOffers]
    conv_lhs => rw [connectors_eq hd]
    simp only [List.map_append, List.map_cons, List.append_assoc, List.cons_append]
  rw [htypes, List.map_append, List.map_cons, List.nodup_append] at hnodup
  exact hnodup.2.2 _ (List.mem_map_of_mem hmem) _ List.mem_cons_self

end Package

/-! ## What a connector is taken for -/

/-- What is reported of the parameter of the initializer of a connector. -/
def Connector.parameterReports (s : Store) (c : SymbolId) (d : Connector) : Log :=
  (TypeRef.ofName d.name).reports s c

/-- The initializer of the connector `d` takes something of the type `ty`, and `log` is reported of
    that. It depends on the kind of what has been declared under the name before, if there is such a
    thing. -/
inductive Connector.Takes (s : Store) (c : SymbolId) (d : Connector) :
    Option SymbolKind → TypeId → Log → Prop
  /-- Nothing has been declared under the name, and the connector itself is taken. -/
  | itself {x : SymbolId} : d.symbol = some x → s.bound? c d.name.text = some x →
    Takes s c d none (s.table.typeOf x) []
  /-- A struct or connector has been declared under the name, and that is taken instead. -/
  | other {x y : SymbolId} {kind : SymbolKind} : kind = .struct ∨ kind = .connector →
    d.symbol = some x → s.bound? c d.name.text = some y → s.table.kindOf y = some kind →
    s.table.typeOf y ≠ s.table.typeOf x → Takes s c d (some kind) (s.table.typeOf y) []
  /-- What has been declared under the name is no type. -/
  | nothing {kind : SymbolKind} : kind = .package ∨ kind = .function →
    Takes s c d (some kind) .error
      [(Problem.unknownType d.name.text).diagnostic d.name.span]

/-- The connector `d` has an initializer with one parameter, called `name` and placed at the
    connector. Its written type says the name of the connector, and it is what the initializer takes
    when something of the kind `before?` has been declared under that name before. -/
def Connector.HasParameter (s : Store) (c : SymbolId) (name : String) (before? : Option SymbolKind)
    (d : Connector) : Prop :=
  ∃ f v ty, d.initializer = some f ∧ f.head.params = [v] ∧ v.name = ⟨name, d.span⟩ ∧
    v.type = .named none d.name d.name.span (some ty) ∧ v.ty = some ty ∧
    d.Takes s c before? ty (d.parameterReports s c)

namespace Store

variable {s : Store} {c y : SymbolId} {k : SymbolKind} {name : Ident}

/-- What a bound name means as a type, by the kind of what it is bound to. -/
theorem member?_type_of_bound (hb : s.bound? c name.text = some y) (hk : s.table.kindOf y = some k) :
    s.member? c name.text .type = if k.isType then some y else none := by
  obtain ⟨sym, hsym, rfl⟩ := Option.map_eq_some_iff.1 hk
  rw [member?, hb, Option.filter_some, hsym, Option.any_some, SymbolKind.meets_type_eq_isType]

theorem typeIn_of_bound (hb : s.bound? c name.text = some y) (hk : s.table.kindOf y = some k) :
    s.typeIn c name.text = if k.isType then s.table.typeOf y else .error := by
  rw [typeIn, member?_type_of_bound hb hk]
  split <;> rfl

theorem reports_ofName_of_bound (hb : s.bound? c name.text = some y)
    (hk : s.table.kindOf y = some k) : (TypeRef.ofName name).reports s c =
      if k.isType then [] else [(Problem.unknownType name.text).diagnostic name.span] := by
  have hreports : (TypeRef.ofName name).reports s c = (s.misnaming? c none name).toList := rfl
  rw [hreports, misnaming?, packageMeant?]
  simp only [member?_type_of_bound hb hk]
  cases k.isType <;> rfl

end Store

namespace Connector

variable {s : Store} {c : SymbolId} {d : Connector}

/-- What a written type that says the name of the connector is resolved to. -/
theorem type_of_resolvedIn {r : TypeRef} (h : r.ResolvedIn s c)
    (hbare : r.bare = (TypeRef.ofName d.name).bare) :
    r = .named none d.name d.name.span (some (s.typeIn c d.name.text)) := by
  cases r with
  | named qualifier name span ty =>
    obtain ⟨rfl, rfl, rfl, -⟩ := TypeRef.named.inj hbare
    obtain ⟨ty', hty, hmeans⟩ := h
    cases hty
    exact congrArg (fun t => TypeRef.named none d.name d.name.span (some t)) hmeans
  | primitive | array => cases hbare

end Connector

/-! ## Packages that are entered -/

namespace Package.Entered

variable {load : Loader} {site : Site} {s₀ s s₁ s' : Session} {imports : List Import} {p : Package}
  {k : Nat} {d : Connector} (h : Entered load site s₀ s s₁ imports p s')
include h

/-- A name is bound to what is offered first under it. -/
theorem bound?_eq_find? (hempty : s.store.bindings site.package = []) (text : String) :
    s'.store.bound? site.package text =
      ((p.scopeOffers site.package).find? (text == Offer.text ·)).bind Offer.symbol := by
  obtain ⟨_, hc, hbindings⟩ := h.bindings_of_mem_scopes hempty (e := (some site.package, _))
    List.mem_cons_self
  cases hc
  exact Store.bound?_eq_find? hbindings text

variable (hd : p.connectors[k]? = some d)
include hd

/-- What is bound under the name of a connector: what has been declared under it before, or else the
    connector. -/
theorem bound?_connectorName (hempty : s.store.bindings site.package = []) :
    s'.store.bound? site.package d.name.text =
      (((p.offersBefore site.package k).find? (d.name.text == Offer.text ·)).or
        (some (d.offer (some site.package)))).bind Offer.symbol := by
  obtain ⟨after, hafter⟩ := offersBefore_prefix (c := site.package) hd
  have hself : (d.offer (some site.package) :: after).find? (d.name.text == Offer.text ·) =
      some (d.offer (some site.package)) := List.find?_cons_of_pos (beq_self_eq_true d.name.text)
  rw [h.bound?_eq_find? hempty, ← hafter, List.append_assoc, List.find?_append,
    List.singleton_append, hself]

/-- What the name of a connector means depends on what has been declared under it before. -/
theorem takes (hempty : s.store.bindings site.package = []) :
    d.Takes s'.store site.package (p.kindBefore? s₀.config k d.name.text)
      (s'.store.typeIn site.package d.name.text) (d.parameterReports s'.store site.package) := by
  have hs := h.members.sound h.opens.sound.store
  obtain ⟨after, hafter⟩ := offersBefore_prefix (c := site.package) hd
  have hself : d.offer (some site.package) ∈ p.scopeOffers site.package :=
    hafter ▸ List.mem_append_left _ (List.mem_append_right _ (List.mem_singleton_self _))
  obtain ⟨x, hx, hxkind⟩ := h.kindOf_of_mem_scopeOffers hself
  have hbound := h.bound?_connectorName hd hempty
  have hheadings := h.initialized.map_heading_offersBefore site.package k
  rw [kindBefore?, ← hheadings, List.find?_map, Connector.parameterReports]
  change d.Takes _ _ (((((p.offersBefore site.package k).find?
    (d.name.text == Offer.text ·))).map Offer.heading).map _) _ _
  cases hfirst : (p.offersBefore site.package k).find? (d.name.text == Offer.text ·) with
  | none =>
    rw [hfirst, Option.none_or, Option.bind_some, hx] at hbound
    rw [typeIn_of_bound hbound hxkind, reports_ofName_of_bound hbound hxkind]
    exact .itself hx hbound
  | some o =>
    have ho := List.mem_of_find?_eq_some hfirst
    obtain ⟨y, hy, hykind⟩ := h.kindOf_of_mem_scopeOffers
      (hafter ▸ List.mem_append_left _ (List.mem_append_left _ ho))
    rw [hfirst, Option.some_or, Option.bind_some, hy] at hbound
    rw [typeIn_of_bound hbound hykind, reports_ofName_of_bound hbound hykind]
    have hkinds : o.kind = .package ∨ o.kind = .struct ∨ o.kind = .connector ∨ o.kind = .function :=
      kind_of_mem_headingsBefore (hheadings ▸ List.mem_map_of_mem (f := Offer.heading) ho)
    -- What is a type has one of its own, as it has another symbol than the connector.
    have hdiffers (hk : o.kind.isType) : s'.store.table.typeOf y ≠ s'.store.table.typeOf x := by
      intro heq
      have hxy := hs.linked.isTypeOf_unique (hs.linked.isTypeOf_typeOf hykind hk)
        (heq ▸ hs.linked.isTypeOf_typeOf hxkind rfl)
      have hnodup := ((typeOffers_sublist site.package p).map Offer.symbol).nodup h.placed.nodup
      exact symbol_ne_of_mem_offersBefore hnodup hd ho hk (hy.trans (hxy ▸ hx.symm))
    rw [Option.map_some, Option.map_some, show o.heading.2.1 = o.kind from rfl]
    rcases hkinds with hk | hk | hk | hk <;> rw [hk] at hykind hdiffers ⊢
    · exact .nothing (.inl rfl)
    · exact .other (.inl rfl) hx hbound hykind (hdiffers rfl)
    · exact .other (.inr rfl) hx hbound hykind (hdiffers rfl)
    · exact .nothing (.inr rfl)

/-- The initializer of a connector has one parameter, which is resolved by the name of the
    connector. -/
theorem hasParameter (hempty : s.store.bindings site.package = [])
    (hcomplete : p.CompleteIn s'.store site.package) :
    d.HasParameter s'.store site.package s₀.config.connectorParam
      (p.kindBefore? s₀.config k d.name.text) := by
  have hmem := List.mem_of_getElem? hd
  obtain ⟨f, hf, hbare⟩ := h.initialized.connector d hmem
  obtain ⟨v, hv, hwritten, hparts⟩ := Connector.exists_param_of_bare hbare
  have hcallable := mem_callables.2 (.connectorInitializer hmem (Option.mem_toList.2 hf))
  have hvars : v ∈ p.allVars := (offers_of_mem_callables (c := site.package) hcallable).2 v
    (show v ∈ f.functionParts from hparts ▸ List.mem_singleton_self v)
  have hname : v.bare.name = ⟨s₀.config.connectorParam, d.span⟩ :=
    congrArg VarDecl.name hwritten
  have hbareType : v.type.bare = (TypeRef.ofName d.name).bare :=
    show v.bare.type = _ from congrArg VarDecl.type hwritten
  have htype := Connector.type_of_resolvedIn (h.vars v hvars).type hbareType
  have hcompleted := hcomplete.completed f.kinded (mem_everyCallable hcallable)
  have hty := (hcompleted.typed v (List.mem_append_left _ (hv ▸ List.mem_singleton_self v))).2
  exact ⟨f, v, _, hf, hv, hname, htype, hty.symm.trans (congrArg TypeRef.ty htype),
    h.takes hd hempty⟩

end Package.Entered

namespace Session

variable {s s₁ s' : Session} {path : Option PackageName} {key : PackageName} {site : Site}
  {p p' : Package} {depth : Nat} {x : SymbolId}

/-- In every package that is entered with success, the initializers of connectors have one parameter
    each. It takes what has been declared first under the name of the connector, as far as that is a
    type, and what is reported of it is reported before anything else of the members. -/
theorem Enters.connectorParameters (h : Enters depth path p s)
    (ho : p.collect.opened path s = (key, site, s₁))
    (hp : p.enterWith (loadWithin depth) path s = ((p', .ok x), s')) :
    let imported := (Import.enterAll (loadWithin depth) site p.collect.imports s₁).2
    (∀ (k : Nat) (d : Connector), p'.connectors[k]? = some d →
      d.HasParameter s'.store x s.config.connectorParam
        (p.collect.kindBefore? s.config k d.name.text)) ∧
    s'.store.others = imported.store.others ++ p'.reports s'.store x ∧
    p'.connectors.flatMap (·.parameterReports s'.store x) <+: p'.reports s'.store x := by
  intro imported
  have hbare := p.bare_enterWith (loadWithin depth) path s
  obtain ⟨hs, hpath⟩ := h.sound
  obtain ⟨hopened, _⟩ := p.collect.opened_spec hs hpath
  rw [ho] at hopened
  rw [hp] at hbare
  obtain ⟨rfl, hentered, hcomplete, hothers⟩ := h.complete ho hp
  have hbefore (k : Nat) : p'.headingsBefore s.config k = p.collect.headingsBefore s.config k := by
    rw [← Package.headingsBefore_bare, hbare, Package.headingsBefore_bare]
  refine ⟨fun k d hd => ?_, hothers, ?_⟩
  · have hparameter := hentered.hasParameter hd hopened.bindings hcomplete
    rwa [Package.kindBefore?, hbefore k] at hparameter
  · simp only [Package.reports, List.append_assoc]
    exact List.prefix_append _ _

/-- Connectors that are called like an imported package, like a struct, like nothing else, like an
    earlier connector and like the initializer of one. -/
theorem connectorParameters_declared_again :
    let word (text : String) : Ident := ⟨text, .origin⟩
    let connector (name : String) : Connector := { span := .origin, name := word name }
    let p : Package :=
      { imports := [{ span := .origin, path := [word "a"] }]
        structs := [{ span := .origin, name := word "B" }]
        connectors := ["a", "B", "C", "C", "C.<init>"].map connector }
    let s := start {} {} (Library.insert {} "a" none {})
    let r := p.enterWith (loadWithin s.depthBound) none s
    Enters s.depthBound none p s ∧ r.1.2 = .ok ⟨1⟩ ∧
      (r.1.1.connectors.map fun d => d.symbol.map r.2.store.table.typeOf) =
        [some ⟨14⟩, some ⟨16⟩, some ⟨18⟩, some ⟨20⟩, some ⟨22⟩] ∧
      (r.1.1.connectors.map fun d => d.initializer.map (·.head.params.map (·.ty))) =
        [some [some .error], some [some ⟨13⟩], some [some ⟨18⟩], some [some ⟨18⟩],
          some [some .error]] ∧
      r.2.store.log.map (·.code) =
        ["E0004", "E0001", "E0004", "E0004", "E0004", "E0004", "E0001"] ∧
      ∀ (k : Nat) (d : Connector), r.1.1.connectors[k]? = some d →
        d.HasParameter r.2.store ⟨1⟩ "connector" (p.collect.kindBefore? {} k d.name.text) := by
  intro word connector p s r
  have h : Enters s.depthBound none p s := .define p (.start {} {} _)
  have hok : r.1.2 = .ok ⟨1⟩ := by decide +kernel
  have hp : r = ((r.1.1, .ok ⟨1⟩), r.2) := eq_of_outcome hok
  let o := p.collect.opened none s
  have ho : o = (o.1, o.2.1, o.2.2) := rfl
  exact ⟨h, hok, by decide +kernel, by decide +kernel, by decide +kernel,
    (h.connectorParameters ho hp).1⟩

/-- The initializer of a connector that is called like an imported package does not take the
    connector, and its parameter is reported. That of a connector called like a struct takes the
    struct. -/
theorem not_connectorParameters_itself :
    let word (text : String) : Ident := ⟨text, .origin⟩
    let connector (name : String) : Connector := { span := .origin, name := word name }
    let p : Package :=
      { imports := [{ span := .origin, path := [word "a"] }]
        structs := [{ span := .origin, name := word "B" }]
        connectors := ["a", "B"].map connector }
    let s := start {} {} (Library.insert {} "a" none {})
    let r := p.enterWith (loadWithin s.depthBound) none s
    Enters s.depthBound none p s ∧ r.1.2 = .ok ⟨1⟩ ∧
      (r.1.1.connectors.map fun d => d.symbol.map r.2.store.table.typeOf) =
        [some ⟨14⟩, some ⟨16⟩] ∧
      (r.1.1.connectors.map fun d => d.initializer.map (·.head.params.map (·.ty))) =
        [some [some .error], some [some ⟨13⟩]] ∧
      r.2.store.others = [(Problem.unknownType "a").diagnostic .origin] := by
  intro word connector p s r
  exact ⟨.define p (.start {} {} _), by decide +kernel, by decide +kernel, by decide +kernel,
    by decide +kernel⟩

end Session

end Binder
