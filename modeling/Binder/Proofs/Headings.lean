import Binder.Proofs.Entry.Package
import Binder.Proofs.Scopes

/-!
# Headings

What is declared under a name has a kind and a place. The headings of a package can be read off its
declarations before it is entered, initializers included: these are declared under the names that the
settings give them. Entering the package offers just what its headings say.

* `Package.headings`, `Package.containerHeadings`: the headings of a package.
* `Package.Initialized.map_heading_scopeOffers`: the headings of what is offered to its scope.
* `Package.headings_bare`: only what is declared matters.
-/

namespace Binder

/-- A name, with the kind and the place of what is declared under it. -/
abbrev Heading := String × SymbolKind × Span

def Offer.heading (o : Offer) : Heading := (o.text, o.kind, o.span)

/-! ## Declarations -/

/-- The headings of the variables that have names. -/
def VarDecl.headings (vs : List VarDecl) : List Heading :=
  (vs.filter (·.name.text ≠ "")).map fun v => (v.name.text, .var, v.span)

namespace Callable

/-- The heading of a function or method. -/
def functionHeading (f : Callable) : Heading := (f.functionName, f.functionKind, f.head.span)

/-- The heading of an action or resource. -/
def memberHeading (kind : SymbolKind) (m : Callable) : Heading :=
  (m.head.name.text, kind, m.head.span)

end Callable

namespace Package

/-- The headings of what is declared in the scope of a package called `title`, in order. -/
def headings (config : Config) (title : String) (p : Package) : List Heading :=
  p.imports.map (fun i => (i.localName, .package, i.span)) ++
    p.structs.map (fun d => (d.name.text, .struct, d.span)) ++
    p.connectors.flatMap (fun d =>
      [(d.name.text, .connector, d.span), (config.initName d.name.text, .function, d.span)]) ++
    p.services.map (fun d => (d.name.text, .service, d.span)) ++
    p.functions.map (·.functionHeading) ++
    p.services.map (fun d => (config.initName d.name.text, .function, d.span)) ++
    VarDecl.headings p.vars ++
    [(config.initName title, .function, p.span)]

/-- The headings of what is declared in the scopes of structs, connectors and services. -/
def containerHeadings (p : Package) : List (List Heading) :=
  p.structs.map (fun d => VarDecl.headings d.fields) ++
    p.connectors.map (fun d => d.actions.map (·.memberHeading .action)) ++
    p.services.map (fun d => d.resources.map (·.memberHeading .resource))

end Package

/-! ## Offers -/

theorem VarDecl.map_heading_offers (c : Option SymbolId) (vs : List VarDecl) :
    (vs.flatMap (·.offers c)).map Offer.heading = headings vs := by
  induction vs with
  | nil => rfl
  | cons v vs ih =>
    rw [List.flatMap_cons, List.map_append, ih, headings, headings, List.filter_cons, offers]
    by_cases hv : v.name.text = "" <;> simp [hv, Offer.heading, offer]

namespace Callable

/-- How an initializer is called and where it is does not depend on what binding adds to it. -/
theorem functionHeading_of_bare {f : Callable} {span : Span} {name : String} {params : List VarDecl}
    {defs : List VarDef} (h : f.bare = (initializer span name params defs).bare) :
    f.functionHeading = (name, .function, span) := by
  have hname := f.functionName_bare
  have hkind := f.functionKind_bare
  obtain ⟨head, workers⟩ := f
  rw [h] at hname hkind
  have hhead := (Callable.mk.inj h).1
  have hspan : head.span = span := congrArg CallableHead.span hhead
  rw [functionHeading, ← hname, ← hkind]
  exact congrArg (fun s => (name, SymbolKind.function, s)) hspan

end Callable

/-- A connector is offered to the scope of its package before its initializer. -/
theorem Connector.map_heading_offers {config : Config} {ds : List Connector}
    (h : ∀ d ∈ ds, d.Initialized config) (c : SymbolId) :
    (ds.flatMap fun d =>
      d.offer (some c) :: d.initializer.toList.map (·.functionOffer (some c))).map Offer.heading =
        ds.flatMap fun d =>
          [(d.name.text, .connector, d.span), (config.initName d.name.text, .function, d.span)] := by
  rw [List.map_flatMap, List.flatMap_def, List.flatMap_def]
  refine congrArg _ (List.map_congr_left fun d hd => ?_)
  obtain ⟨f, hf, hbare⟩ := h d hd
  rw [hf]
  exact congrArg ([(d.name.text, SymbolKind.connector, d.span), ·])
    (Callable.functionHeading_of_bare hbare)

namespace Package

/-- What is offered to the scope of a package is what its headings say. -/
theorem Initialized.map_heading_scopeOffers {config : Config} {title : String} {p : Package}
    (h : p.Initialized config title) (c : SymbolId) :
    (p.scopeOffers c).map Offer.heading = p.headings config title := by
  have hconnectors := Connector.map_heading_offers h.connector c
  have hservices : (p.services.flatMap fun d =>
      d.initializer.toList.map (·.functionOffer (some c))).map Offer.heading =
        p.services.map fun d => (config.initName d.name.text, .function, d.span) := by
    rw [List.map_flatMap, List.map_eq_flatMap, List.flatMap_def, List.flatMap_def]
    refine congrArg _ (List.map_congr_left fun d hd => ?_)
    obtain ⟨f, hf, hbare⟩ := h.service d hd
    rw [hf]
    exact congrArg ([·]) (Callable.functionHeading_of_bare hbare)
  have hpackage : (p.initializer.toList.map (·.functionOffer (some c))).map Offer.heading =
      [(config.initName title, .function, p.span)] := by
    obtain ⟨f, vars, hf, hbare⟩ := h.package
    rw [hf]
    exact congrArg ([·]) (Callable.functionHeading_of_bare hbare)
  rw [scopeOffers, headings]
  simp only [List.map_append, hconnectors, hservices, hpackage, VarDecl.map_heading_offers,
    List.map_map, Import.offers]
  rfl

theorem map_heading_containers (p : Package) :
    (p.containers.map fun e => e.2.map Offer.heading) = p.containerHeadings := by
  simp only [containers, containerHeadings, List.map_append, List.map_map, Function.comp_def,
    Struct.fieldOffers, VarDecl.map_heading_offers, Connector.scopeOffers, Service.scopeOffers]
  rfl

end Package

/-! ## What is declared -/

theorem VarDecl.headings_bare (vs : List VarDecl) : headings (vs.map (·.bare)) = headings vs := by
  rw [headings, headings, List.filter_map, List.map_map]
  rfl

namespace Callable

theorem functionHeading_bare (f : Callable) : f.bare.functionHeading = f.functionHeading := by
  rw [functionHeading, functionHeading, functionName_bare, functionKind_bare]
  obtain ⟨head, workers⟩ := f
  rfl

theorem memberHeading_bare (kind : SymbolKind) (m : Callable) :
    m.bare.memberHeading kind = m.memberHeading kind := by
  obtain ⟨head, workers⟩ := m
  rfl

end Callable

namespace Package

theorem headings_bare (config : Config) (title : String) (p : Package) :
    p.bare.headings config title = p.headings config title := by
  simp only [headings, bare, List.map_map, List.flatMap_map, VarDecl.headings_bare,
    Function.comp_def, Callable.functionHeading_bare]
  rfl

theorem containerHeadings_bare (p : Package) : p.bare.containerHeadings = p.containerHeadings := by
  simp only [containerHeadings, bare, Struct.bare, Connector.bare, Service.bare, List.map_map,
    Function.comp_def, VarDecl.headings_bare, Callable.memberHeading_bare]

end Package

end Binder
