import Binder.Proofs.Formed
import Binder.Proofs.Refusal

/-!
# What is reported of a package as redeclared

If the names in the scope of a package are distinct, then what is reported as redeclared can be read
off its declarations: in every struct, connector, service and callable, each declaration but the
first of its name, with the place of the first one. Initializers redeclare nothing.

* `Callable.scopeHeadings`: the headings of what is declared in the scope of a callable.
* `Callable.clashes`, `Package.clashes`: what is reported as redeclared.
* `Package.Entered.map_refusal_offers`: what is refused outside of the scope of the package.
* `Package.Entered.refusals_perm`: this is what entering a package reports as redeclared.
-/

namespace Binder

open Store

/-- A single declaration is none again. -/
theorem Heading.clashes_of_length_le_one : ∀ {hs : List Heading}, hs.length ≤ 1 → clashes hs = []
  | [], _ => rfl
  | [_], _ => rfl
  | _ :: _ :: _, h => absurd h (by simp)

/-! ## Callables -/

namespace Callable

/-- The headings of what is declared in the scope of a callable. -/
def scopeHeadings (kind : SymbolKind) (f : Callable) : List Heading :=
  VarDecl.headings (f.head.parts kind) ++ f.workers.map (·.memberHeading .worker)

theorem map_heading_scopeOffers (kind : SymbolKind) (f : Callable) :
    (f.scopeOffers kind).map Offer.heading = f.scopeHeadings kind := by
  rw [scopeOffers, scopeHeadings, List.map_append, CallableHead.partOffers,
    VarDecl.map_heading_offers, List.map_map]
  rfl

/-- What is reported as redeclared in a callable and in the workers nested in it. -/
def clashes (kind : SymbolKind) (f : Callable) : Log :=
  (f.nested kind).flatMap fun e => Heading.clashes (e.2.scopeHeadings e.1)

mutual

theorem nested_bare (kind : SymbolKind) : ∀ f : Callable,
    f.bare.nested kind = (f.nested kind).map fun e => (e.1, e.2.bare)
  | mk head workers => by
    rw [bare, nested, nested, List.map_cons, nestedWorkers_bare workers, bare]

theorem nestedWorkers_bare : ∀ workers : List Callable,
    nestedWorkers (bareAll workers) = (nestedWorkers workers).map fun e => (e.1, e.2.bare)
  | [] => rfl
  | worker :: rest => by
    rw [bareAll, nestedWorkers, nestedWorkers, List.map_append, nested_bare .worker worker,
      nestedWorkers_bare rest]

end

theorem bareAll_eq_map (workers : List Callable) : bareAll workers = workers.map (·.bare) := by
  induction workers with
  | nil => rfl
  | cons w rest ih => rw [bareAll, ih, List.map_cons]

theorem scopeHeadings_bare (kind : SymbolKind) (f : Callable) :
    f.bare.scopeHeadings kind = f.scopeHeadings kind := by
  obtain ⟨head, workers⟩ := f
  have hparts : head.bare.parts kind = (head.parts kind).map (·.bare) := by
    unfold CallableHead.parts
    split <;> simp only [CallableHead.bare, List.map_append, Option.toList_map, List.map_nil]
  rw [bare, scopeHeadings, scopeHeadings]
  simp only [Callable.head, Callable.workers, hparts, VarDecl.headings_bare, bareAll_eq_map,
    List.map_map, Function.comp_def, memberHeading_bare]

/-- Only what is declared in a callable matters. -/
theorem clashes_bare (kind : SymbolKind) (f : Callable) : f.bare.clashes kind = f.clashes kind := by
  rw [clashes, clashes, nested_bare, List.flatMap_map]
  simp only [scopeHeadings_bare]

/-- An initializer, which has one parameter at most, redeclares nothing. -/
theorem clashes_initializer {kind : SymbolKind} {span : Span} {name : String}
    {params : List VarDecl} {defs : List VarDef} (hparams : params.length ≤ 1) :
    (initializer span name params defs).clashes kind = [] := by
  have hparts : (initializer span name params defs).head.parts kind = params := by
    unfold CallableHead.parts
    split <;> simp [initializer, head]
  have hlength : (VarDecl.headings params).length ≤ 1 := by
    rw [VarDecl.headings, List.length_map]
    exact Nat.le_trans (List.length_filter_le ..) hparams
  have hheadings : (initializer span name params defs).scopeHeadings kind =
      VarDecl.headings params := by
    rw [scopeHeadings, hparts]
    exact List.append_nil _
  have hnested : (initializer span name params defs).nested kind =
      [(kind, initializer span name params defs)] := by
    rw [initializer, nested, nestedWorkers]
  rw [clashes, hnested, List.flatMap_singleton, hheadings]
  exact Heading.clashes_of_length_le_one hlength

end Callable

/-! ## Packages -/

namespace Package

/-- What is reported of a package as redeclared, the scope of the package itself aside. -/
def clashes (p : Package) : Log :=
  p.containerHeadings.flatMap Heading.clashes ++
    p.connectors.flatMap (·.actions.flatMap (·.clashes .action)) ++
    p.functions.flatMap (fun f => f.clashes f.functionKind) ++
    p.services.flatMap (·.resources.flatMap (·.clashes .resource))

theorem clashes_bare (p : Package) : p.bare.clashes = p.clashes := by
  rw [clashes, containerHeadings_bare]
  simp only [clashes, bare, Connector.bare, Service.bare, List.flatMap_map, Callable.clashes_bare,
    Callable.functionKind_bare]

/-- What is redeclared in all callables is redeclared in those that are written. -/
theorem Initialized.clashes_eq {config : Config} {title : String} {p : Package}
    (h : p.Initialized config title) : p.clashes = p.containerHeadings.flatMap Heading.clashes ++
      p.everyCallable.flatMap fun e => Heading.clashes (e.2.scopeHeadings e.1) := by
  have hinit : ∀ {i : Option Callable} {span : Span} {name : String} {params : List VarDecl}
      {defs : List VarDef},
      (∃ f, i = some f ∧ f.bare = (Callable.initializer span name params defs).bare) →
      params.length ≤ 1 → i.toList.flatMap (fun f => f.clashes f.functionKind) = [] :=
    fun ⟨f, hf, hbare⟩ hparams => by
      rw [hf, Option.toList_some, List.flatMap_singleton, ← f.clashes_bare, hbare,
        Callable.clashes_bare, Callable.clashes_initializer hparams]
  have hconnectors : p.connectors.flatMap (fun d =>
      d.initializer.toList.flatMap fun f => f.clashes f.functionKind) = [] :=
    List.flatMap_eq_nil_iff.2 fun d hd => hinit (h.connector d hd) (Nat.le_refl 1)
  have hservices : p.services.flatMap (fun d =>
      (d.initializer.toList.flatMap fun f => f.clashes f.functionKind) ++
        d.resources.flatMap (·.clashes .resource)) =
      p.services.flatMap (·.resources.flatMap (·.clashes .resource)) :=
    List.flatMap_congr fun d hd => by rw [hinit (h.service d hd) (Nat.zero_le 1), List.nil_append]
  obtain ⟨f, vars, hpackage⟩ := h.package
  have hevery : (p.everyCallable.flatMap fun e => Heading.clashes (e.2.scopeHeadings e.1)) =
      p.connectors.flatMap (·.actions.flatMap (·.clashes .action)) ++
        p.functions.flatMap (fun f => f.clashes f.functionKind) ++
        p.services.flatMap (·.resources.flatMap (·.clashes .resource)) := by
    rw [everyCallable, List.flatMap_assoc]
    change (p.callables.flatMap fun e => e.2.clashes e.1) = _
    simp only [callables, List.flatMap_append, List.flatMap_map, List.flatMap_assoc, Callable.kinded,
      hconnectors, hservices, hinit ⟨f, hpackage⟩ (Nat.zero_le 1), List.nil_append, List.append_nil]
  rw [hevery, clashes, List.append_assoc, List.append_assoc, List.append_assoc]

/-! ## Packages that are entered -/

theorem ne_package_of_mem_containers {p : Package} {e : Option SymbolId × List Offer}
    (he : e ∈ p.containers) {o : Offer} (ho : o ∈ e.2) : o.kind ≠ .package := by
  simp only [containers, List.mem_append, List.mem_map, or_assoc] at he
  rcases he with ⟨d, _, rfl⟩ | ⟨d, _, rfl⟩ | ⟨d, _, rfl⟩
  · rcases d.inner_fieldOffers o ho with hk | hk
    · rw [hk]
      decide
    · exact (SymbolKind.of_isCallable hk).1
  all_goals
    obtain ⟨f, _, rfl⟩ := List.mem_map.1 ho
    rintro ⟨⟩

namespace Entered

variable {load : Loader} {site : Site} {s₀ s s₁ s' : Session} {imports : List Import} {p : Package}
  (h : Entered load site s₀ s s₁ imports p s') (hempty : s.store.bindings site.package = [])
include h hempty

/-- In structs, connectors and services, what is refused can be read off the headings. -/
theorem map_refusal_of_mem_containers {e : Option SymbolId × List Offer} (he : e ∈ p.containers) :
    (repeats Offer.text (fun _ => false) e.2).map (·.refusal s'.store) =
      Heading.clashes (e.2.map Offer.heading) := by
  have hmem : e ∈ p.scopes site.package := List.mem_cons_of_mem _ he
  obtain ⟨x, hx, hb⟩ := h.bindings_of_mem_scopes hempty hmem
  refine map_refusal (fun o ho => ?_) (fun o ho => ?_) hb
  · rw [container_of_mem_containers he ho, hx]
  · exact h.follows.has o
      (mem_memberOffers (mem_offers_of_mem_scopes hmem ho) (ne_package_of_mem_containers he ho))

/-- In callables, what is refused can be read off the headings. -/
theorem map_refusal_of_mem_everyCallable {e : SymbolKind × Callable} (he : e ∈ p.everyCallable) :
    (repeats Offer.text (fun _ => false) (e.2.scopeOffers e.1)).map (·.refusal s'.store) =
      Heading.clashes (e.2.scopeHeadings e.1) := by
  obtain ⟨x, hx, hb⟩ := h.bindings_of_mem_everyCallable hempty he
  rw [← Callable.map_heading_scopeOffers]
  refine map_refusal (fun o ho => ?_) (fun o ho => ?_) hb
  · rw [Callable.container_of_mem_scopeOffers ho, hx]
  · refine h.follows.has o (mem_memberOffers (c := site.package) ?_ ?_)
    · rw [← h.placed.filter_callable he] at ho
      exact List.mem_of_mem_filter ho
    · rcases List.mem_append.1 ho with ho | ho
      · obtain ⟨v, _, ho⟩ := List.mem_flatMap.1 ho
        rcases VarDecl.inner_of_mem_offers ho with hk | hk
        · rw [hk]
          nofun
        · exact (SymbolKind.of_isCallable hk).1
      · obtain ⟨w, _, rfl⟩ := List.mem_map.1 ho
        nofun

/-- What is refused outside of the scope of the package can be read off the declarations. -/
theorem map_refusal_offers :
    ((repeats Offer.place (fun _ => false) (p.offers site.package)).map (·.refusal s'.store)).Perm
      ((repeats Offer.text (fun _ => false) (p.scopeOffers site.package)).map (·.refusal s'.store) ++
        p.clashes) := by
  have hplaced := h.placed.repeats_offers.trans
    ((h.placed.repeats_innerOffers.append_left _).append_left _)
  rw [h.initialized.clashes_eq, ← map_heading_containers]
  refine (hplaced.map (·.refusal s'.store)).trans (List.Perm.of_eq ?_)
  rw [List.map_append, List.map_append, List.map_flatMap, List.map_flatMap, List.flatMap_map]
  refine congrArg (_ ++ ·) (congrArg₂ (· ++ ·) (List.flatMap_congr fun e he => ?_)
    (List.flatMap_congr fun e he => ?_))
  · exact h.map_refusal_of_mem_containers hempty he
  · exact h.map_refusal_of_mem_everyCallable hempty he

/-- If the names in the scope of a package are distinct, entering its members reports as redeclared
    what is so in the other scopes. -/
theorem refusals_perm (hdistinct : ((p.scopeOffers site.package).map Offer.text).Nodup) :
    s'.store.refusals.Perm (s₁.store.refusals ++ p.clashes) := by
  have himports : repeats Offer.place s.store.taken (Import.offers site.package p.imports) = [] := by
    have hsub : ((Import.offers site.package p.imports).map Offer.text).Nodup := by
      refine hdistinct.sublist (List.Sublist.map _ ?_)
      simp only [scopeOffers, List.append_assoc]
      exact List.sublist_append_left _ _
    rw [Offer.repeats_place fun o ho => Import.container_of_mem_offers ho]
    exact repeats_of_nodup hsub fun o _ => taken_of_bindings_eq_nil hempty o.text
  have hperm := h.map_refusal_offers hempty
  rw [(h.occurrences_offers hempty).2, himports, List.nil_append,
    repeats_of_nodup hdistinct fun _ _ => rfl, List.map_nil, List.nil_append] at hperm
  rw [h.members.refusals h.opens.sound.store]
  exact hperm.append_left _

end Entered

end Package

end Binder
