import Binder.Proofs.Entry.Import

/-!
# What goes to which scope

The offers of a package come stage by stage, and each goes to the scope of the package, to the scope
of a struct, connector or service, or into a callable. Sorted by where they go, the offers to the
scope of the package are the imports, the types, functions and variables and the initializers; those
to the scope of a container are its fields, actions or resources.

* `Package.scopeOffers`, `Package.containers`, `Package.innerOffers`: the offers, sorted.
* `Package.HasCallable`, `Package.mem_callables`: what the callables of a package are.
* `Package.leveled`: the offers as they come, each with where it goes.
* `Package.container_of_mem_leveled`: where the offers go.
* `Package.Levels.filter_offers`: the offers to a scope.
-/

namespace Binder

/-! ## The offers, sorted -/

namespace Connector

/-- The actions, as they are offered to the scope of the connector. -/
def scopeOffers (d : Connector) : List Offer := d.actions.map (·.memberOffer d.symbol .action)

end Connector

namespace Service

/-- The resources, as they are offered to the scope of the service. -/
def scopeOffers (d : Service) : List Offer := d.resources.map (·.memberOffer d.symbol .resource)

end Service

namespace Callable

/-- What is in the callables of a list, each with its kind. -/
def innersOffers (callables : List (SymbolKind × Callable)) : List Offer :=
  callables.flatMap fun e => e.2.innerOffers e.1

/-- A function or method with its kind. -/
def kinded (f : Callable) : SymbolKind × Callable := (f.functionKind, f)

end Callable

namespace Package

variable (c : SymbolId) (p : Package)

/-- What a package with the symbol `c` offers to any scope, in order. -/
def offers : List Offer := Import.offers c p.imports ++ p.memberOffers (some c)

/-- What a package with the symbol `c` offers to its own scope, in order. -/
def scopeOffers : List Offer :=
  Import.offers c p.imports ++ p.structs.map (·.offer (some c)) ++
    p.connectors.flatMap
      (fun d => d.offer (some c) :: d.initializer.toList.map (·.functionOffer (some c))) ++
    p.services.map (·.offer (some c)) ++
    p.functions.map (·.functionOffer (some c)) ++
    p.services.flatMap (fun d => d.initializer.toList.map (·.functionOffer (some c))) ++
    p.vars.flatMap (·.offers (some c)) ++
    p.initializer.toList.map (·.functionOffer (some c))

/-- The structs, connectors and services, by their symbols, with what is offered to their scopes. -/
def containers : List (Option SymbolId × List Offer) :=
  p.structs.map (fun d => (d.symbol, d.fieldOffers)) ++
    p.connectors.map (fun d => (d.symbol, d.scopeOffers)) ++
    p.services.map (fun d => (d.symbol, d.scopeOffers))

/-- The callables of a package, each with its kind. -/
def callables : List (SymbolKind × Callable) :=
  p.connectors.flatMap (fun d => d.initializer.toList.map (·.kinded)) ++
    p.connectors.flatMap (fun d => d.actions.map (SymbolKind.action, ·)) ++
    p.functions.map (·.kinded) ++
    p.services.flatMap (fun d =>
      d.initializer.toList.map (·.kinded) ++ d.resources.map (SymbolKind.resource, ·)) ++
    p.initializer.toList.map (·.kinded)

/-- Where in a package a callable, with its kind, is written or was made. -/
inductive HasCallable : SymbolKind × Callable → Prop
  | connectorInitializer {d : Connector} {f : Callable} :
      d ∈ p.connectors → f ∈ d.initializer.toList → HasCallable f.kinded
  | action {d : Connector} {f : Callable} :
      d ∈ p.connectors → f ∈ d.actions → HasCallable (.action, f)
  | function {f : Callable} : f ∈ p.functions → HasCallable f.kinded
  | serviceInitializer {d : Service} {f : Callable} :
      d ∈ p.services → f ∈ d.initializer.toList → HasCallable f.kinded
  | resource {d : Service} {f : Callable} :
      d ∈ p.services → f ∈ d.resources → HasCallable (.resource, f)
  | initializer {f : Callable} : f ∈ p.initializer.toList → HasCallable f.kinded

/-- What the callables of a package offer to their own scopes and those of their workers. -/
def innerOffers : List Offer := Callable.innersOffers p.callables

variable {p} {e : SymbolKind × Callable}

/-- The callables of a package are those of its connectors, functions and services, and its own
    initializer. -/
theorem mem_callables : e ∈ p.callables ↔ p.HasCallable e := by
  simp only [callables, List.mem_append, List.mem_map, List.mem_flatMap, or_assoc]
  constructor
  · rintro (⟨d, hd, f, hf, rfl⟩ | ⟨d, hd, f, hf, rfl⟩ | ⟨f, hf, rfl⟩ |
      ⟨d, hd, ⟨f, hf, rfl⟩ | ⟨f, hf, rfl⟩⟩ | ⟨f, hf, rfl⟩)
    · exact .connectorInitializer hd hf
    · exact .action hd hf
    · exact .function hf
    · exact .serviceInitializer hd hf
    · exact .resource hd hf
    · exact .initializer hf
  · rintro (⟨hd, hf⟩ | ⟨hd, hf⟩ | hf | ⟨hd, hf⟩ | ⟨hd, hf⟩ | hf)
    · exact .inl ⟨_, hd, _, hf, rfl⟩
    · exact .inr (.inl ⟨_, hd, _, hf, rfl⟩)
    · exact .inr (.inr (.inl ⟨_, hf, rfl⟩))
    · exact .inr (.inr (.inr (.inl ⟨_, hd, .inl ⟨_, hf, rfl⟩⟩)))
    · exact .inr (.inr (.inr (.inl ⟨_, hd, .inr ⟨_, hf, rfl⟩⟩)))
    · exact .inr (.inr (.inr (.inr ⟨_, hf, rfl⟩)))

end Package

/-! ## Where the offers go -/

/-- Whose scope an offer goes to. -/
inductive Level
  | package | container | callable
deriving DecidableEq

/-- Offers that all go to the same level. -/
def Level.all (l : Level) (os : List Offer) : List (Level × Offer) := os.map (l, ·)

namespace Callable

/-- What a callable offers, itself to the given level. -/
def leveled (l : Level) (c : Option SymbolId) (text : String) (kind : SymbolKind) (f : Callable) :
    List (Level × Offer) :=
  (l, f.head.offer c text kind) :: Level.callable.all (f.innerOffers kind)

/-- What a function or method of a package offers. -/
def functionLeveled (c : Option SymbolId) (f : Callable) : List (Level × Offer) :=
  f.leveled .package c f.functionName f.functionKind

/-- What an action or resource offers. -/
def memberLeveled (c : Option SymbolId) (kind : SymbolKind) (f : Callable) : List (Level × Offer) :=
  f.leveled .container c f.head.name.text kind

end Callable

namespace Package

/-- What a package with the symbol `c` offers, each with where it goes. -/
def leveled (c : SymbolId) (p : Package) : List (Level × Offer) :=
  Level.package.all (Import.offers c p.imports) ++
    Level.package.all (p.structs.map (·.offer (some c))) ++
    p.connectors.flatMap (fun d => (Level.package, d.offer (some c)) ::
      d.initializer.toList.flatMap (·.functionLeveled (some c))) ++
    Level.package.all (p.services.map (·.offer (some c))) ++
    p.structs.flatMap (fun d => Level.container.all d.fieldOffers) ++
    p.connectors.flatMap (fun d => d.actions.flatMap (·.memberLeveled d.symbol .action)) ++
    p.functions.flatMap (·.functionLeveled (some c)) ++
    p.services.flatMap (fun d => d.initializer.toList.flatMap (·.functionLeveled (some c)) ++
      d.resources.flatMap (·.memberLeveled d.symbol .resource)) ++
    Level.package.all (p.vars.flatMap (·.offers (some c))) ++
    p.initializer.toList.flatMap (·.functionLeveled (some c))

end Package

/-- The offers that go to a level. -/
def atLevel (l : Level) (os : List (Level × Offer)) : List Offer :=
  (os.filter (·.1 == l)).map (·.2)

section

variable (l : Level)

theorem atLevel_append (os os' : List (Level × Offer)) :
    atLevel l (os ++ os') = atLevel l os ++ atLevel l os' := by
  rw [atLevel, List.filter_append, List.map_append]
  rfl

theorem atLevel_flatMap {α : Type} (f : α → List (Level × Offer)) (xs : List α) :
    atLevel l (xs.flatMap f) = xs.flatMap fun x => atLevel l (f x) := by
  rw [atLevel, List.filter_flatMap, List.map_flatMap]
  rfl

theorem atLevel_cons (k : Level) (o : Offer) (os : List (Level × Offer)) :
    atLevel l ((k, o) :: os) = (if k = l then [o] else []) ++ atLevel l os := by
  rw [atLevel, List.filter_cons]
  by_cases h : k = l
  · rw [if_pos (beq_iff_eq.2 h), if_pos h]
    rfl
  · rw [if_neg (by simpa using h), if_neg h]
    rfl

theorem atLevel_all (k : Level) (os : List Offer) :
    atLevel l (k.all os) = if k = l then os else [] := by
  induction os with
  | nil => split <;> rfl
  | cons o os ih =>
    rw [Level.all] at ih ⊢
    rw [List.map_cons, atLevel_cons, ih]
    split <;> rfl

theorem map_all (k : Level) (os : List Offer) : (k.all os).map (·.2) = os := by
  rw [Level.all, List.map_map]
  exact List.map_id _

end

namespace Callable

theorem map_leveled (l : Level) (c : Option SymbolId) (text : String) (kind : SymbolKind)
    (f : Callable) : (f.leveled l c text kind).map (·.2) = f.offers c text kind := by
  rw [leveled, List.map_cons, map_all, offers_eq]

variable (c : Option SymbolId) (kind : SymbolKind) (fs : List Callable)

theorem atLevel_functions (l : Level) : atLevel l (fs.flatMap (·.functionLeveled c)) =
    match l with
    | .package => fs.map (·.functionOffer c)
    | .container => []
    | .callable => innersOffers (fs.map (·.kinded)) := by
  rw [atLevel_flatMap]
  simp only [functionLeveled, leveled, atLevel_cons, atLevel_all]
  cases l
  · exact List.map_eq_flatMap.symm
  · exact List.flatMap_eq_nil_iff.2 fun _ _ => rfl
  · rw [innersOffers, List.flatMap_map]
    rfl

theorem atLevel_members (l : Level) : atLevel l (fs.flatMap (·.memberLeveled c kind)) =
    match l with
    | .package => []
    | .container => fs.map (·.memberOffer c kind)
    | .callable => innersOffers (fs.map (kind, ·)) := by
  rw [atLevel_flatMap]
  simp only [memberLeveled, leveled, atLevel_cons, atLevel_all]
  cases l
  · exact List.flatMap_eq_nil_iff.2 fun _ _ => rfl
  · exact List.map_eq_flatMap.symm
  · rw [innersOffers, List.flatMap_map]
    rfl

end Callable

namespace Package

variable (c : SymbolId) (p : Package)

theorem map_leveled : (p.leveled c).map (·.2) = p.offers c := by
  simp only [leveled, offers, memberOffers, List.map_append, map_all, List.map_flatMap,
    List.map_cons, Callable.functionLeveled, Callable.memberLeveled, Callable.map_leveled,
    List.append_assoc]
  rfl

/-- The parts of the leveled offers of a package, one for each of its lists. -/
theorem atLevel_eq (l : Level) : atLevel l (p.leveled c) =
    (if .package = l then Import.offers c p.imports else []) ++
    (if .package = l then p.structs.map (·.offer (some c)) else []) ++
    p.connectors.flatMap (fun d => (if .package = l then [d.offer (some c)] else []) ++
      atLevel l (d.initializer.toList.flatMap (·.functionLeveled (some c)))) ++
    (if .package = l then p.services.map (·.offer (some c)) else []) ++
    p.structs.flatMap (fun d => if .container = l then d.fieldOffers else []) ++
    p.connectors.flatMap (fun d => atLevel l (d.actions.flatMap (·.memberLeveled d.symbol .action))) ++
    atLevel l (p.functions.flatMap (·.functionLeveled (some c))) ++
    p.services.flatMap (fun d =>
      atLevel l (d.initializer.toList.flatMap (·.functionLeveled (some c))) ++
      atLevel l (d.resources.flatMap (·.memberLeveled d.symbol .resource))) ++
    (if .package = l then p.vars.flatMap (·.offers (some c)) else []) ++
    atLevel l (p.initializer.toList.flatMap (·.functionLeveled (some c))) := by
  simp only [leveled, atLevel_append, atLevel_all, atLevel_flatMap, atLevel_cons]

theorem flatMap_nil_eq {α β : Type} (xs : List α) : (xs.flatMap fun _ => ([] : List β)) = [] :=
  List.flatMap_eq_nil_iff.2 fun _ _ => rfl

theorem atLevel_package : atLevel .package (p.leveled c) = p.scopeOffers c := by
  rw [atLevel_eq]
  simp only [Callable.atLevel_functions, Callable.atLevel_members, if_true, reduceCtorEq, if_false,
    flatMap_nil_eq, List.append_nil]
  rfl

theorem atLevel_container : atLevel .container (p.leveled c) = p.containers.flatMap (·.2) := by
  rw [atLevel_eq, containers]
  simp only [Callable.atLevel_functions, Callable.atLevel_members, if_true, reduceCtorEq, if_false,
    flatMap_nil_eq, List.append_nil, List.nil_append, List.flatMap_append, List.flatMap_map]
  rfl

theorem atLevel_callable : atLevel .callable (p.leveled c) = p.innerOffers := by
  rw [atLevel_eq, innerOffers, callables]
  simp only [Callable.atLevel_functions, Callable.atLevel_members, reduceCtorEq, if_false,
    flatMap_nil_eq, List.append_nil, List.nil_append, Callable.innersOffers, List.flatMap_append,
    List.flatMap_map, List.flatMap_assoc]

end Package

/-! ## The containers of the offers -/

theorem VarDecl.container_of_mem_offers {c : Option SymbolId} {v : VarDecl} {o : Offer}
    (h : o ∈ v.offers c) : o.container = c := by
  unfold offers at h
  split at h
  · exact absurd h List.not_mem_nil
  · rw [List.mem_singleton.1 h]
    rfl

namespace Callable

mutual

/-- What is in a callable goes to its own scope or to that of a worker in it. -/
theorem container_of_mem_innerOffers (kind : SymbolKind) : ∀ (f : Callable) (o : Offer),
    o ∈ f.innerOffers kind → o.container = f.head.symbol ∨
      ∃ o' ∈ f.innerOffers kind, o'.kind = .worker ∧ o.container = o'.symbol
  | mk head workers, o, ho => by
    rcases List.mem_append.1 ho with ho | ho
    · obtain ⟨v, _, ho⟩ := List.mem_flatMap.1 ho
      exact .inl (VarDecl.container_of_mem_offers ho)
    · refine (container_of_mem_workerOffers head.symbol workers o ho).imp id ?_
      exact fun ⟨o', ho', h⟩ => ⟨o', List.mem_append_right _ ho', h⟩

theorem container_of_mem_workerOffers (c : Option SymbolId) : ∀ (workers : List Callable)
    (o : Offer), o ∈ workerOffers c workers → o.container = c ∨
      ∃ o' ∈ workerOffers c workers, o'.kind = .worker ∧ o.container = o'.symbol
  | [], o, ho => absurd ho List.not_mem_nil
  | worker :: rest, o, ho => by
    rw [workerOffers, offers_eq, List.cons_append] at ho ⊢
    rcases List.mem_cons.1 ho with rfl | ho
    · exact .inl rfl
    rcases List.mem_append.1 ho with ho | ho
    · rcases container_of_mem_innerOffers .worker worker o ho with h | ⟨o', ho', h⟩
      · exact .inr ⟨_, List.mem_cons_self, rfl, h⟩
      · exact .inr ⟨o', List.mem_cons_of_mem _ (List.mem_append_left _ ho'), h⟩
    · refine (container_of_mem_workerOffers c rest o ho).imp id ?_
      exact fun ⟨o', ho', h⟩ =>
        ⟨o', List.mem_cons_of_mem _ (List.mem_append_right _ ho'), h⟩

end

end Callable

theorem mem_atLevel {l : Level} {os : List (Level × Offer)} {o : Offer} :
    o ∈ atLevel l os ↔ (l, o) ∈ os := by
  rw [atLevel, List.mem_map]
  constructor
  · rintro ⟨⟨k, o'⟩, hmem, rfl⟩
    obtain ⟨hmem, hk⟩ := List.mem_filter.1 hmem
    exact beq_iff_eq.1 hk ▸ hmem
  · exact fun h => ⟨(l, o), List.mem_filter.2 ⟨h, beq_self_eq_true l⟩, rfl⟩

namespace Package

variable {c : SymbolId} {p : Package} {o : Offer}

theorem mem_offers_iff : o ∈ p.offers c ↔
    o ∈ p.scopeOffers c ∨ (∃ e ∈ p.containers, o ∈ e.2) ∨ o ∈ p.innerOffers := by
  rw [← List.mem_flatMap, ← atLevel_package, ← atLevel_container c, ← atLevel_callable c,
    mem_atLevel, mem_atLevel, mem_atLevel, ← map_leveled, List.mem_map]
  constructor
  · rintro ⟨⟨l, o⟩, h, rfl⟩
    cases l
    · exact .inl h
    · exact .inr (.inl h)
    · exact .inr (.inr h)
  · rintro (h | h | h) <;> exact ⟨_, h, rfl⟩

/-- Only imports offer packages. -/
theorem mem_memberOffers (ho : o ∈ p.offers c) (hk : o.kind ≠ .package) :
    o ∈ p.memberOffers (some c) := by
  rcases List.mem_append.1 ho with ho | ho
  · obtain ⟨i, _, rfl⟩ := List.mem_map.1 ho
    exact absurd rfl hk
  · exact ho

theorem functionOffer_mem_scopeOffers (c : SymbolId) {f : Callable} (hf : f ∈ p.functions) :
    f.functionOffer (some c) ∈ p.scopeOffers c := by
  simp only [scopeOffers, List.mem_append]
  exact .inl (.inl (.inl (.inr (List.mem_map_of_mem hf))))

theorem connectorInitializer_mem_scopeOffers (c : SymbolId) {d : Connector}
    (hd : d ∈ p.connectors) {f : Callable} (hf : f ∈ d.initializer.toList) :
    f.functionOffer (some c) ∈ p.scopeOffers c := by
  simp only [scopeOffers, List.mem_append, or_assoc]
  refine .inr (.inr (.inl (List.mem_flatMap.2 ⟨d, hd, ?_⟩)))
  exact List.mem_cons_of_mem _ (List.mem_map_of_mem hf)

theorem serviceInitializer_mem_scopeOffers (c : SymbolId) {d : Service}
    (hd : d ∈ p.services) {f : Callable} (hf : f ∈ d.initializer.toList) :
    f.functionOffer (some c) ∈ p.scopeOffers c := by
  simp only [scopeOffers, List.mem_append]
  refine .inl (.inl (.inr (List.mem_flatMap.2 ⟨d, hd, ?_⟩)))
  exact List.mem_map_of_mem hf

theorem initializer_mem_scopeOffers (c : SymbolId) {f : Callable}
    (hf : f ∈ p.initializer.toList) : f.functionOffer (some c) ∈ p.scopeOffers c :=
  List.mem_append_right _ (List.mem_map_of_mem hf)

theorem container_of_mem_scopeOffers (h : o ∈ p.scopeOffers c) : o.container = some c := by
  simp only [scopeOffers, List.mem_append, Import.offers, List.mem_map, List.mem_flatMap,
    List.mem_cons] at h
  rcases h with (((((((⟨_, _, rfl⟩ | ⟨_, _, rfl⟩) | ⟨_, _, rfl | ⟨_, _, rfl⟩⟩) | ⟨_, _, rfl⟩) |
    ⟨_, _, rfl⟩) | ⟨_, _, _, _, rfl⟩) | ⟨_, _, h⟩) | ⟨_, _, rfl⟩)
  case inl.inr => exact VarDecl.container_of_mem_offers h
  all_goals rfl

theorem container_of_mem_containers {e : Option SymbolId × List Offer} (he : e ∈ p.containers)
    (ho : o ∈ e.2) : o.container = e.1 := by
  simp only [containers, List.mem_append, List.mem_map] at he
  rcases he with (⟨d, _, rfl⟩ | ⟨d, _, rfl⟩) | ⟨d, _, rfl⟩
  · obtain ⟨v, _, ho⟩ := List.mem_flatMap.1 ho
    exact VarDecl.container_of_mem_offers ho
  all_goals
    obtain ⟨f, _, rfl⟩ := List.mem_map.1 ho
    rfl

/-- The structs, connectors and services, as they are offered to the scope of the package. -/
def typeOffers (c : SymbolId) (p : Package) : List Offer :=
  p.structs.map (·.offer (some c)) ++ p.connectors.map (·.offer (some c)) ++
    p.services.map (·.offer (some c))

theorem isType_of_mem_typeOffers (h : o ∈ p.typeOffers c) : o.kind.isType := by
  simp only [typeOffers, List.mem_append, List.mem_map] at h
  rcases h with (⟨d, _, rfl⟩ | ⟨d, _, rfl⟩) | ⟨d, _, rfl⟩ <;> rfl

theorem map_containers (c : SymbolId) (p : Package) :
    p.containers.map (·.1) = (p.typeOffers c).map Offer.symbol := by
  simp only [containers, typeOffers, List.map_append, List.map_map]
  rfl

theorem typeOffers_sublist (c : SymbolId) (p : Package) :
    (p.typeOffers c).Sublist (p.memberOffers (some c)) := by
  have hconnectors : (p.connectors.map (·.offer (some c))).Sublist (p.connectors.flatMap
      fun d => d.offer (some c) :: d.initializerOffers (some c)) := by
    induction p.connectors with
    | nil => exact .slnil
    | cons d rest ih => exact (ih.trans (List.sublist_append_right _ _)).cons_cons _
  simp only [typeOffers, memberOffers, List.append_assoc]
  refine (List.Sublist.refl _).append (hconnectors.append ?_)
  exact List.sublist_append_left _ _

/-- The callables of a package are offered to its scope or to that of a container. -/
theorem mem_offers_of_mem_callables {c : SymbolId} {e : SymbolKind × Callable}
    (he : e ∈ p.callables) : ∃ o ∈ p.offers c, o.kind.isCallable ∧ e.2.head.symbol = o.symbol := by
  have hfunction : ∀ {f : Callable}, f.functionOffer (some c) ∈ p.scopeOffers c →
      ∃ o ∈ p.offers c, o.kind.isCallable ∧ f.head.symbol = o.symbol := fun hf =>
    ⟨_, mem_offers_iff.2 (.inl hf), Callable.isCallable_functionKind _, rfl⟩
  have hmember : ∀ {f : Callable} {kind : SymbolKind} {e : Option SymbolId × List Offer},
      kind.isCallable → e ∈ p.containers → f.memberOffer e.1 kind ∈ e.2 →
        ∃ o ∈ p.offers c, o.kind.isCallable ∧ f.head.symbol = o.symbol := fun hk he hf =>
    ⟨_, mem_offers_iff.2 (.inr (.inl ⟨_, he, hf⟩)), hk, rfl⟩
  simp only [containers, List.mem_append, or_assoc] at hmember
  cases mem_callables.1 he with
  | connectorInitializer hd hf => exact hfunction (connectorInitializer_mem_scopeOffers c hd hf)
  | action hd hf =>
    exact hmember rfl (.inr (.inl (List.mem_map_of_mem hd))) (List.mem_map_of_mem hf)
  | function hf => exact hfunction (functionOffer_mem_scopeOffers c hf)
  | serviceInitializer hd hf => exact hfunction (serviceInitializer_mem_scopeOffers c hd hf)
  | resource hd hf =>
    exact hmember rfl (.inr (.inr (List.mem_map_of_mem hd))) (List.mem_map_of_mem hf)
  | initializer hf => exact hfunction (initializer_mem_scopeOffers c hf)

/-- What is in callables goes to the scope of a callable. -/
theorem container_of_mem_innerOffers (c : SymbolId) (h : o ∈ p.innerOffers) :
    ∃ o' ∈ p.offers c, o'.kind.isCallable ∧ o.container = o'.symbol := by
  obtain ⟨e, he, ho⟩ := List.mem_flatMap.1 h
  rcases e.2.container_of_mem_innerOffers e.1 o ho with hc | ⟨o', ho', hk, hc⟩
  · obtain ⟨o', ho', hk, hsymbol⟩ := mem_offers_of_mem_callables (c := c) he
    exact ⟨o', ho', hk, hc.trans hsymbol⟩
  · refine ⟨o', mem_offers_iff.2 (.inr (.inr (List.mem_flatMap.2 ⟨e, he, ho'⟩))), ?_, hc⟩
    rw [hk]
    rfl

end Package

/-! ## One scope after another -/

namespace Offer

/-- Places are taken in each scope by itself. -/
theorem filter_firsts_place (P : Option SymbolId → Bool) (taken : Option SymbolId × String → Bool)
    (os : List Offer) : (firsts place taken os).filter (fun o => P o.container) =
      firsts place taken (os.filter fun o => P o.container) :=
  @filter_firsts _ _ _ place taken _ (fun k => P k.1) os

theorem filter_repeats_place (P : Option SymbolId → Bool) (taken : Option SymbolId × String → Bool)
    (os : List Offer) : (repeats place taken os).filter (fun o => P o.container) =
      repeats place taken (os.filter fun o => P o.container) :=
  @filter_repeats _ _ _ place taken _ (fun k => P k.1) os

variable {c : Option SymbolId} {os : List Offer} (h : ∀ o ∈ os, o.container = c)
include h

/-- The places in one scope are the names. -/
theorem firsts_place (taken : Option SymbolId × String → Bool) :
    firsts place taken os = firsts text (fun t => taken (c, t)) os :=
  firsts_rename (fun k k' => by simp) fun o ho => congrArg (·, o.text) (h o ho)

theorem repeats_place (taken : Option SymbolId × String → Bool) :
    repeats place taken os = repeats text (fun t => taken (c, t)) os :=
  repeats_rename (fun k k' => by simp) fun o ho => congrArg (·, o.text) (h o ho)

end Offer

section

variable {scopes : List (Option SymbolId × List Offer)}

/-- The offers to one of several scopes. -/
theorem filter_flatMap_scopes (hscopes : ∀ e ∈ scopes, ∀ o ∈ e.2, o.container = e.1)
    (hnodup : (scopes.map (·.1)).Nodup) {e : Option SymbolId × List Offer} (he : e ∈ scopes) :
    (scopes.flatMap (·.2)).filter (·.container == e.1) = e.2 := by
  induction scopes with
  | nil => exact absurd he List.not_mem_nil
  | cons d rest ih =>
    obtain ⟨hd, hnodup⟩ := List.nodup_cons.1 hnodup
    rw [List.flatMap_cons, List.filter_append]
    rcases List.mem_cons.1 he with rfl | he
    · have hself : e.2.filter (·.container == e.1) = e.2 := List.filter_eq_self.2 fun o ho =>
        beq_iff_eq.2 (hscopes e List.mem_cons_self o ho)
      have hrest : (rest.flatMap (·.2)).filter (·.container == e.1) = [] :=
        List.filter_eq_nil_iff.2 fun o ho heq => by
          obtain ⟨e', he', ho⟩ := List.mem_flatMap.1 ho
          have hc := hscopes e' (List.mem_cons_of_mem _ he') o ho
          rw [beq_iff_eq.1 heq] at hc
          exact hd (List.mem_map.2 ⟨e', he', hc.symm⟩)
      rw [hself, hrest, List.append_nil]
    · have hnone : d.2.filter (·.container == e.1) = [] :=
        List.filter_eq_nil_iff.2 fun o ho heq => by
          have hc := hscopes d List.mem_cons_self o ho
          rw [beq_iff_eq.1 heq] at hc
          exact hd (List.mem_map.2 ⟨e, he, hc⟩)
      rw [hnone, List.nil_append]
      exact ih (fun e he => hscopes e (List.mem_cons_of_mem _ he)) hnodup he

/-- What is repeated in several scopes is repeated in one of them. -/
theorem repeats_flatMap_scopes (hscopes : ∀ e ∈ scopes, ∀ o ∈ e.2, o.container = e.1)
    (hnodup : (scopes.map (·.1)).Nodup) :
    repeats Offer.place (fun _ => false) (scopes.flatMap (·.2)) =
      scopes.flatMap fun e => repeats Offer.text (fun _ => false) e.2 := by
  induction scopes with
  | nil => rfl
  | cons d rest ih =>
    obtain ⟨hd, hnodup⟩ := List.nodup_cons.1 hnodup
    have hrest : repeats Offer.place (fun k => (d.2.map Offer.place).contains k || false)
        (rest.flatMap (·.2)) = repeats Offer.place (fun _ => false) (rest.flatMap (·.2)) :=
      repeats_congr fun o ho => by
        -- No offer to another scope has its place in the first one.
        rw [Bool.or_false, ← Bool.not_eq_true, List.contains_iff_mem]
        intro hmem
        obtain ⟨o', ho', hplace⟩ := List.mem_map.1 hmem
        obtain ⟨e', he', ho⟩ := List.mem_flatMap.1 ho
        have hc := hscopes d List.mem_cons_self o' ho'
        rw [show o'.container = o.container from congrArg Prod.fst hplace,
          hscopes e' (List.mem_cons_of_mem _ he') o ho] at hc
        exact hd (List.mem_map.2 ⟨e', he', hc⟩)
    rw [List.flatMap_cons, List.flatMap_cons, repeats_append, hrest,
      Offer.repeats_place (hscopes d List.mem_cons_self),
      ih (fun e he => hscopes e (List.mem_cons_of_mem _ he)) hnodup]

end

/-! ## The offers to a scope -/

namespace Package

/-- The symbols that the members of a package with the symbol `c` are offered with, and their
    kinds. -/
structure Placed (kindOf : SymbolId → Option SymbolKind) (c : SymbolId) (p : Package) : Prop where
  package : kindOf c = some .package
  symbol : ∀ o ∈ p.memberOffers (some c), ∃ x, o.symbol = some x ∧ kindOf x = some o.kind
  nodup : ((p.memberOffers (some c)).map Offer.symbol).Nodup

namespace Placed

variable {kindOf : SymbolId → Option SymbolKind} {c : SymbolId} {p : Package} {o : Offer}
  (h : Placed kindOf c p)
include h

theorem nodup_containers : (p.containers.map (·.1)).Nodup := by
  rw [map_containers c]
  exact ((typeOffers_sublist c p).map Offer.symbol).nodup h.nodup

theorem kindOf_container {e : Option SymbolId × List Offer} (he : e ∈ p.containers) :
    ∃ x k, e.1 = some x ∧ kindOf x = some k ∧ k.isType := by
  have hmem := List.mem_map_of_mem (f := (·.1)) he
  rw [map_containers c] at hmem
  obtain ⟨o, ho, hsymbol⟩ := List.mem_map.1 hmem
  obtain ⟨x, hx, hk⟩ := h.symbol o ((typeOffers_sublist c p).subset ho)
  exact ⟨x, o.kind, hsymbol.symm.trans hx, hk, isType_of_mem_typeOffers ho⟩

/-- The scope of the package is none of the scopes of its containers. -/
theorem package_not_mem : some c ∉ p.containers.map (·.1) := fun hmem => by
  obtain ⟨e, he, hc⟩ := List.mem_map.1 hmem
  obtain ⟨x, k, hx, hk, htype⟩ := h.kindOf_container he
  cases hx.symm.trans hc
  cases hk.symm.trans h.package
  cases htype

/-- A callable is neither the package nor one of its containers. -/
theorem callable_not_mem {x : SymbolId} {k : SymbolKind} (hk : kindOf x = some k)
    (hcallable : k.isCallable) : some x ≠ some c ∧ some x ∉ p.containers.map (·.1) := by
  obtain ⟨hpackage, _, htype⟩ := SymbolKind.of_isCallable hcallable
  refine ⟨fun hc => ?_, fun hmem => ?_⟩
  · cases hc
    exact hpackage (Option.some.inj (hk.symm.trans h.package))
  · obtain ⟨e, he, hc⟩ := List.mem_map.1 hmem
    obtain ⟨y, k', hy, hk', htype'⟩ := h.kindOf_container he
    cases hy.symm.trans hc
    cases hk.symm.trans hk'
    exact htype htype'

/-- A scope of a callable is none of those scopes. -/
theorem inner_not_mem (ho : o ∈ p.innerOffers) :
    o.container ≠ some c ∧ o.container ∉ p.containers.map (·.1) := by
  obtain ⟨o', ho', hcallable, hcontainer⟩ := container_of_mem_innerOffers c ho
  obtain ⟨x, hx, hk⟩ := h.symbol o' (mem_memberOffers ho' (SymbolKind.of_isCallable hcallable).1)
  rw [hcontainer, hx]
  exact h.callable_not_mem hk hcallable

/-- Where an offer goes can be told by its level. -/
theorem container_of_mem_leveled {l : Level} (ho : (l, o) ∈ p.leveled c) :
    (o.container == some c) = (l == .package) ∧
      (p.containers.map (·.1)).contains o.container = (l == .container) := by
  have hlevel := mem_atLevel.2 ho
  have hne := h.package_not_mem
  have hcontains : ∀ k, k ∉ p.containers.map (·.1) →
      (p.containers.map (·.1)).contains k = false := fun k hk => by
    rw [← Bool.not_eq_true, List.contains_iff_mem]
    exact hk
  cases l with
  | package =>
    rw [atLevel_package] at hlevel
    rw [container_of_mem_scopeOffers hlevel]
    exact ⟨beq_self_eq_true _, hcontains _ hne⟩
  | container =>
    rw [atLevel_container] at hlevel
    obtain ⟨e, he, hoe⟩ := List.mem_flatMap.1 hlevel
    rw [container_of_mem_containers he hoe]
    have hmem : e.1 ∈ p.containers.map (·.1) := List.mem_map_of_mem he
    exact ⟨beq_eq_false_iff_ne.2 fun heq => hne (heq ▸ hmem), List.contains_iff_mem.2 hmem⟩
  | callable =>
    rw [atLevel_callable] at hlevel
    obtain ⟨hc, hmem⟩ := h.inner_not_mem hlevel
    exact ⟨beq_eq_false_iff_ne.2 hc, hcontains _ hmem⟩

omit h in
/-- The offers to the scopes of a level. -/
theorem filter_offers {P : Option SymbolId → Bool} {l : Level}
    (hP : ∀ k o, (k, o) ∈ p.leveled c → P o.container = (k == l)) :
    (p.offers c).filter (fun o => P o.container) = atLevel l (p.leveled c) := by
  rw [← map_leveled, List.filter_map, atLevel]
  exact congrArg _ (List.filter_congr fun e he => hP e.1 e.2 he)

/-- The offers to the scope of the package. -/
theorem filter_package : (p.offers c).filter (·.container == some c) = p.scopeOffers c := by
  rw [← atLevel_package]
  exact filter_offers (P := (· == some c)) fun _ _ ho => (h.container_of_mem_leveled ho).1

theorem filter_containers :
    (p.offers c).filter (fun o => (p.containers.map (·.1)).contains o.container) =
      p.containers.flatMap (·.2) := by
  rw [← atLevel_container c]
  exact filter_offers (P := (p.containers.map (·.1)).contains) fun _ _ ho =>
    (h.container_of_mem_leveled ho).2

/-- The offers to the scope of a container. -/
theorem filter_container {e : Option SymbolId × List Offer} (he : e ∈ p.containers) :
    (p.offers c).filter (·.container == e.1) = e.2 := by
  have hall := filter_flatMap_scopes
    (fun _ he _ ho => container_of_mem_containers he ho) h.nodup_containers he
  rw [← h.filter_containers, List.filter_filter] at hall
  refine Eq.trans (List.filter_congr fun o _ => ?_) hall
  rw [Bool.eq_iff_iff, Bool.and_eq_true, beq_iff_eq, List.contains_iff_mem]
  exact ⟨fun hc => ⟨hc, hc ▸ List.mem_map_of_mem he⟩, And.left⟩

/-- The offers to the scopes of callables. -/
theorem filter_innerOffers : (p.offers c).filter (fun o => !(o.container == some c) &&
    !(p.containers.map (·.1)).contains o.container) = p.innerOffers := by
  rw [← atLevel_callable c]
  refine filter_offers (P := fun k => !(k == some c) && !(p.containers.map (·.1)).contains k)
    fun l o ho => ?_
  obtain ⟨h₁, h₂⟩ := h.container_of_mem_leveled ho
  rw [h₁, h₂]
  cases l <;> rfl

/-- What is repeated among all offers is repeated in the scope of the package, in that of a
    container, or in callables. -/
theorem repeats_offers : (repeats Offer.place (fun _ => false) (p.offers c)).Perm
    (repeats Offer.text (fun _ => false) (p.scopeOffers c) ++
      (p.containers.flatMap (fun e => repeats Offer.text (fun _ => false) e.2) ++
        repeats Offer.place (fun _ => false) p.innerOffers)) := by
  have hscope : ∀ o ∈ p.scopeOffers c, o.container = some c := fun _ ho =>
    container_of_mem_scopeOffers ho
  have hpackage := Offer.repeats_place hscope fun _ => false
  have hcontainers := repeats_flatMap_scopes
    (fun _ he _ ho => container_of_mem_containers he ho) h.nodup_containers
  rw [← hpackage, ← hcontainers, ← h.filter_package, ← h.filter_containers, ← h.filter_innerOffers]
  rw [← Offer.filter_repeats_place (· == some c),
    ← Offer.filter_repeats_place (p.containers.map (·.1)).contains,
    ← Offer.filter_repeats_place fun k => !(k == some c) && !(p.containers.map (·.1)).contains k]
  refine perm_filter_append _ _ (fun o ho => beq_eq_false_iff_ne.2 fun hc => ?_) _
  exact h.package_not_mem (hc ▸ List.contains_iff_mem.1 ho)

end Placed

end Package

end Binder
