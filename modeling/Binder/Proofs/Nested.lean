import Binder.Proofs.Scopes

/-!
# Everything that is declared

The callables of a package with the workers nested in them, however deep, and the variables declared
in them, in structs and in the package. Whatever is entered of them is among what the package offers
and among its variables. A receiver is entered only if it makes a function a method, so packages are
*regular* in which there are no other receivers.

* `Package.everyCallable`, `Package.everyVar`: what is declared in a package, at any depth.
* `Package.offers_of_mem_everyCallable`: what a callable at any depth offers is offered.
* `Package.forall_everyCallable`: what holds of all callables of a package that is entered.
* `Package.Regular`: packages in which everything that is declared is entered.
* `Package.Regular.of_unbound`: whether a package is regular does not depend on what binding finds
  out.
* `Package.Presets`: the symbols that parts of callables without names are written with.
* `Package.presets_of_mem_everyCallable`: they are still the same when the package is entered.
-/

namespace Binder

/-! ## Callables and variables at any depth -/

/-- The parameters, the receiver and the returns that are written. -/
def CallableHead.vars (h : CallableHead) : List VarDecl :=
  h.params ++ h.receiver.toList ++ h.returns

namespace Callable

mutual

/-- The callable and the workers nested in it, each with its kind. -/
def nested (kind : SymbolKind) : Callable → List (SymbolKind × Callable)
  | mk head workers => (kind, mk head workers) :: nestedWorkers workers

def nestedWorkers : List Callable → List (SymbolKind × Callable)
  | [] => []
  | worker :: rest => nested .worker worker ++ nestedWorkers rest

end

/-- The name that a callable is declared under: that of a method has the receiver in it. -/
def nameAs (kind : SymbolKind) (f : Callable) : String :=
  if kind = .method then f.functionName else f.head.name.text

theorem nameAs_functionKind (f : Callable) : f.nameAs f.functionKind = f.functionName := by
  unfold nameAs functionKind functionName
  cases f.head.receiver <;> rfl

mutual

/-- A callable at any depth offers what the whole offers, and its parts are parts of the whole. -/
theorem offers_of_mem_nested (kind : SymbolKind) (c : Option SymbolId) : ∀ (f : Callable),
    ∀ e ∈ f.nested kind, (∃ c', ∀ o ∈ e.2.offers c' (e.2.nameAs e.1) e.1,
      o ∈ f.offers c (f.nameAs kind) kind) ∧ ∀ v ∈ e.2.head.parts e.1, v ∈ f.allParts kind
  | mk head workers, e, he => by
    rw [nested] at he
    rcases List.mem_cons.1 he with rfl | he
    · exact ⟨⟨c, fun o ho => ho⟩, fun v hv => by
        rw [allParts]
        exact List.mem_append_left _ hv⟩
    · obtain ⟨⟨c', ho⟩, hv⟩ := offers_of_mem_nestedWorkers head.symbol workers e he
      rw [offers, allParts]
      exact ⟨⟨c', fun o h => List.mem_cons_of_mem _ (List.mem_append_right _ (ho o h))⟩,
        fun v h => List.mem_append_right _ (hv v h)⟩

theorem offers_of_mem_nestedWorkers (c : Option SymbolId) : ∀ (workers : List Callable),
    ∀ e ∈ nestedWorkers workers, (∃ c', ∀ o ∈ e.2.offers c' (e.2.nameAs e.1) e.1,
      o ∈ workerOffers c workers) ∧ ∀ v ∈ e.2.head.parts e.1, v ∈ workerParts workers
  | [], e, he => absurd he List.not_mem_nil
  | worker :: rest, e, he => by
    rw [nestedWorkers] at he
    rw [workerOffers, workerParts]
    rcases List.mem_append.1 he with he | he
    · obtain ⟨⟨c', ho⟩, hv⟩ := offers_of_mem_nested .worker c worker e he
      exact ⟨⟨c', fun o h => List.mem_append_left _ (ho o h)⟩,
        fun v h => List.mem_append_left _ (hv v h)⟩
    · obtain ⟨⟨c', ho⟩, hv⟩ := offers_of_mem_nestedWorkers c rest e he
      exact ⟨⟨c', fun o h => List.mem_append_right _ (ho o h)⟩,
        fun v h => List.mem_append_right _ (hv v h)⟩

end

end Callable

namespace Package

variable (p : Package)

/-- The callables of a package and the workers nested in them, each with its kind. -/
def everyCallable : List (SymbolKind × Callable) := p.callables.flatMap fun e => e.2.nested e.1

/-- The variables of a package: the fields of structs, what is written in callables, and the module
    variables. -/
def everyVar : List VarDecl :=
  p.structs.flatMap (·.fields) ++ p.everyCallable.flatMap (·.2.head.vars) ++ p.vars

variable {p} {c : SymbolId} {e : SymbolKind × Callable}

theorem mem_everyCallable (he : e ∈ p.callables) : e ∈ p.everyCallable := by
  refine List.mem_flatMap.2 ⟨e, he, ?_⟩
  obtain ⟨kind, _, _⟩ := e
  exact List.mem_cons_self

namespace HasCallable

/-- What is offered of a callable is offered of the package. -/
theorem offers_subset (h : p.HasCallable e) :
    ∃ c', ∀ o ∈ e.2.offers c' (e.2.nameAs e.1) e.1, o ∈ p.memberOffers (some c) := by
  -- Initializers are offered like functions, which are methods if they have a receiver.
  have hfunction : ∀ (f : Callable) (o : Offer), o ∈ f.kinded.2.offers (some c)
      (f.kinded.2.nameAs f.kinded.1) f.kinded.1 → o ∈ f.functionOffers (some c) := fun f o ho => by
    rw [Callable.kinded, f.nameAs_functionKind] at ho
    exact ho
  simp only [memberOffers, List.mem_append]
  cases h with
  | @connectorInitializer d f hd hf =>
    refine ⟨some c, fun o ho => ?_⟩
    have hinit : o ∈ d.initializerOffers (some c) := List.mem_flatMap.2 ⟨f, hf, hfunction f o ho⟩
    have hmem : o ∈ p.connectors.flatMap fun d => d.offer (some c) :: d.initializerOffers (some c) :=
      List.mem_flatMap.2 ⟨d, hd, List.mem_cons_of_mem _ hinit⟩
    tauto
  | @action d f hd hf =>
    refine ⟨d.symbol, fun o ho => ?_⟩
    have haction : o ∈ d.actionOffers := List.mem_flatMap.2 ⟨f, hf, ho⟩
    have hmem := List.mem_flatMap.2 ⟨d, hd, haction⟩
    tauto
  | @function f hf =>
    refine ⟨some c, fun o ho => ?_⟩
    have hmem := List.mem_flatMap.2 ⟨f, hf, hfunction f o ho⟩
    tauto
  | @serviceInitializer d f hd hf =>
    refine ⟨some c, fun o ho => ?_⟩
    have hinit : o ∈ d.initializerOffers (some c) := List.mem_flatMap.2 ⟨f, hf, hfunction f o ho⟩
    have hmem : o ∈ p.services.flatMap fun d => d.initializerOffers (some c) ++ d.resourceOffers :=
      List.mem_flatMap.2 ⟨d, hd, List.mem_append_left _ hinit⟩
    tauto
  | @resource d f hd hf =>
    refine ⟨d.symbol, fun o ho => ?_⟩
    have hresource : o ∈ d.resourceOffers := List.mem_flatMap.2 ⟨f, hf, ho⟩
    have hmem : o ∈ p.services.flatMap fun d => d.initializerOffers (some c) ++ d.resourceOffers :=
      List.mem_flatMap.2 ⟨d, hd, List.mem_append_right _ hresource⟩
    tauto
  | @initializer f hf =>
    refine ⟨some c, fun o ho => ?_⟩
    have hmem := List.mem_flatMap.2 ⟨f, hf, hfunction f o ho⟩
    tauto

/-- The parts of a callable are among the variables of the package. -/
theorem allParts_subset (h : p.HasCallable e) : ∀ v ∈ e.2.allParts e.1, v ∈ p.allVars := by
  intro v hv
  simp only [allVars, List.mem_append]
  cases h with
  | @connectorInitializer d f hd hf =>
    have hpart : v ∈ d.allVars := List.mem_append_left _ (List.mem_flatMap.2 ⟨f, hf, hv⟩)
    have hmem := List.mem_flatMap.2 ⟨d, hd, hpart⟩
    tauto
  | @action d f hd hf =>
    have hpart : v ∈ d.allVars := List.mem_append_right _ (List.mem_flatMap.2 ⟨f, hf, hv⟩)
    have hmem := List.mem_flatMap.2 ⟨d, hd, hpart⟩
    tauto
  | @function f hf =>
    have hmem : v ∈ p.functions.flatMap (·.functionParts) := List.mem_flatMap.2 ⟨f, hf, hv⟩
    tauto
  | @serviceInitializer d f hd hf =>
    have hpart : v ∈ d.allVars := List.mem_append_left _ (List.mem_flatMap.2 ⟨f, hf, hv⟩)
    have hmem := List.mem_flatMap.2 ⟨d, hd, hpart⟩
    tauto
  | @resource d f hd hf =>
    have hpart : v ∈ d.allVars := List.mem_append_right _ (List.mem_flatMap.2 ⟨f, hf, hv⟩)
    have hmem := List.mem_flatMap.2 ⟨d, hd, hpart⟩
    tauto
  | @initializer f hf =>
    have hmem : v ∈ p.initializer.toList.flatMap (·.functionParts) := List.mem_flatMap.2 ⟨f, hf, hv⟩
    tauto

end HasCallable

/-- What is offered of a callable is offered of the package, and its parts are among the variables of
    the package. -/
theorem offers_of_mem_callables (he : e ∈ p.callables) :
    (∃ c', ∀ o ∈ e.2.offers c' (e.2.nameAs e.1) e.1, o ∈ p.memberOffers (some c)) ∧
      ∀ v ∈ e.2.allParts e.1, v ∈ p.allVars :=
  ⟨(mem_callables.1 he).offers_subset, (mem_callables.1 he).allParts_subset⟩

/-- The same of callables at any depth. -/
theorem offers_of_mem_everyCallable (he : e ∈ p.everyCallable) :
    (∃ c', ∀ o ∈ e.2.offers c' (e.2.nameAs e.1) e.1, o ∈ p.memberOffers (some c)) ∧
      ∀ v ∈ e.2.head.parts e.1, v ∈ p.allVars := by
  obtain ⟨e₀, he₀, he⟩ := List.mem_flatMap.1 he
  obtain ⟨⟨c₀, hoffers⟩, hparts⟩ := offers_of_mem_callables (c := c) he₀
  obtain ⟨⟨c', hoffers'⟩, hparts'⟩ := e₀.2.offers_of_mem_nested e₀.1 c₀ e he
  refine ⟨⟨c', fun o ho => hoffers o (hoffers' o ho)⟩, fun v hv => hparts v (hparts' v hv)⟩

/-- A part of a callable that has a name is offered to the callable. -/
theorem offer_mem_memberOffers_of_part (he : e ∈ p.everyCallable) {v : VarDecl}
    (hv : v ∈ e.2.head.parts e.1) (hname : v.name.text ≠ "") :
    v.offer e.2.head.symbol ∈ p.memberOffers (some c) := by
  obtain ⟨⟨_, hoffers⟩, _⟩ := offers_of_mem_everyCallable (c := c) he
  refine hoffers _ ?_
  rw [Callable.offers_eq]
  refine List.mem_cons_of_mem _ (List.mem_append_left _ (List.mem_flatMap.2 ⟨v, hv, ?_⟩))
  rw [VarDecl.offers, if_neg hname]
  exact List.mem_singleton_self _

end Package

/-! ## Symbols that are preset -/

/-- The variable has no name and is written with the symbol `z`, which it keeps. -/
structure VarDecl.Presets (v : VarDecl) (z : SymbolId) : Prop where
  name : v.name.text = ""
  symbol : v.symbol = some z

/-- A parameter, a receiver or a return in the package presets the symbol `z`. -/
def Package.Presets (p : Package) (z : SymbolId) : Prop :=
  ∃ e ∈ p.everyCallable, ∃ v ∈ e.2.head.vars, v.Presets z

theorem VarDecl.Presets.of_unbound {v w : VarDecl} {z : SymbolId} (h : v.Presets z)
    (heq : v.unbound = w.unbound) : w.Presets z := by
  have hname : v.unbound.name = w.unbound.name := congrArg VarDecl.name heq
  have hsymbol := congrArg VarDecl.symbol heq
  simp only [unbound] at hname hsymbol
  rw [if_pos h.name, if_pos (hname ▸ h.name)] at hsymbol
  exact ⟨hname ▸ h.name, hsymbol.symm.trans h.symbol⟩

/-! ## Regular packages -/

/-- A variable without a name has no symbol. -/
def VarDecl.Regular (v : VarDecl) : Prop := v.name.text = "" → v.symbol = none

/-- Such a variable presets nothing. -/
theorem VarDecl.regular_iff {v : VarDecl} : v.Regular ↔ ∀ z, ¬v.Presets z := by
  constructor
  · intro hregular z hz
    cases (hregular hz.name).symm.trans hz.symbol
  · intro hnone hname
    by_contra hsome
    obtain ⟨z, hz⟩ := Option.ne_none_iff_exists'.1 hsome
    exact hnone z ⟨hname, hz⟩

theorem VarDecl.Regular.of_unbound {v w : VarDecl} (h : v.unbound = w.unbound) (hw : w.Regular) :
    v.Regular :=
  regular_iff.2 fun z hz => regular_iff.1 hw z (hz.of_unbound h)

/-- Only a method has a receiver. -/
structure CallableHead.Regular (kind : SymbolKind) (h : CallableHead) : Prop where
  receiver : h.receiver.isSome → kind = .method
  var : ∀ v ∈ h.vars, v.Regular

namespace Callable

/-- The callable and the workers nested in it are regular. -/
def Regular (kind : SymbolKind) (f : Callable) : Prop :=
  ∀ e ∈ f.nested kind, e.2.head.Regular e.1

end Callable

/-- In a package, only functions have receivers, which makes them methods, and what has no name has no
    symbol. -/
structure Package.Regular (p : Package) : Prop where
  field : ∀ d ∈ p.structs, ∀ v ∈ d.fields, v.Regular
  action : ∀ d ∈ p.connectors, ∀ f ∈ d.actions, f.Regular .action
  function : ∀ f ∈ p.functions, f.Regular f.functionKind
  resource : ∀ d ∈ p.services, ∀ f ∈ d.resources, f.Regular .resource
  var : ∀ v ∈ p.vars, v.Regular

/-- Lists that are alike have elements that are. -/
theorem exists_mem_of_map_eq {α β γ : Type} {f : α → γ} {g : β → γ} {xs : List α} {ys : List β}
    (h : xs.map f = ys.map g) {x : α} (hx : x ∈ xs) : ∃ y ∈ ys, f x = g y := by
  have hmem : f x ∈ ys.map g := h ▸ List.mem_map_of_mem hx
  obtain ⟨y, hy, heq⟩ := List.mem_map.1 hmem
  exact ⟨y, hy, heq.symm⟩

theorem CallableHead.vars_unbound (h : CallableHead) : h.unbound.vars = h.vars.map (·.unbound) := by
  simp only [vars, unbound, List.map_append, Option.toList_map]

/-- What is entered of a callable is written in it. -/
theorem CallableHead.parts_subset_vars (kind : SymbolKind) (h : CallableHead) :
    h.parts kind ⊆ h.vars := fun v hv => by
  simp only [parts, vars, List.mem_append] at hv ⊢
  rcases hv with (hv | hv) | hv
  · exact .inl (.inl hv)
  · split at hv
    · exact .inl (.inr hv)
    · cases hv
  · exact .inr hv

/-- Of a regular callable, everything that is written is entered. -/
theorem CallableHead.Regular.mem_parts {kind : SymbolKind} {h : CallableHead} (hr : h.Regular kind)
    {v : VarDecl} (hv : v ∈ h.vars) : v ∈ h.parts kind := by
  simp only [vars, List.mem_append, Option.mem_toList, or_assoc] at hv
  simp only [parts, List.mem_append, or_assoc]
  rcases hv with hv | hv | hv
  · exact .inl hv
  · have hkind : kind = .method := hr.receiver (by rw [Option.mem_def.1 hv]; rfl)
    rw [if_pos hkind]
    exact .inr (.inl (Option.mem_toList.2 hv))
  · exact .inr (.inr hv)

/-- A property of callables, each with its kind, that does not depend on what binding finds out, nor on
    modifiers. -/
structure CallableHead.Written (P : SymbolKind → CallableHead → Prop) : Prop where
  unbound : ∀ {kind : SymbolKind} {h h' : CallableHead}, h.unbound = h'.unbound → P kind h' → P kind h
  flagged : ∀ {kind : SymbolKind} {h : CallableHead} (flags : Flags),
    P kind h → P kind (h.flagged flags)

theorem CallableHead.exists_var_of_unbound {h h' : CallableHead} (heq : h.unbound = h'.unbound)
    {v : VarDecl} (hv : v ∈ h.vars) : ∃ w ∈ h'.vars, v.unbound = w.unbound := by
  have hvars : _ = _ := congrArg vars heq
  rw [vars_unbound, vars_unbound] at hvars
  exact exists_mem_of_map_eq hvars hv

/-- What the variables of a callable preset is such a property. -/
theorem CallableHead.written_presets (P : SymbolId → Prop) :
    Written fun _ h => ∀ v ∈ h.vars, ∀ z, v.Presets z → P z where
  unbound heq h v hv z hz := by
    obtain ⟨w, hw, hvw⟩ := exists_var_of_unbound heq hv
    exact h w hw z (hz.of_unbound hvw)
  flagged _ h := h

/-- Being regular is such a property. -/
theorem CallableHead.written_regular : Written fun kind h => h.Regular kind where
  unbound heq hregular :=
    { receiver := fun hsome => hregular.receiver (by
        have hreceiver : _ = _ := congrArg (fun h => h.receiver.isSome) heq
        simp only [CallableHead.unbound, Option.isSome_map] at hreceiver
        exact hreceiver ▸ hsome)
      var := fun v hv => by
        obtain ⟨w, hw, hvw⟩ := exists_var_of_unbound heq hv
        exact .of_unbound hvw (hregular.var w hw) }
  flagged _ hregular := ⟨hregular.receiver, hregular.var⟩

namespace Callable

mutual

theorem nested_unbound (kind : SymbolKind) : ∀ f : Callable,
    f.unbound.nested kind = (f.nested kind).map fun e => (e.1, e.2.unbound)
  | mk head workers => by
    rw [unbound, nested, nested, List.map_cons, nestedWorkers_unbound workers, unbound]

theorem nestedWorkers_unbound : ∀ workers : List Callable,
    nestedWorkers (unboundAll workers) = (nestedWorkers workers).map fun e => (e.1, e.2.unbound)
  | [] => rfl
  | worker :: rest => by
    rw [unboundAll, nestedWorkers, nestedWorkers, List.map_append, nested_unbound .worker worker,
      nestedWorkers_unbound rest]

end

theorem head_unbound (f : Callable) : f.unbound.head = f.head.unbound := by
  cases f
  rw [unbound]
  rfl

section

variable {P : SymbolKind → CallableHead → Prop} (hP : CallableHead.Written P) {kind : SymbolKind}
  {f g : Callable}
include hP

theorem forall_nested_of_unbound (h : f.unbound = g.unbound)
    (hg : ∀ e ∈ g.nested kind, P e.1 e.2.head) : ∀ e ∈ f.nested kind, P e.1 e.2.head :=
  fun e he => by
    have hnested : (f.nested kind).map (fun e => (e.1, e.2.unbound)) =
        (g.nested kind).map fun e => (e.1, e.2.unbound) := by
      rw [← nested_unbound, h, nested_unbound]
    obtain ⟨e', he', heq⟩ := exists_mem_of_map_eq hnested he
    obtain ⟨hkind, hunbound⟩ := Prod.mk.inj heq
    have hhead : e.2.head.unbound = e'.2.head.unbound := by
      rw [← head_unbound, hunbound, head_unbound]
    exact hP.unbound hhead (hkind ▸ hg e' he')

theorem forall_nested_flagged (flags : Flags) (h : ∀ e ∈ f.nested kind, P e.1 e.2.head) :
    ∀ e ∈ (f.flagged flags).nested kind, P e.1 e.2.head := by
  obtain ⟨head, workers⟩ := f
  intro e he
  rw [Callable.flagged, nested] at he
  rcases List.mem_cons.1 he with rfl | he
  · exact hP.flagged flags (h (kind, mk head workers) (by rw [nested]; exact List.mem_cons_self))
  · exact h e (by rw [nested]; exact List.mem_cons_of_mem _ he)

theorem forall_nested_equipped (h : ∀ e ∈ f.nested kind, P e.1 e.2.head) :
    ∀ e ∈ f.equipped.nested kind, P e.1 e.2.head := by
  unfold Callable.equipped
  split
  · exact forall_nested_flagged hP .attached h
  · exact h

/-- What holds of all that has no receiver and no symbols yet holds of an initializer. -/
theorem forall_nested_initializer
    (h : ∀ (kind : SymbolKind) (head : CallableHead), head.receiver = none →
      (∀ v ∈ head.vars, v.symbol = none) → P kind head)
    {i : Option Callable} {span : Span} {name : String} {params : List VarDecl} {defs : List VarDef}
    (hf : f ∈ i.toList) (hi : i.map (·.unbound) = some (initializer span name params defs).unbound)
    (hparams : ∀ v ∈ params, v.symbol = none) :
    ∀ e ∈ f.nested f.functionKind, P e.1 e.2.head := by
  rw [Option.mem_toList.1 hf, Option.map_some] at hi
  refine forall_nested_of_unbound hP (Option.some.inj hi) fun e he => ?_
  rw [initializer, nested, nestedWorkers] at he
  rw [List.mem_singleton.1 he]
  refine h _ _ rfl fun v hv => hparams v ?_
  simpa only [CallableHead.vars, head, Option.toList_none, List.append_nil] using hv

end

theorem functionKind_of_unbound {f g : Callable} (h : f.unbound = g.unbound) :
    f.functionKind = g.functionKind := by
  rw [← f.functionKind_bare, ← f.bare_unbound, h, g.bare_unbound, g.functionKind_bare]

end Callable

namespace Package

variable {config : Config} {title : String} {vars : List VarDecl} {p q : Package}

/-- What holds of all that is written, and of all initializers, holds of all callables of a package
    that is entered. -/
theorem forall_everyCallable {P : SymbolKind → CallableHead → Prop} (hP : CallableHead.Written P)
    (h : p.unbound = (q.equipped config title vars).unbound)
    (haction : ∀ d ∈ q.connectors, ∀ f ∈ d.actions, ∀ e ∈ f.nested .action, P e.1 e.2.head)
    (hfunction : ∀ f ∈ q.functions, ∀ e ∈ f.nested f.functionKind, P e.1 e.2.head)
    (hresource : ∀ d ∈ q.services, ∀ f ∈ d.resources, ∀ e ∈ f.nested .resource, P e.1 e.2.head)
    (hinitializer : ∀ (kind : SymbolKind) (h : CallableHead), h.receiver = none →
      (∀ v ∈ h.vars, v.symbol = none) → P kind h) :
    ∀ e ∈ p.everyCallable, P e.1 e.2.head := by
  suffices h : ∀ e₀ ∈ p.callables, ∀ e ∈ e₀.2.nested e₀.1, P e.1 e.2.head from fun e he => by
    obtain ⟨e₀, he₀, he⟩ := List.mem_flatMap.1 he
    exact h e₀ he₀ e he
  intro e₀ he₀
  cases mem_callables.1 he₀ with
  | @connectorInitializer d f hd hf =>
    obtain ⟨d', hd', heq⟩ := exists_mem_of_map_eq (congrArg Package.connectors h) hd
    obtain ⟨d₀, _, rfl⟩ := List.mem_map.1 hd'
    refine Callable.forall_nested_initializer hP hinitializer hf
      (congrArg Connector.initializer heq) fun v hv => ?_
    rw [List.mem_singleton.1 hv]
    rfl
  | @action d f hd hf =>
    obtain ⟨d', hd', heq⟩ := exists_mem_of_map_eq (congrArg Package.connectors h) hd
    obtain ⟨d₀, hd₀, rfl⟩ := List.mem_map.1 hd'
    have hactions : d.actions.map (·.unbound) = (d₀.equipped config).actions.map (·.unbound) :=
      congrArg Connector.actions heq
    obtain ⟨f', hf', hunbound⟩ := exists_mem_of_map_eq hactions hf
    obtain ⟨f₀, hf₀, rfl⟩ := List.mem_map.1 hf'
    exact Callable.forall_nested_of_unbound hP hunbound
      (Callable.forall_nested_flagged hP .exported (haction d₀ hd₀ f₀ hf₀))
  | @function f hf =>
    obtain ⟨f', hf', hunbound⟩ := exists_mem_of_map_eq (congrArg Package.functions h) hf
    obtain ⟨f₀, hf₀, rfl⟩ := List.mem_map.1 hf'
    have hkind : f.functionKind = f₀.functionKind := by
      rw [Callable.functionKind_of_unbound hunbound, ← Callable.functionKind_bare, f₀.bare_equipped,
        Callable.functionKind_bare]
    rw [Callable.kinded, hkind]
    exact Callable.forall_nested_of_unbound hP hunbound
      (Callable.forall_nested_equipped hP (hfunction f₀ hf₀))
  | @serviceInitializer d f hd hf =>
    obtain ⟨d', hd', heq⟩ := exists_mem_of_map_eq (congrArg Package.services h) hd
    obtain ⟨d₀, _, rfl⟩ := List.mem_map.1 hd'
    exact Callable.forall_nested_initializer hP hinitializer hf
      (congrArg Service.initializer heq) fun _ hv => absurd hv List.not_mem_nil
  | @resource d f hd hf =>
    obtain ⟨d', hd', heq⟩ := exists_mem_of_map_eq (congrArg Package.services h) hd
    obtain ⟨d₀, hd₀, rfl⟩ := List.mem_map.1 hd'
    have hresources : d.resources.map (·.unbound) =
        (d₀.equipped config).resources.map (·.unbound) := congrArg Service.resources heq
    obtain ⟨f', hf', hunbound⟩ := exists_mem_of_map_eq hresources hf
    obtain ⟨f₀, hf₀, rfl⟩ := List.mem_map.1 hf'
    exact Callable.forall_nested_of_unbound hP hunbound
      (Callable.forall_nested_flagged hP .exported (hresource d₀ hd₀ f₀ hf₀))
  | @initializer f hf =>
    exact Callable.forall_nested_initializer hP hinitializer hf
      (congrArg Package.initializer h) fun _ hv => absurd hv List.not_mem_nil

/-- What the callables of a package preset when it is entered, the package presets. -/
theorem presets_of_mem_everyCallable (h : p.unbound = (q.equipped config title vars).unbound) :
    ∀ e ∈ p.everyCallable, ∀ v ∈ e.2.head.vars, ∀ z, v.Presets z → q.Presets z := by
  have hwritten : ∀ e₀ ∈ q.callables, ∀ e ∈ e₀.2.nested e₀.1, ∀ v ∈ e.2.head.vars, ∀ z,
      v.Presets z → q.Presets z := fun e₀ he₀ e he v hv z hz =>
    ⟨e, List.mem_flatMap.2 ⟨e₀, he₀, he⟩, v, hv, hz⟩
  refine forall_everyCallable (CallableHead.written_presets q.Presets) h
    (fun _ hd _ hf => hwritten _ (mem_callables.2 (.action hd hf)))
    (fun _ hf => hwritten _ (mem_callables.2 (.function hf)))
    (fun _ hd _ hf => hwritten _ (mem_callables.2 (.resource hd hf)))
    fun _ _ _ hnone v hv z hz => ?_
  cases (hnone v hv).symm.trans hz.symbol

/-- If what has no name has no symbol in a package, that is so in its callables when it is entered. -/
theorem regular_of_mem_everyCallable (h : p.unbound = (q.equipped config title vars).unbound)
    (hq : ∀ v ∈ q.everyVar, v.Regular) : ∀ e ∈ p.everyCallable, ∀ v ∈ e.2.head.vars, v.Regular := by
  intro e he v hv
  refine VarDecl.regular_iff.2 fun z hz => ?_
  obtain ⟨e', he', w, hw, hpresets⟩ := presets_of_mem_everyCallable h e he v hv z hz
  have hmem : w ∈ q.everyVar := List.mem_append_left _ (List.mem_append_right _
    (List.mem_flatMap.2 ⟨e', he', hw⟩))
  exact VarDecl.regular_iff.1 (hq w hmem) z hpresets

/-- All callables that come out are regular, initializers included. -/
theorem Regular.callables (h : p.unbound = (q.equipped config title vars).unbound)
    (hq : q.Regular) : ∀ e ∈ p.callables, e.2.Regular e.1 := fun e he e' he' =>
  forall_everyCallable CallableHead.written_regular h hq.action hq.function hq.resource
    (fun _ _ hnone hvars =>
      ⟨fun hsome => absurd hsome (by rw [hnone]; exact Bool.false_ne_true), fun v hv _ => hvars v hv⟩)
    e' (List.mem_flatMap.2 ⟨e, he, he'⟩)

/-- If a regular package is entered, what comes out is regular, too. -/
theorem Regular.of_unbound (h : p.unbound = (q.equipped config title vars).unbound)
    (hq : q.Regular) : p.Regular where
  field d hd v hv := by
    obtain ⟨d', hd', heq⟩ := exists_mem_of_map_eq (congrArg Package.structs h) hd
    obtain ⟨d₀, hd₀, rfl⟩ := List.mem_map.1 hd'
    have hfields : d.fields.map (·.unbound) = d₀.equipped.fields.map (·.unbound) :=
      congrArg Struct.fields heq
    obtain ⟨v', hv', hunbound⟩ := exists_mem_of_map_eq hfields hv
    obtain ⟨v₀, hv₀, rfl⟩ := List.mem_map.1 hv'
    exact .of_unbound hunbound (hq.field d₀ hd₀ v₀ hv₀)
  action d hd f hf := hq.callables h (.action, f) (mem_callables.2 (.action hd hf))
  function f hf := hq.callables h f.kinded (mem_callables.2 (.function hf))
  resource d hd f hf := hq.callables h (.resource, f) (mem_callables.2 (.resource hd hf))
  var v hv := by
    obtain ⟨v₀, hv₀, hunbound⟩ := exists_mem_of_map_eq (congrArg Package.vars h) hv
    exact .of_unbound hunbound (hq.var v₀ hv₀)

end Package

end Binder
