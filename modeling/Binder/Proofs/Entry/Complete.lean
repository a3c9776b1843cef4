import Binder.Proofs.Entry.Seal
import Binder.Proofs.Nested

/-!
# Completing callables

A callable that is entered is complete: its symbol has the type that the types of its parts make up,
with one place for each parameter and each return, and links to the symbols that its parts have. What
is entered later leaves that alone, and so does completing the callable around a worker.

* `CallableHead.received`: the type that a method receives.
* `Callable.CompletedIn`: a callable is complete.
* `Callable.completed_enter`: entering a callable, with the workers nested in it.
* `Callable.Lasting`: what holds of a callable when it is entered, and lasts.
* `Callable.Lasting.callables`: it holds of all callables of a package that is entered.
* `Package.completed_enterMembers`: the callables of a package are complete.
-/

namespace Binder

open Store

/-- What holds of the result for any element holds of the results for all. -/
theorem forall_run_mapM {σ α β : Type} {f : α → StateM σ β} {P : β → Prop}
    (h : ∀ x s, P (f x s).1) (xs : List α) (s : σ) : ∀ y ∈ (xs.mapM f s).1, P y := by
  induction xs generalizing s with
  | nil => exact fun y hy => absurd hy List.not_mem_nil
  | cons x xs ih =>
    rw [run_mapM_cons]
    exact List.forall_mem_cons.2 ⟨h x s, ih _⟩

variable {m : Mark} {s s' : Store} {site : Site} {c : SymbolId}

/-! ## Complete callables -/

/-- An entered variable has the type that its written type was resolved to. -/
theorem VarDecl.ty_enter (site : Site) (v : VarDecl) (s : Store) :
    (v.enter site s).1.ty.isSome ∧ (v.enter site s).1.type.ty = (v.enter site s).1.ty := by
  unfold enter
  simp only [run_bind, (enterWith_written _ _ _ _).1, type_enterWith, TypeRef.resolve_fst_ty]
  exact ⟨rfl, trivial⟩

namespace CallableHead

/-- The type that a method receives; no other callable receives anything. -/
def received (kind : SymbolKind) (h : CallableHead) : Option TypeId :=
  if kind = .method then h.receiver.bind (·.ty) else none

/-- When the parts of a callable are entered, it receives the type it was entered with. -/
theorem received_enterParts {p : SymbolId} {kind : SymbolKind} {ty : Option TypeId}
    {head : CallableHead} (h : head.Receives s p kind ty) (site : Site) (s' : Store) :
    (head.enterParts site ty s').1.received kind = ty := by
  unfold Receives at h
  unfold received
  split at h
  · next hk =>
    obtain ⟨τ, r, rfl, _, hr, _⟩ := h
    rw [if_pos hk]
    unfold enterParts
    simp only [run_bind, run_pure, hr, enterReceiver, run_map, Option.bind_some]
    exact (VarDecl.enterWith_written _ _ _ _).1
  · next hk => rw [if_neg hk, h]

/-- The parameters and returns that are entered have the types that their written types were resolved
    to. -/
theorem ty_enterParts (site : Site) (ty : Option TypeId) (head : CallableHead) (s : Store) :
    ∀ v ∈ (head.enterParts site ty s).1.params ++ (head.enterParts site ty s).1.returns,
      v.ty.isSome ∧ v.type.ty = v.ty := fun v hv => by
  have hall := forall_run_mapM (P := fun v : VarDecl => v.ty.isSome ∧ v.type.ty = v.ty)
    (VarDecl.ty_enter site)
  exact (List.mem_append.1 hv).elim (hall head.params _ v) (hall head.returns _ v)

end CallableHead

namespace Callable

/-- The symbol of the callable has the type and the links that its parts make up. -/
structure CompletedIn (s : Store) (kind : SymbolKind) (f : Callable) : Prop where
  typed : ∀ v ∈ f.head.params ++ f.head.returns, v.ty.isSome ∧ v.type.ty = v.ty
  receives : (f.head.received kind).isSome ↔ kind = .method
  complete : ∃ x sym id, f.head.symbol = some x ∧ s.table.symbol? x = some sym ∧
    sym.ty = some id ∧
    s.table.types.get? id = some (.callable (f.head.signature (f.head.received kind))) ∧
    sym.links = some (f.head.links (f.head.received kind))

namespace CompletedIn

variable {kind : SymbolKind} {f : Callable} (h : f.CompletedIn s kind)
include h

theorem mono (hr : s.Retains s') : f.CompletedIn s' kind where
  typed := h.typed
  receives := h.receives
  complete := by
    obtain ⟨x, sym, id, hx, hsym, hty, hid, hlinks⟩ := h.complete
    exact ⟨x, sym, id, hx, hr.symbol hsym, hty, hr.type hid nofun, hlinks⟩

/-- The callable around a worker is completed. -/
theorem around {x : SymbolId} {sym : Symbol} (hx : s.table.symbol? x = some sym)
    (hty : sym.ty = none) (signature : Signature) (links : Links) :
    f.CompletedIn { s with table := s.table.complete x signature links } kind where
  typed := h.typed
  receives := h.receives
  complete := by
    obtain ⟨y, sym', id, hy, hsym, hid, hget, hlinks⟩ := h.complete
    -- What is completed now has no type yet.
    have hne : y ≠ x := by
      rintro rfl
      cases hx.symm.trans hsym
      cases hty.symm.trans hid
    refine ⟨y, sym', id, hy, ?_, hid, ?_, hlinks⟩
    · rw [Table.symbol?_complete, if_neg hne, hsym]
    · exact (s.table.types.get?_alloc_of_isSome _ (Option.isSome_iff_exists.2 ⟨_, hget⟩)).trans hget

end CompletedIn

mutual

/-- A callable that is entered is complete, and so are the workers nested in it. -/
theorem completed_enter {kind : SymbolKind} {name : Name} {text : String}
    {receiver : Option TypeId} (hk : kind.isCallable) {s : Store} {site : Site} {c : SymbolId} :
    ∀ f : Callable, site.At c m s → s.names.text? name = some text →
      f.head.Receives s site.package kind receiver →
      ∀ e ∈ (f.enter site kind name receiver s).1.nested kind,
        e.2.CompletedIn (f.enter site kind name receiver s).2 e.1
  | mk head workers, h, hname, hr => by
    have hreceives : head.Receives s site.package kind receiver := hr
    obtain ⟨s₀, hdeclare, hd⟩ := CallableHead.declare_spec hk h hname hreceives
    let inside := site.inCallable s.table.nextSymbol s.table.nextScope
    have hparts := (CallableHead.run_enterParts hd.inside rfl hd.receives).1
    have hreceived := CallableHead.received_enterParts hd.receives inside s₀
    have htyped :=
      CallableHead.ty_enterParts inside receiver (head.declared site s.table.nextSymbol) s₀
    cases hp : (head.declared site s.table.nextSymbol).enterParts inside receiver s₀ with
    | mk head' s₁ =>
      have hsymbol : head'.symbol = some s.table.nextSymbol :=
        (congrArg (fun r => r.1.symbol) hp).symm
      rw [hp] at hparts hreceived htyped
      have h₁ := hd.inside.mono (hparts.follows hd.inside.sound)
      have hworkers := (run_enterWorkers workers h₁).1
      have hcompleted := completed_enterWorkers workers h₁
      rw [enter_eq hdeclare hp rfl, nested]
      -- What is entered in the callable leaves its symbol alone.
      obtain ⟨sym, hsym, hty⟩ := hd.incomplete
      have hx := hworkers.symbol? h₁.sound (hparts.symbol? hd.inside.sound hsym)
      intro e he
      rcases List.mem_cons.1 he with rfl | he
      · subst hreceived
        refine ⟨htyped, hd.receives.isSome_iff, s.table.nextSymbol, _, _, hsymbol,
          (Table.symbol?_complete _ _ _ _ _).trans ((if_pos rfl).trans (congrArg _ hx)), rfl,
          (Types.get?_alloc _ _ _).trans (if_pos rfl), rfl⟩
      · exact (hcompleted e he).around hx hty _ _

theorem completed_enterWorkers {s : Store} {site : Site} {c : SymbolId} :
    ∀ workers : List Callable, site.At c m s →
      ∀ e ∈ nestedWorkers (enterWorkers site workers s).1,
        e.2.CompletedIn (enterWorkers site workers s).2 e.1
  | [], h => fun e he => absurd he List.not_mem_nil
  | worker :: rest, h => by
    have hintern : Run m s [] (Store.intern worker.head.name.text s).2 := .intern s _
    have h₁ := h.mono (hintern.follows h.sound)
    have hk : SymbolKind.worker.isCallable := rfl
    have hname := s.names.text?_intern worker.head.name.text
    have hreceives : worker.head.Receives (Store.intern worker.head.name.text s).2 site.package
        .worker none := CallableHead.receives_none (by decide) _
    obtain ⟨hworker, _⟩ := run_enter hk worker h₁ hname hreceives
    have h₂ := h₁.mono (hworker.follows h₁.sound)
    obtain ⟨hrest, _⟩ := run_enterWorkers rest h₂
    rw [enterWorkers]
    simp only [run_bind, run_pure, nestedWorkers]
    intro e he
    rcases List.mem_append.1 he with he | he
    · exact (completed_enter hk worker h₁ hname hreceives e he).mono hrest.retains
    · exact completed_enterWorkers rest h₂ e he

end

/-! ## All callables of a package -/

/-- `R` holds of every callable when it is entered, and whatever is entered later leaves that. -/
structure Lasting (m : Mark) (R : SymbolKind × Callable → Store → Prop) : Prop where
  mono : ∀ {e : SymbolKind × Callable} {s s' : Store} {os : List Offer}, Run m s os s' → R e s → R e s'
  enter : ∀ {kind : SymbolKind} {name : Name} {text : String} {receiver : Option TypeId} {s : Store}
    {site : Site} {c : SymbolId} (f : Callable), kind.isCallable → site.At c m s →
    s.names.text? name = some text → f.head.Receives s site.package kind receiver →
    R (kind, (f.enter site kind name receiver s).1) (f.enter site kind name receiver s).2

namespace Lasting

variable {R : SymbolKind × Callable → Store → Prop} (hR : Lasting m R)
include hR

/-- It holds of functions and methods. -/
theorem enterFunction (f : Callable) (h : site.At c m s) :
    R (f.enterFunction site s).1.kinded (f.enterFunction site s).2 := by
  cases hreceiver : f.head.receiver with
  | none =>
    have hintern : Run m s [] (Store.intern f.head.name.text s).2 := .intern s _
    have hk : SymbolKind.function.isCallable := rfl
    have hkind : f.functionKind = .function := by
      unfold functionKind
      rw [hreceiver]
      rfl
    have hentered := hR.enter f hk (h.mono (hintern.follows h.sound)) (s.names.text?_intern _)
      (CallableHead.receives_none (by decide) _)
    unfold Callable.enterFunction
    rw [hreceiver, kinded]
    simp only [run_bind, (functionName_enter _ _ _ _ _ _).2, hkind]
    exact hentered
  | some receiver =>
    obtain ⟨hresolve, hu, hr⟩ := receiver.run_resolveReceiver f.head.name h
    have h₁ := h.mono (hresolve.follows h.sound)
    rw [enterFunction_eq hreceiver]
    generalize receiver.resolveReceiver site f.head.name s = resolved at *
    obtain ⟨⟨receiver', ty⟩, s₁⟩ := resolved
    have hintern : Run m s₁ [] (Store.intern (methodName receiver'.type f.head.name) s₁).2 :=
      .intern s₁ _
    have hf := hintern.follows h₁.sound
    have hk : SymbolKind.method.isCallable := rfl
    have hinner : ∀ o ∈ ([] : List Offer), o.Inner := fun o ho => absurd ho List.not_mem_nil
    have hreceives : (f.withReceiver receiver').head.Receives _ site.package .method (some ty) :=
      CallableHead.Receives.mono ((if_pos rfl).mpr ⟨ty, receiver', rfl, hu, rfl, hr⟩) hf h₁.sound
        hinner
    have hentered := hR.enter (f.withReceiver receiver') hk (h₁.mono hf)
      (s₁.names.text?_intern _) hreceives
    unfold enterResolved
    rw [kinded]
    simp only [run_bind, run_pure, (functionName_enter _ _ _ _ _ _).2]
    exact hR.mono (run_checkFieldClash _ _ _) hentered

/-- It holds of actions and resources. -/
theorem enterMembers {kind : SymbolKind} (hk : kind.isCallable) (hm : kind ≠ .method)
    (members : List Callable) (h : site.At c m s) :
    (∀ f ∈ (Callable.enterMembers site kind members s).1,
        R (kind, f) (Callable.enterMembers site kind members s).2) := by
  have hrun : ∀ (f : Callable) (s : Store), site.At c m s → ∃ os,
      Run m s os (f.enter site kind (Store.intern f.head.name.text s).1 none
        (Store.intern f.head.name.text s).2).2 := fun f s h =>
    have hintern : Run m s [] (Store.intern f.head.name.text s).2 := .intern s _
    ⟨_, hintern.trans (run_enter hk f (h.mono (hintern.follows h.sound)) (s.names.text?_intern _)
      (CallableHead.receives_none hm _)).1⟩
  refine (run_mapM_spec (P := site.At c m) (D := fun _ _ => True)
    (R := fun (f : Callable) s => R (kind, f) s) (fun f s h _ => ?_)
    (fun f s _ h _ hy => hR.mono (hrun f s h).choose_spec hy)
    (List.pairwise_of_forall fun _ _ _ _ _ _ => trivial) h fun _ _ => trivial).1
  have hintern : Run m s [] (Store.intern f.head.name.text s).2 := .intern s _
  exact ⟨h.mono ((hrun f s h).choose_spec.follows h.sound),
    hR.enter f hk (h.mono (hintern.follows h.sound)) (s.names.text?_intern _)
      (CallableHead.receives_none hm _)⟩

/-- It holds of the initializers of connectors. -/
theorem declare (config : Config) (connectors : List Connector) (h : site.Top m s) :
    ∀ d ∈ (connectors.mapM (·.declare config site) s).1, ∀ f ∈ d.initializer.toList,
      R f.kinded (connectors.mapM (·.declare config site) s).2 := by
  refine (run_mapM_spec (P := site.Top m) (D := fun _ _ => True)
    (R := fun (d : Connector) s => ∀ f ∈ d.initializer.toList, R f.kinded s)
    (fun d s h _ => ⟨h.mono ((d.run_declare config h).1.follows h.sound), ?_⟩)
    (fun d s _ h _ hy f hf => hR.mono (d.run_declare config h).1 (hy f hf))
    (List.pairwise_of_forall fun _ _ _ _ _ _ => trivial) h fun _ _ => trivial).1
  have hk : SymbolKind.connector.isType := rfl
  have hcontainer := (run_declareContainer h hk d.name d.flags d.span).1.follows h.sound
  cases hx : declareContainer site .connector d.name d.flags d.span s with
  | mk x s₁ =>
    rw [hx] at hcontainer
    have hentered := hR.enterFunction (d.makeInitializer config) (h.mono hcontainer).toAt
    cases hinitializer : (d.makeInitializer config).enterFunction site s₁ with
    | mk f s₂ =>
      rw [hinitializer] at hentered
      rw [Connector.declare_eq hx hinitializer]
      intro f' hf'
      cases Option.mem_toList.1 hf'
      exact hentered

/-- It holds of the initializers and actions of connectors. -/
theorem enterActions {config : Config} {connectors : List Connector} (h : site.Top m s)
    (hd : ∀ d ∈ connectors, d.DeclaredIn m config s site.package)
    (hinit : ∀ d ∈ connectors, ∀ f ∈ d.initializer.toList, R f.kinded s) :
    ∀ d ∈ (connectors.mapM (·.enterActions site) s).1,
      (∀ f ∈ d.initializer.toList, R f.kinded (connectors.mapM (·.enterActions site) s).2) ∧
      ∀ f ∈ d.actions, R (.action, f) (connectors.mapM (·.enterActions site) s).2 := by
  have hrun : ∀ (d : Connector) (s : Store), site.Top m s → d.DeclaredIn m config s site.package →
      Run m s (d.enterActions site s).1.actionOffers (d.enterActions site s).2 :=
    fun d _ h hd => (d.run_enterActions h hd).1
  refine (run_mapM_spec (P := site.Top m)
    (D := fun (d : Connector) s =>
      d.DeclaredIn m config s site.package ∧ ∀ f ∈ d.initializer.toList, R f.kinded s)
    (R := fun (d : Connector) s =>
      (∀ f ∈ d.initializer.toList, R f.kinded s) ∧ ∀ f ∈ d.actions, R (.action, f) s)
    (fun d s h hd => ⟨h.mono ((hrun d s h hd.1).follows h.sound), ?_⟩)
    (fun d s _ h hd hy => ⟨fun f hf => hR.mono (hrun d s h hd.1) (hy.1 f hf),
      fun f hf => hR.mono (hrun d s h hd.1) (hy.2 f hf)⟩)
    (List.pairwise_of_forall fun d _ s h hd hd' =>
      ⟨hd'.1.mono ((hrun d s h hd.1).follows h.sound) h.sound,
        fun f hf => hR.mono (hrun d s h hd.1) (hd'.2 f hf)⟩)
    h fun d hd' => ⟨hd d hd', hinit d hd'⟩).1
  have hk : SymbolKind.connector.isType := rfl
  have haction : SymbolKind.action.isCallable := rfl
  obtain ⟨x, i, _, hi, hsite⟩ := h.inContainer hk hd.1.symbol .connector
  have hrun := (Callable.run_enterMembers haction (by decide) d.actions hsite).1
  rw [Connector.enterActions_eq hi]
  exact ⟨fun f hf => hR.mono hrun (hd.2 f hf),
    hR.enterMembers haction (by decide) d.actions hsite⟩

/-- It holds of functions and methods. -/
theorem enterFunctions (functions : List Callable) (h : site.Top m s) :
    ∀ f ∈ (functions.mapM (·.enterFunction site) s).1,
      R f.kinded (functions.mapM (·.enterFunction site) s).2 :=
  (run_mapM_spec (P := site.Top m) (D := fun _ _ => True)
    (R := fun (f : Callable) s => R f.kinded s)
    (fun f _ h _ => ⟨h.mono ((f.run_enterFunction h.toAt).1.follows h.sound),
      hR.enterFunction f h.toAt⟩)
    (fun f _ _ h _ hy => hR.mono (f.run_enterFunction h.toAt).1 hy)
    (List.pairwise_of_forall fun _ _ _ _ _ _ => trivial) h fun _ _ => trivial).1

/-- It holds of the initializers and resources of services. -/
theorem enterResources (config : Config) {services : List Service} (h : site.Top m s)
    (hd : ∀ d ∈ services, Declared m s site.package .service d.symbol) :
    ∀ d ∈ (services.mapM (·.enterMembers config site) s).1,
      (∀ f ∈ d.initializer.toList, R f.kinded (services.mapM (·.enterMembers config site) s).2) ∧
      ∀ f ∈ d.resources, R (.resource, f) (services.mapM (·.enterMembers config site) s).2 := by
  refine (run_mapM_spec (P := site.Top m)
    (D := fun (d : Service) s => Declared m s site.package .service d.symbol)
    (R := fun (d : Service) s =>
      (∀ f ∈ d.initializer.toList, R f.kinded s) ∧ ∀ f ∈ d.resources, R (.resource, f) s)
    (fun d s h hd => ⟨h.mono ((d.run_enterMembers config h hd).1.follows h.sound), ?_⟩)
    (fun d _ _ h hd hy =>
      have hrun := (d.run_enterMembers config h hd).1
      ⟨fun f hf => hR.mono hrun (hy.1 f hf), fun f hf => hR.mono hrun (hy.2 f hf)⟩)
    (List.pairwise_of_forall fun d _ _ h hd hd' =>
      hd'.mono ((d.run_enterMembers config h hd).1.follows h.sound).grows)
    h hd).1
  have hk : SymbolKind.service.isType := rfl
  have hresource : SymbolKind.resource.isCallable := rfl
  have hinit := ((d.makeInitializer config).run_enterFunction h.toAt).1.follows h.sound
  have hentered := hR.enterFunction (d.makeInitializer config) h.toAt
  cases hf : (d.makeInitializer config).enterFunction site s with
  | mk f s₁ =>
    rw [hf] at hinit hentered
    obtain ⟨x, i, _, hi, hsite⟩ := (h.mono hinit).inContainer hk (hd.mono hinit.grows) .service
    have hrun := (Callable.run_enterMembers hresource (by decide) d.resources hsite).1
    rw [Service.enterMembers_eq hf hi]
    refine ⟨fun f' hf' => ?_, hR.enterMembers hresource (by decide) d.resources hsite⟩
    cases Option.mem_toList.1 hf'
    exact hR.mono hrun hentered

/-- It holds of all callables of a package. -/
theorem callables (config : Config) (p : Package) (h : site.Top m s) :
    ∀ e ∈ (p.enterMembers config site s).1.callables, R e (p.enterMembers config site s).2 := by
  obtain ⟨structs, connectors, services, structs', connectors', functions, services', vars, s₁, s₂,
    s₃, s₄, s₅, s₆, s₇, s₈, h₁, h₂, h₃, h₄, h₅, h₆, h₇, h₈⟩ := p.exists_stages config site s
  have ht₁ := h.mono ((Package.run_mapM_declareStruct h h₁).1.follows h.sound)
  obtain ⟨hr₂, hd₂⟩ := Package.run_mapM_declareConnector ht₁ h₂
  have ht₂ := ht₁.mono (hr₂.follows ht₁.sound)
  have hinits := hR.declare config p.connectors ht₁
  rw [h₂] at hinits
  obtain ⟨hr₃, hd₃⟩ := Package.run_mapM_declareService ht₂ h₃
  have hf₃ := hr₃.follows ht₂.sound
  have ht₃ := ht₂.mono hf₃
  obtain ⟨_, hd⟩ := Package.run_declare h h₁ h₂ h₃
  have hr₄ := (Package.run_mapM_enterFields ht₃ hd.struct h₄).1
  have hf₄ := hr₄.follows ht₃.sound
  have ht₄ := ht₃.mono hf₄
  have hd₄ : ∀ d ∈ connectors, d.DeclaredIn m config s₄ site.package := fun d hd' =>
    (hd.connector d hd').mono hf₄ ht₃.sound
  have hr₅ := (Package.run_mapM_enterActions ht₄ hd₄ h₅).1
  have hconnectors := hR.enterActions ht₄ hd₄ fun d hd' f hf =>
    hR.mono (hr₃.trans hr₄) (hinits d hd' f hf)
  rw [h₅] at hconnectors
  have hf₅ := hr₅.follows ht₄.sound
  have ht₅ := ht₄.mono hf₅
  have hr₆ := (Package.run_mapM_enterFunction ht₅ h₆).1
  have hfunctions := hR.enterFunctions p.functions ht₅
  rw [h₆] at hfunctions
  have hf₆ := hr₆.follows ht₅.sound
  have ht₆ := ht₅.mono hf₆
  have hd₆ : ∀ d ∈ services, Declared m s₆ site.package .service d.symbol := fun d hd' =>
    (((hd.service d hd').mono hf₄.grows).mono hf₅.grows).mono hf₆.grows
  have hservices := hR.enterResources config ht₆ hd₆
  rw [h₇] at hservices
  have hr₇ := (Package.run_mapM_enterService ht₆ hd₆ h₇).1
  have ht₇ := ht₆.mono (hr₇.follows ht₆.sound)
  have hr₈ := (VarDecl.run_mapM_enter p.vars ht₇.toAt).1
  rw [h₈] at hr₈
  have ht₈ := ht₇.mono (hr₈.follows ht₇.sound)
  let initializer := Package.makeInitializer (s₈.symbolText site.package) p.span vars config
  have hr₉ := (initializer.run_enterFunction ht₈.toAt).1
  have hinitializer := hR.enterFunction initializer ht₈.toAt
  rw [Package.enterMembers_eq h₁ h₂ h₃ h₄ h₅ h₆ h₇ h₈]
  intro e he
  cases Package.mem_callables.1 he with
  | @connectorInitializer d f hd hf =>
    exact hR.mono (hr₆.trans (hr₇.trans (hr₈.trans hr₉))) ((hconnectors d hd).1 f hf)
  | @action d f hd hf =>
    exact hR.mono (hr₆.trans (hr₇.trans (hr₈.trans hr₉))) ((hconnectors d hd).2 f hf)
  | @function f hf =>
    exact hR.mono (hr₇.trans (hr₈.trans hr₉)) (hfunctions f hf)
  | @serviceInitializer d f hd hf =>
    exact hR.mono (hr₈.trans hr₉) ((hservices d hd).1 f hf)
  | @resource d f hd hf =>
    exact hR.mono (hr₈.trans hr₉) ((hservices d hd).2 f hf)
  | @initializer f hf =>
    cases Option.mem_toList.1 hf
    exact hinitializer

end Lasting

/-- A callable with the workers nested in it is complete when it is entered, and stays so. -/
theorem lasting_completed (m : Mark) :
    Lasting m fun e s => ∀ e' ∈ e.2.nested e.1, e'.2.CompletedIn s e'.1 where
  mono hrun he e' he' := (he e' he').mono hrun.retains
  enter f hk h hname hr := completed_enter hk f h hname hr

end Callable

/-- The callables of a package that is entered are complete, and so are the workers nested in them. -/
theorem Package.completed_enterMembers (config : Config) (p : Package) (h : site.Top m s) :
    ∀ e ∈ (p.enterMembers config site s).1.everyCallable,
      e.2.CompletedIn (p.enterMembers config site s).2 e.1 := fun e he => by
  obtain ⟨e₀, he₀, he⟩ := List.mem_flatMap.1 he
  exact (Callable.lasting_completed m).callables config p h e₀ he₀ e he

end Binder
