import Binder.Entry.Load
import Binder.Proofs.Action

/-!
# Unbound declarations

What is written in a declaration, apart from what binding finds out about it: its symbol, its type
and the types of its written types. Entering leaves that as it is, but for the modifiers that a
declaration gets where it stands, and for the initializers that are made.

* `Callable.unbound`, `Package.unbound`: what is written in a declaration.
* `Package.equipped`: a package with the modifiers and the initializers that its members get.
* `Callable.unbound_enter`, `Callable.unbound_enterFunction`: entering a callable.
* `Struct.unbound_enterFields`, `Connector.unbound_enterActions`, `Service.unbound_enterMembers`:
  entering what is in a container.
-/

namespace Binder

/-! ## Lists of results -/

/-- Something that each result has in common with what it is the result of, as long as `P` holds. -/
theorem map_run_mapM_of {σ α β γ : Type} {P : σ → Prop} {f : α → StateM σ β} {g : β → γ} {g' : α → γ}
    {xs : List α} (hP : ∀ x ∈ xs, ∀ s, P s → P (f x s).2)
    (h : ∀ x ∈ xs, ∀ s, P s → g (f x s).1 = g' x) {s : σ} (hs : P s) :
    (xs.mapM f s).1.map g = xs.map g' := by
  induction xs generalizing s with
  | nil => rfl
  | cons x xs ih =>
    have hrest := ih (fun y hy => hP y (List.mem_cons_of_mem _ hy))
      (fun y hy => h y (List.mem_cons_of_mem _ hy)) (hP x List.mem_cons_self s hs)
    rw [run_mapM_cons, List.map_cons, List.map_cons, h x List.mem_cons_self s hs, hrest]

/-- Something that each result has in common with what it is the result of. -/
theorem map_run_mapM {σ α β γ : Type} {f : α → StateM σ β} {g : β → γ} {g' : α → γ}
    (h : ∀ x s, g (f x s).1 = g' x) (xs : List α) (s : σ) :
    (xs.mapM f s).1.map g = xs.map g' :=
  map_run_mapM_of (P := fun _ => True) (fun _ _ _ _ => trivial) (fun x _ s _ => h x s) trivial

theorem map_eq_of_run_mapM {σ α β γ : Type} {f : α → StateM σ β} {g : β → γ} {g' : α → γ}
    (h : ∀ x s, g (f x s).1 = g' x) {xs : List α} {ys : List β} {s s' : σ}
    (heq : xs.mapM f s = (ys, s')) : ys.map g = xs.map g' := by
  rw [← map_run_mapM h xs s, heq]

/-! ## Written types and variables -/

/-- The written type with no level resolved. -/
def TypeRef.bare : TypeRef → TypeRef
  | primitive p span _ => primitive p span none
  | named qualifier name span _ => named qualifier name span none
  | array element span _ => array element.bare span none

theorem TypeRef.bare_resolve (scope : ScopeId) (r : TypeRef) (s : Store) :
    (r.resolve scope s).1.1.bare = r.bare := by
  induction r with
  | primitive | named => rfl
  | array element span ty ih => exact congrArg (array · span none) ih

namespace VarDecl

/-- The variable without its type, and without its symbol if it has a name: what has no name gets no
    symbol. -/
def unbound (v : VarDecl) : VarDecl :=
  { v with
    type := v.type.bare, symbol := if v.name.text = "" then v.symbol else none, ty := none }

/-- The variable with further modifiers. -/
def flagged (flags : Flags) (v : VarDecl) : VarDecl := { v with flags := v.flags.union flags }

/-- The variable with the modifiers that it gets at a site. -/
def flaggedAt (site : Site) (v : VarDecl) : VarDecl :=
  if site.kind = .struct then v.flagged .exported else v

theorem unbound_typed (v : VarDecl) (site : Site) (ty : TypeId) :
    (v.typed site ty).unbound = (v.flaggedAt site).unbound := by
  unfold typed flaggedAt
  split <;> rfl

theorem unbound_enterWith (site : Site) (ty : TypeId) (v : VarDecl) (s : Store) :
    (v.enterWith site ty s).1.unbound = (v.flaggedAt site).unbound := by
  rw [← v.unbound_typed site ty]
  unfold enterWith
  simp only [run_bind]
  split
  · rfl
  · next hnamed =>
    have hname : (v.typed site ty).name.text ≠ "" := fun hempty =>
      hnamed ((s.names.isUnnamed_intern _).2 hempty)
    simp only [run_bind, run_get, run_pure, unbound, hname, if_false]

theorem unbound_enter (site : Site) (v : VarDecl) (s : Store) :
    (v.enter site s).1.unbound = (v.flaggedAt site).unbound := by
  have hbare := v.type.bare_resolve site.scope s
  unfold enter
  simp only [run_bind, unbound_enterWith, flaggedAt]
  split
  · exact congrArg (fun type => { (v.flagged .exported).unbound with type }) hbare
  · exact congrArg (fun type => { v.unbound with type }) hbare

/-- Only in a struct does a variable get modifiers. -/
theorem unbound_enter_of_ne {site : Site} (h : site.kind ≠ .struct) (v : VarDecl) (s : Store) :
    (v.enter site s).1.unbound = v.unbound := by
  rw [unbound_enter, flaggedAt, if_neg h]

theorem unbound_resolveReceiver (site : Site) (method : Ident) (receiver : VarDecl) (s : Store) :
    (receiver.resolveReceiver site method s).1.1.unbound = receiver.unbound := by
  have hbare := receiver.type.bare_resolve site.scope s
  unfold resolveReceiver
  simp only [run_bind, run_get]
  cases (receiver.type.resolve site.scope s).2.receiverProblem? site.pkg method
      (receiver.type.resolve site.scope s).1.2 <;>
    exact congrArg (fun type => { receiver.unbound with type }) hbare

end VarDecl

/-! ## Callables -/

namespace CallableHead

/-- The callable without its symbol, and with unbound parts. -/
def unbound (h : CallableHead) : CallableHead :=
  { h with
    receiver := h.receiver.map (·.unbound), params := h.params.map (·.unbound)
    returns := h.returns.map (·.unbound), symbol := none }

/-- The callable with further modifiers. -/
def flagged (flags : Flags) (h : CallableHead) : CallableHead :=
  { h with flags := h.flags.union flags }

/-- The callable with the modifiers that it gets at a site. -/
def flaggedAt (site : Site) (h : CallableHead) : CallableHead :=
  if site.publishes then h.flagged .exported else h

/-- Modifiers are not found out by binding. -/
theorem unbound_flaggedAt (site : Site) (h : CallableHead) :
    (h.flaggedAt site).unbound = h.unbound.flaggedAt site := by
  unfold flaggedAt
  split <;> rfl

theorem unbound_declare (site : Site) (kind : SymbolKind) (name : Name) (h : CallableHead)
    (s : Store) : (h.declare site kind name s).1.1.unbound = (h.flaggedAt site).unbound := by
  unfold declare flaggedAt
  simp only [run_bind, run_get, run_pure]
  split <;> rfl

theorem unbound_enterReceiver {site : Site} (hsite : site.kind ≠ .struct) (ty : Option TypeId)
    (receiver : Option VarDecl) (s : Store) :
    (enterReceiver site ty receiver s).1.map (·.unbound) = receiver.map (·.unbound) := by
  unfold enterReceiver
  split
  · rw [run_map, Option.map_some, VarDecl.unbound_enterWith, VarDecl.flaggedAt, if_neg hsite]
    rfl
  · rfl

theorem unbound_enterParts {site : Site} (hsite : site.kind ≠ .struct) (ty : Option TypeId)
    (h : CallableHead) (s : Store) : (h.enterParts site ty s).1.unbound = h.unbound := by
  unfold enterParts
  simp only [run_bind, run_pure, unbound, unbound_enterReceiver hsite,
    map_run_mapM (VarDecl.unbound_enter_of_ne hsite)]

end CallableHead

namespace Callable

mutual

/-- The callable without what binding finds out about it and the workers nested in it. -/
def unbound : Callable → Callable
  | mk head workers => mk head.unbound (unboundAll workers)

def unboundAll : List Callable → List Callable
  | [] => []
  | worker :: rest => worker.unbound :: unboundAll rest

end

/-- The callable with further modifiers. -/
def flagged (flags : Flags) : Callable → Callable
  | mk head workers => mk (head.flagged flags) workers

/-- The callable with the modifiers that it gets at a site. -/
def flaggedAt (site : Site) : Callable → Callable
  | mk head workers => mk (head.flaggedAt site) workers

theorem unbound_flaggedAt (site : Site) (f : Callable) :
    (f.flaggedAt site).unbound = f.unbound.flaggedAt site := by
  cases f
  exact congrArg (mk · _) (CallableHead.unbound_flaggedAt site _)

theorem flaggedAt_of_not {site : Site} (h : site.publishes = false) (f : Callable) :
    f.flaggedAt site = f := by
  cases f
  rw [flaggedAt, CallableHead.flaggedAt, h]
  rfl

theorem flaggedAt_of_publishes {site : Site} (h : site.publishes) (f : Callable) :
    f.flaggedAt site = f.flagged .exported := by
  cases f
  rw [flaggedAt, CallableHead.flaggedAt, if_pos h]
  rfl

mutual

theorem unbound_enter (site : Site) (kind : SymbolKind) (name : Name) (receiver : Option TypeId) :
    ∀ (f : Callable) (s : Store),
      (f.enter site kind name receiver s).1.unbound = (f.flaggedAt site).unbound
  | mk head workers, s => by
    have hkind : ∀ x i, (site.inCallable x i).kind ≠ .struct := nofun
    have hinside : ∀ x i, (site.inCallable x i).publishes = false := fun _ _ => rfl
    rw [enter]
    simp only [run_bind, run_pure, unbound, flaggedAt, CallableHead.unbound_enterParts (hkind _ _),
      unboundAll_enterWorkers (hinside _ _), CallableHead.unbound_declare]

/-- Workers get no modifiers. -/
theorem unboundAll_enterWorkers {site : Site} (hsite : site.publishes = false) :
    ∀ (workers : List Callable) (s : Store),
      unboundAll (enterWorkers site workers s).1 = unboundAll workers
  | [], _ => rfl
  | worker :: rest, s => by
    rw [enterWorkers]
    simp only [run_bind, run_pure, unboundAll, unboundAll_enterWorkers hsite rest,
      unbound_enter site .worker _ none worker, flaggedAt_of_not hsite]

end

theorem unbound_enterMembers {site : Site} (hsite : site.publishes) (kind : SymbolKind)
    (members : List Callable) (s : Store) :
    (enterMembers site kind members s).1.map unbound =
      members.map fun f => (f.flagged .exported).unbound :=
  map_run_mapM (fun f _ => (unbound_enter site kind _ none f _).trans
    (congrArg unbound (f.flaggedAt_of_publishes hsite))) members s

/-- The function or method with the modifiers that it gets: a method is attached to its receiver. -/
def equipped (f : Callable) : Callable :=
  if f.head.receiver.isSome then f.flagged .attached else f

theorem unbound_enterFunction (site : Site) (f : Callable) (s : Store) :
    (f.enterFunction site s).1.unbound = (f.equipped.flaggedAt site).unbound := by
  unfold enterFunction equipped
  cases hreceiver : f.head.receiver with
  | none => exact unbound_enter site .function _ none f _
  | some receiver =>
    obtain ⟨head, workers⟩ := f
    -- The receiver is resolved first, whatever that finds out about it.
    have hunbound := receiver.unbound_resolveReceiver site head.name s
    have hhead : head.receiver = some receiver := hreceiver
    simp only [run_bind, run_pure, Option.isSome_some, if_true]
    refine (unbound_enter site .method _ _ (withHead _ _) _).trans ?_
    rw [unbound_flaggedAt, unbound_flaggedAt]
    refine congrArg (flaggedAt site) ?_
    simp only [withHead, flagged, unbound, CallableHead.unbound, CallableHead.flagged,
      Callable.head, Callable.workers, Option.map_some, hhead, hunbound]

/-- At the top level of a package, a function gets no further modifiers. -/
theorem unbound_enterFunction_of_not {site : Site} (hsite : site.publishes = false) (f : Callable)
    (s : Store) : (f.enterFunction site s).1.unbound = f.equipped.unbound := by
  rw [unbound_enterFunction, flaggedAt_of_not hsite]

end Callable

/-! ## Containers -/

namespace Struct

/-- The struct without its symbol, and with unbound fields. -/
def unbound (d : Struct) : Struct := { d with fields := d.fields.map (·.unbound), symbol := none }

/-- The struct with the modifiers that its fields get. -/
def equipped (d : Struct) : Struct := { d with fields := d.fields.map (·.flagged .exported) }

theorem unbound_equipped_declare (site : Site) (d : Struct) (s : Store) :
    (d.declare site s).1.equipped.unbound = d.equipped.unbound := rfl

/-- The fields of a struct that has a scope are entered. -/
theorem unbound_enterFields (site : Site) {d : Struct} {s : Store} {i : ScopeId}
    (hi : d.symbol.bind s.table.scopeOf = some i) :
    (d.enterFields site s).1.unbound = d.equipped.unbound := by
  have hfields : (d.fields.mapM (enterField (site.inContainer .struct i)) s).1.map
      (fun r => r.1.unbound) = d.fields.map fun v => (v.flagged .exported).unbound :=
    map_run_mapM (fun v s => v.unbound_enter (site.inContainer .struct i) s) d.fields s
  unfold enterFields
  simp only [run_bind, run_get]
  rw [hi]
  simp only [run_bind, run_pure, unbound, equipped, List.map_map, Function.comp_def, hfields]

end Struct

namespace Connector

/-- The connector without its symbol, and with unbound actions and an unbound initializer. -/
def unbound (d : Connector) : Connector :=
  { d with
    actions := d.actions.map (·.unbound), initializer := d.initializer.map (·.unbound)
    symbol := none }

/-- The connector with the modifiers that its actions get. -/
def published (d : Connector) : Connector :=
  { d with actions := d.actions.map (·.flagged .exported) }

/-- The connector with the modifiers that its actions get, and with its initializer. -/
def equipped (config : Config) (d : Connector) : Connector :=
  { d.published with initializer := some (d.makeInitializer config) }

theorem unbound_published_declare (config : Config) {site : Site} (hsite : site.publishes = false)
    (d : Connector) (s : Store) :
    (d.declare config site s).1.published.unbound = (d.equipped config).unbound := by
  unfold declare
  simp only [run_bind, run_pure, published, equipped, unbound, Option.map_some,
    Callable.unbound_enterFunction_of_not hsite]
  rfl

/-- The actions of a connector that has a scope are entered. -/
theorem unbound_enterActions (site : Site) {d : Connector} {s : Store} {i : ScopeId}
    (hi : d.symbol.bind s.table.scopeOf = some i) :
    (d.enterActions site s).1.unbound = d.published.unbound := by
  have hsite : (site.inContainer .connector i).publishes := rfl
  unfold enterActions
  simp only [run_bind, run_get]
  rw [hi]
  simp only [run_bind, run_pure, unbound, published, Callable.unbound_enterMembers hsite,
    List.map_map, Function.comp_def]

end Connector

namespace Service

/-- The service without its symbol, and with unbound resources and an unbound initializer. -/
def unbound (d : Service) : Service :=
  { d with
    resources := d.resources.map (·.unbound), initializer := d.initializer.map (·.unbound)
    symbol := none }

/-- The service with the modifiers that its resources get, and with its initializer. -/
def equipped (config : Config) (d : Service) : Service :=
  { d with
    resources := d.resources.map (·.flagged .exported)
    initializer := some (d.makeInitializer config) }

theorem unbound_equipped_declare (config : Config) (site : Site) (d : Service) (s : Store) :
    ((d.declare site s).1.equipped config).unbound = (d.equipped config).unbound := rfl

/-- The initializer of a service is entered, and the resources are if the service has a scope. -/
theorem unbound_enterMembers (config : Config) {site : Site} (hsite : site.publishes = false)
    {d : Service} {s : Store} {i : ScopeId}
    (hi : d.symbol.bind ((d.makeInitializer config).enterFunction site s).2.table.scopeOf = some i) :
    (d.enterMembers config site s).1.unbound = (d.equipped config).unbound := by
  have hinside : (site.inContainer .service i).publishes := rfl
  unfold enterMembers
  simp only [run_bind, run_get]
  rw [hi]
  simp only [run_bind, run_pure, unbound, equipped, Callable.unbound_enterMembers hinside,
    Callable.unbound_enterFunction_of_not hsite, Option.map_some, List.map_map, Function.comp_def]
  rfl

end Service

/-! ## Packages -/

/-- The import without its symbol. -/
def Import.bare (i : Import) : Import := { i with symbol := none }

namespace Package

/-- The package without what binding finds out about it and what it declares. -/
def unbound (p : Package) : Package :=
  { p with
    imports := p.imports.map (·.bare), structs := p.structs.map (·.unbound)
    connectors := p.connectors.map (·.unbound), services := p.services.map (·.unbound)
    functions := p.functions.map (·.unbound), vars := p.vars.map (·.unbound)
    initializer := p.initializer.map (·.unbound), symbol := none }

/-- The package called `title` with the modifiers and the initializers that its members get. Its own
    initializer defines the variables `vars`. -/
def equipped (config : Config) (title : String) (vars : List VarDecl) (p : Package) : Package :=
  { p with
    structs := p.structs.map (·.equipped), connectors := p.connectors.map (·.equipped config)
    services := p.services.map (·.equipped config), functions := p.functions.map (·.equipped)
    initializer := some (makeInitializer title p.span vars config) }

end Package

end Binder
