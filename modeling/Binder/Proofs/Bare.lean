import Binder.Proofs.Offer
import Binder.Proofs.Unbound

/-!
# Bare declarations

A declaration without what binding finds out about it: its symbol, its type, the types of its written
types, the modifiers it may get and the initializer that is made for it. Entering a package collects
it and then fills in just that, so what comes out is bare what was collected.

* `VarDecl.bare`, `Callable.bare`, `Package.bare`: the bare declarations.
* `Callable.bare_enter`: entering a callable, with the workers nested in it.
* `Package.bare_enterMembers`, `Package.bare_enterWith`: entering a package.
-/

namespace Binder

/-! ## Written types and variables -/

theorem TypeRef.bare_bare (r : TypeRef) : r.bare.bare = r.bare := by
  induction r with
  | primitive | named => rfl
  | array element span ty ih => exact congrArg (array · span none) ih

theorem TypeRef.baseName?_bare (r : TypeRef) : r.bare.baseName? = r.baseName? := by
  induction r with
  | primitive | named => rfl
  | array element span ty ih => exact ih

theorem TypeRef.text_bare (r : TypeRef) : r.bare.text = r.text := by
  induction r with
  | primitive | named => rfl
  | array element span ty ih => exact congrArg (· ++ "[]") ih

namespace VarDecl

def bare (v : VarDecl) : VarDecl :=
  { v with flags := .none, type := v.type.bare, symbol := none, ty := none }

theorem bare_unbound (v : VarDecl) : v.unbound.bare = v.bare := by
  simp only [unbound, bare, TypeRef.bare_bare]

theorem bare_flaggedAt (site : Site) (v : VarDecl) : (v.flaggedAt site).bare = v.bare := by
  unfold flaggedAt
  split <;> rfl

theorem bare_enter (site : Site) (v : VarDecl) (s : Store) : (v.enter site s).1.bare = v.bare := by
  rw [← bare_unbound, unbound_enter, bare_unbound, bare_flaggedAt]

end VarDecl

/-! ## Callables -/

namespace CallableHead

def bare (h : CallableHead) : CallableHead :=
  { h with
    flags := .none, receiver := h.receiver.map (·.bare), params := h.params.map (·.bare)
    returns := h.returns.map (·.bare), symbol := none }

theorem bare_unbound (h : CallableHead) : h.unbound.bare = h.bare := by
  simp only [unbound, bare, Option.map_map, List.map_map, Function.comp_def, VarDecl.bare_unbound]

end CallableHead

namespace Callable

mutual

def bare : Callable → Callable
  | mk head workers => mk head.bare (bareAll workers)

def bareAll : List Callable → List Callable
  | [] => []
  | worker :: rest => worker.bare :: bareAll rest

end

mutual

theorem bare_unbound : ∀ f : Callable, f.unbound.bare = f.bare
  | mk head workers => by
    rw [unbound, bare, bare, CallableHead.bare_unbound, bareAll_unboundAll]

theorem bareAll_unboundAll : ∀ workers : List Callable,
    bareAll (unboundAll workers) = bareAll workers
  | [] => rfl
  | worker :: rest => by
    rw [unboundAll, bareAll, bareAll, bare_unbound worker, bareAll_unboundAll rest]

end

theorem bare_flagged (flags : Flags) (f : Callable) : (f.flagged flags).bare = f.bare := by
  cases f
  rfl

theorem bare_flaggedAt (site : Site) (f : Callable) : (f.flaggedAt site).bare = f.bare := by
  cases h : site.publishes with
  | false => rw [flaggedAt_of_not h]
  | true => rw [flaggedAt_of_publishes h, bare_flagged]

theorem bare_equipped (f : Callable) : f.equipped.bare = f.bare := by
  unfold equipped
  split
  · exact f.bare_flagged .attached
  · rfl

theorem bare_enter (site : Site) (kind : SymbolKind) (name : Name) (receiver : Option TypeId)
    (f : Callable) (s : Store) : (f.enter site kind name receiver s).1.bare = f.bare := by
  rw [← bare_unbound, unbound_enter, bare_unbound, bare_flaggedAt]

/-- How a function or method is called can be read off its bare declaration. -/
theorem functionName_bare (f : Callable) : f.bare.functionName = f.functionName := by
  obtain ⟨⟨span, name, flags, receiver, params, returns, body, symbol⟩, workers⟩ := f
  cases receiver with
  | none => rfl
  | some r => exact congrArg (· ++ "." ++ name.text) r.type.text_bare

theorem functionKind_bare (f : Callable) : f.bare.functionKind = f.functionKind := by
  obtain ⟨head, workers⟩ := f
  exact congrArg (if · then SymbolKind.method else .function) Option.isSome_map

theorem bare_enterMembers (site : Site) (kind : SymbolKind) (members : List Callable) (s : Store) :
    (enterMembers site kind members s).1.map bare = members.map bare :=
  map_run_mapM (fun f _ => bare_enter site kind _ none f _) members s

theorem bare_enterFunction (site : Site) (f : Callable) (s : Store) :
    (f.enterFunction site s).1.bare = f.bare := by
  rw [← bare_unbound, unbound_enterFunction, bare_unbound, bare_flaggedAt, bare_equipped]

end Callable

/-! ## Containers -/

namespace Struct

def bare (d : Struct) : Struct := { d with fields := d.fields.map (·.bare), symbol := none }

theorem bare_declare (site : Site) (d : Struct) (s : Store) : (d.declare site s).1.bare = d.bare :=
  rfl

theorem bare_enterFields (site : Site) (d : Struct) (s : Store) :
    (d.enterFields site s).1.bare = d.bare := by
  unfold enterFields
  simp only [run_bind, run_get]
  cases d.symbol.bind s.table.scopeOf with
  | none => rfl
  | some scope =>
    have hfields := map_run_mapM (f := enterField (site.inContainer .struct scope))
      (g := fun r => r.1.bare) (fun v s => v.bare_enter (site.inContainer .struct scope) s)
      d.fields s
    simp only [run_bind, run_pure, bare, List.map_map, Function.comp_def, hfields]

end Struct

namespace Connector

def bare (d : Connector) : Connector :=
  { d with actions := d.actions.map (·.bare), initializer := none, symbol := none }

theorem bare_declare (config : Config) (site : Site) (d : Connector) (s : Store) :
    (d.declare config site s).1.bare = d.bare := by
  unfold declare
  simp only [run_bind, run_pure, bare]

/-- The connector has its initializer. -/
def Initialized (config : Config) (d : Connector) : Prop :=
  ∃ f, d.initializer = some f ∧ f.bare = (d.makeInitializer config).bare

theorem Initialized.of_unbound {config : Config} {d e : Connector}
    (h : d.unbound = (e.equipped config).unbound) : d.Initialized config := by
  have hinit : d.makeInitializer config = e.makeInitializer config := calc
    d.makeInitializer config = d.unbound.makeInitializer config := rfl
    _ = (e.equipped config).unbound.makeInitializer config := by rw [h]
    _ = e.makeInitializer config := rfl
  obtain ⟨f, hf, hunbound⟩ := Option.map_eq_some_iff.1 (congrArg initializer h)
  refine ⟨f, hf, ?_⟩
  rw [hinit, ← f.bare_unbound, hunbound, Callable.bare_unbound]

theorem bare_enterActions (site : Site) (d : Connector) (s : Store) :
    (d.enterActions site s).1.bare = d.bare := by
  unfold enterActions
  simp only [run_bind, run_get]
  cases d.symbol.bind s.table.scopeOf with
  | none => rfl
  | some scope => simp only [run_bind, run_pure, bare, Callable.bare_enterMembers]

end Connector

namespace Service

def bare (d : Service) : Service :=
  { d with resources := d.resources.map (·.bare), initializer := none, symbol := none }

theorem bare_declare (site : Site) (d : Service) (s : Store) :
    (d.declare site s).1.bare = d.bare := rfl

/-- The service has its initializer. -/
def Initialized (config : Config) (d : Service) : Prop :=
  ∃ f, d.initializer = some f ∧ f.bare = (d.makeInitializer config).bare

theorem Initialized.of_unbound {config : Config} {d e : Service}
    (h : d.unbound = (e.equipped config).unbound) : d.Initialized config := by
  have hinit : d.makeInitializer config = e.makeInitializer config := calc
    d.makeInitializer config = d.unbound.makeInitializer config := rfl
    _ = (e.equipped config).unbound.makeInitializer config := by rw [h]
    _ = e.makeInitializer config := rfl
  obtain ⟨f, hf, hunbound⟩ := Option.map_eq_some_iff.1 (congrArg initializer h)
  refine ⟨f, hf, ?_⟩
  rw [hinit, ← f.bare_unbound, hunbound, Callable.bare_unbound]

theorem bare_enterMembers (config : Config) (site : Site) (d : Service) (s : Store) :
    (d.enterMembers config site s).1.bare = d.bare := by
  unfold enterMembers
  simp only [run_bind, run_get]
  cases d.symbol.bind ((d.makeInitializer config).enterFunction site s).2.table.scopeOf with
  | none => rfl
  | some scope => simp only [run_bind, run_pure, bare, Callable.bare_enterMembers]

end Service

/-! ## Packages -/

namespace Import

theorem bare_enter (load : Loader) (site : Site) (i : Import) (s : Session) :
    (i.enter load site s).1.1.bare = i.bare := by
  unfold enter
  simp only [run_bind]
  generalize load _ _ = r
  obtain ⟨outcome | symbol, s₁⟩ := r <;> rfl

theorem bare_enterAll (load : Loader) (site : Site) (imports : List Import) (s : Session) :
    (enterAll load site imports s).1.1.map (·.bare) = imports.map (·.bare) := by
  induction imports generalizing s with
  | nil => rfl
  | cons i rest ih =>
    rw [enterAll_cons]
    simp only [List.map_cons, bare_enter, ih]

end Import

namespace Package

def bare (p : Package) : Package :=
  { p with
    imports := p.imports.map (·.bare), structs := p.structs.map (·.bare)
    connectors := p.connectors.map (·.bare), services := p.services.map (·.bare)
    functions := p.functions.map (·.bare), vars := p.vars.map (·.bare)
    initializer := none, symbol := none }

/-- The package called `title` has its initializer, and so have its connectors and services. -/
structure Initialized (config : Config) (title : String) (p : Package) : Prop where
  connector : ∀ d ∈ p.connectors, d.Initialized config
  service : ∀ d ∈ p.services, d.Initialized config
  package : ∃ f vars, p.initializer = some f ∧
    f.bare = (makeInitializer title p.span vars config).bare

/-- A package that is equipped has its initializers. -/
theorem Initialized.of_unbound {config : Config} {title : String} {vars : List VarDecl}
    {p q : Package} (h : p.unbound = (q.equipped config title vars).unbound) :
    p.Initialized config title where
  connector d hd := by
    have hmem : d.unbound ∈ (q.equipped config title vars).unbound.connectors :=
      h ▸ List.mem_map_of_mem hd
    obtain ⟨e', he', heq⟩ := List.mem_map.1 hmem
    obtain ⟨e, _, rfl⟩ := List.mem_map.1 he'
    exact .of_unbound heq.symm
  service d hd := by
    have hmem : d.unbound ∈ (q.equipped config title vars).unbound.services :=
      h ▸ List.mem_map_of_mem hd
    obtain ⟨e', he', heq⟩ := List.mem_map.1 hmem
    obtain ⟨e, _, rfl⟩ := List.mem_map.1 he'
    exact .of_unbound heq.symm
  package := by
    have hspan : p.span = q.span := calc
      p.span = p.unbound.span := rfl
      _ = (q.equipped config title vars).unbound.span := by rw [h]
      _ = q.span := rfl
    obtain ⟨f, hf, hunbound⟩ := Option.map_eq_some_iff.1 (congrArg initializer h)
    refine ⟨f, vars, hf, ?_⟩
    rw [hspan, ← f.bare_unbound, hunbound, Callable.bare_unbound]

theorem bare_enterMembers (config : Config) (site : Site) (p : Package) (s : Store) :
    (p.enterMembers config site s).1.bare = p.bare := by
  unfold enterMembers
  simp only [run_bind, run_pure, bare, map_run_mapM (Struct.bare_enterFields site),
    map_run_mapM (Struct.bare_declare site), map_run_mapM (Connector.bare_enterActions site),
    map_run_mapM (Connector.bare_declare config site), map_run_mapM (Service.bare_declare site),
    map_run_mapM (Service.bare_enterMembers config site),
    map_run_mapM (Callable.bare_enterFunction site), map_run_mapM (VarDecl.bare_enter site)]

theorem bare_enterContents (load : Loader) (site : Site) (p : Package) (s : Session) :
    (p.enterContents load site s).1.1.bare = p.bare := by
  unfold enterContents
  simp only [run_bind]
  have himports := Import.bare_enterAll load site p.imports s
  generalize Import.enterAll load site p.imports s = r at *
  obtain ⟨⟨imports, failure⟩, s₁⟩ := r
  cases failure with
  | some e => simp only [run_pure, bare, himports]
  | none =>
    simp only [run_bind, run_pure, run_get, run_onStore]
    refine (bare_enterMembers _ site _ _).trans ?_
    simp only [bare, himports]

/-- What comes out of entering a package is bare what was collected. -/
theorem bare_enterWith (load : Loader) (path : Option PackageName) (p : Package) (s : Session) :
    (p.enterWith load path s).1.1.bare = p.collect.bare := by
  unfold enterWith
  simp only [run_bind, run_pure, bare_enterContents]
  rfl

end Package

end Binder
