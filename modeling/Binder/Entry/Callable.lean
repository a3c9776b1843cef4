import Binder.Resolve
import Binder.Site

/-!
# Entering variables and callables

A variable gets the type its written type resolves to and, unless it is unnamed, a symbol. A
callable gets a symbol, bound where it is written, and a scope; its parameters, its receiver, its
named returns and its workers are entered there, in that order, and its type is made of theirs.

* `VarDecl.enterWith`, `VarDecl.enter`: one variable.
* `CallableHead.signature`, `CallableHead.links`: what an entered callable is made of.
* `Callable.enter`: a callable, with the workers nested in it.
-/

namespace Binder

/-! ## Variables -/

namespace VarDecl

/-- The variable with the type `ty`; a field of a struct is public. -/
def typed (v : VarDecl) (site : Site) (ty : TypeId) : VarDecl :=
  { v with
    ty := some ty
    flags := if site.kind = .struct then v.flags.union .exported else v.flags }

/-- The symbol of a variable. What is declared in a callable belongs to the callable, all else to
    the owner of the scope. -/
def toSymbol (v : VarDecl) (site : Site) (name : Name) (scopeOwner : Option SymbolId) : Symbol :=
  { kind := .var, name, flags := v.flags, pkg := site.pkg
    owner := site.callable.or scopeOwner, ty := v.ty, span := v.span }

/-- Enters a variable of type `ty`. Without a name it gets the type only. -/
def enterWith (site : Site) (ty : TypeId) (v : VarDecl) : Entry VarDecl := do
  let v := v.typed site ty
  let name ← Store.intern v.name.text
  if name.isUnnamed then pure v
  else do
    let symbol ← Store.addSymbol (v.toSymbol site name ((← get).table.ownerOf site.scope))
    let _ ← Store.define v.span site.scope name symbol
    pure { v with symbol := some symbol }

/-- Resolves the written type of a variable and enters it. -/
def enter (site : Site) (v : VarDecl) : Entry VarDecl := do
  let (type, ty) ← v.type.resolve site.scope
  { v with type }.enterWith site ty

end VarDecl

/-! ## Callables -/

namespace CallableHead

/-- The type of a callable whose parameters and returns are entered. -/
def signature (h : CallableHead) (receiver : Option TypeId) : Signature :=
  ⟨h.params.filterMap (·.ty), h.returns.filterMap (·.ty), receiver⟩

/-- The symbols of a callable whose parameters, returns and receiver are entered. -/
def links (h : CallableHead) (receiver : Option TypeId) : Links :=
  ⟨h.params.filterMap (·.symbol), h.returns.filterMap (·.symbol),
    if receiver.isSome then h.receiver.bind (·.symbol) else none⟩

/-- Makes the symbol of a callable and its scope, and binds the symbol to `name`. What a connector
    or service offers is public. -/
def declare (site : Site) (kind : SymbolKind) (name : Name) (h : CallableHead) :
    Entry (CallableHead × SymbolId × ScopeId) := do
  let flags := if site.publishes then h.flags.union .exported else h.flags
  let owner := (← get).table.ownerOf site.scope
  let symbol ← Store.addSymbol { kind, name, flags, pkg := site.pkg, owner, span := h.span }
  let scope ← Store.addScope symbol (some site.scope)
  let _ ← Store.define h.span site.scope name symbol
  pure ({ h with flags, symbol := some symbol }, symbol, scope)

/-- Enters the receiver of a method, whose type is known. -/
def enterReceiver (site : Site) (ty : Option TypeId) (receiver : Option VarDecl) :
    Entry (Option VarDecl) :=
  match receiver, ty with
  | some r, some ty => some <$> r.enterWith site ty
  | receiver, _ => pure receiver

/-- Enters the parameters, the receiver and the returns of a callable. -/
def enterParts (site : Site) (ty : Option TypeId) (h : CallableHead) : Entry CallableHead := do
  let params ← h.params.mapM (·.enter site)
  let receiver ← enterReceiver site ty h.receiver
  let returns ← h.returns.mapM (·.enter site)
  pure { h with params, receiver, returns }

/-- Gives the symbol of a callable its type and its links. -/
def complete (h : CallableHead) (symbol : SymbolId) (receiver : Option TypeId) : Entry Unit := do
  let ty ← Store.newType (.callable (h.signature receiver))
  Store.modifySymbol symbol ({ · with ty := some ty, links := some (h.links receiver) })

end CallableHead

namespace Callable

mutual

/-- Enters a callable under `name`. A method has the type of its receiver in `receiver`. -/
def enter (site : Site) (kind : SymbolKind) (name : Name) (receiver : Option TypeId) :
    Callable → Entry Callable
  | mk head workers => do
    let (head, symbol, scope) ← head.declare site kind name
    let inside := site.inCallable symbol scope
    let head ← head.enterParts inside receiver
    let workers ← enterWorkers inside workers
    head.complete symbol receiver
    pure (mk head workers)

/-- Enters the workers of a callable, each with the workers nested in it. -/
def enterWorkers (site : Site) : List Callable → Entry (List Callable)
  | [] => pure []
  | worker :: rest => do
    let name ← Store.intern worker.head.name.text
    let worker ← enter site .worker name none worker
    let rest ← enterWorkers site rest
    pure (worker :: rest)

end

/-- Enters the actions of a connector or the resources of a service. -/
def enterMembers (site : Site) (kind : SymbolKind) (members : List Callable) :
    Entry (List Callable) :=
  members.mapM fun m => do
    let name ← Store.intern m.head.name.text
    m.enter site kind name none

end Callable

end Binder
