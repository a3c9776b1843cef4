import Binder.Entry.Function
import Binder.Initializer

/-!
# Entering the members of a package

The members of a package are entered kind by kind, so that a written type may name what is declared
further on: first the symbols of all structs, connectors and services, which are the types of the
package, then what is written in terms of them. Only the initializer of a connector is entered
before the services are. The one type it names is written as the name of the connector, which is
bound by then: to the connector, or to what has been declared under the name before.

* `Store.declareContainer`: the symbol, the type and the scope of a struct, connector or service.
* `Package.enterMembers`: all members, in order of the kinds.
-/

namespace Binder

/-! ## Containers -/

/-- The type of a new container symbol. -/
def Ty.ofContainer (kind : SymbolKind) (symbol : SymbolId) : Ty :=
  match kind with
  | .connector => .connector symbol
  | .service => .service symbol
  | _ => .struct ⟨symbol, none⟩

/-- Makes the symbol, the type and the scope of a container and binds the symbol to its name. -/
def Store.declareContainer (site : Site) (kind : SymbolKind) (ident : Ident) (flags : Flags)
    (span : Span) : Entry SymbolId := do
  let name ← intern ident.text
  let owner := (← get).table.ownerOf site.scope
  let symbol ← addSymbol { kind, name, flags, pkg := site.pkg, owner, span }
  let ty ← newType (.ofContainer kind symbol)
  modifySymbol symbol ({ · with ty := some ty })
  let _ ← addScope symbol (some site.scope)
  let _ ← define span site.scope name symbol
  pure symbol

namespace Struct

/-- Enters a struct without its fields. -/
def declare (site : Site) (d : Struct) : Entry Struct := do
  let symbol ← Store.declareContainer site .struct d.name d.flags d.span
  pure { d with symbol := some symbol }

/-- Enters a field and returns it with its place in the struct type. -/
def enterField (site : Site) (v : VarDecl) : Entry (VarDecl × Field) := do
  let v ← v.enter site
  let name ← Store.intern v.name.text
  pure (v, ⟨name, v.ty.getD .error⟩)

/-- Enters the fields of a struct that has its symbol, and seals its type. -/
def enterFields (site : Site) (d : Struct) : Entry Struct := do
  let t := (← get).table
  match d.symbol.bind t.scopeOf with
  | none => pure d
  | some scope => do
    let fields ← d.fields.mapM (enterField (site.inContainer .struct scope))
    let _ ← Store.setFields ((d.symbol.map t.typeOf).getD .error) (fields.map (·.2))
    pure { d with fields := fields.map (·.1) }

end Struct

namespace Connector

/-- Enters a connector without its actions, and its initializer. -/
def declare (config : Config) (site : Site) (d : Connector) : Entry Connector := do
  let symbol ← Store.declareContainer site .connector d.name d.flags d.span
  let d := { d with symbol := some symbol }
  let initializer ← (d.makeInitializer config).enterFunction site
  pure { d with initializer := some initializer }

/-- Enters the actions of a connector that has its symbol. -/
def enterActions (site : Site) (d : Connector) : Entry Connector := do
  match d.symbol.bind (← get).table.scopeOf with
  | none => pure d
  | some scope => do
    let actions ← Callable.enterMembers (site.inContainer .connector scope) .action d.actions
    pure { d with actions }

end Connector

namespace Service

/-- Enters a service without its members. -/
def declare (site : Site) (d : Service) : Entry Service := do
  let symbol ← Store.declareContainer site .service d.name d.flags d.span
  pure { d with symbol := some symbol }

/-- Enters the initializer and the resources of a service that has its symbol. -/
def enterMembers (config : Config) (site : Site) (d : Service) : Entry Service := do
  let initializer ← (d.makeInitializer config).enterFunction site
  let d := { d with initializer := some initializer }
  match d.symbol.bind (← get).table.scopeOf with
  | none => pure d
  | some scope => do
    let resources ← Callable.enterMembers (site.inContainer .service scope) .resource d.resources
    pure { d with resources }

end Service

/-! ## Packages -/

namespace Package

/-- Enters the members of a package whose symbol is that of the site, and its initializer. -/
def enterMembers (config : Config) (site : Site) (p : Package) : Entry Package := do
  let structs ← p.structs.mapM (·.declare site)
  let connectors ← p.connectors.mapM (·.declare config site)
  let services ← p.services.mapM (·.declare site)
  let structs ← structs.mapM (·.enterFields site)
  let connectors ← connectors.mapM (·.enterActions site)
  let functions ← p.functions.mapM (·.enterFunction site)
  let services ← services.mapM (·.enterMembers config site)
  let vars ← p.vars.mapM (·.enter site)
  let name := (← get).symbolText site.package
  let initializer ← (makeInitializer name p.span vars config).enterFunction site
  pure { p with
    structs, connectors, services, functions, vars, initializer := some initializer }

end Package

end Binder
