import Binder.Config
import Binder.Syntax.Package

/-!
# Initializers

A connector, a service and a package get a function that defines their variables in the order they
are written and returns. The initializer of a connector has one parameter, whose type is written as
the name of the connector and resolved like any other.

A package initializer is made when the module variables have their symbols and types, and its copies
keep them. The variables of a connector or service are not entered. `VarDef.fresh` drops the symbol
and the type that their definitions may carry, and what the written type is resolved to at its
outermost level. What is known of the elements of an array is copied.
-/

namespace Binder

namespace VarDef

/-- The definition of a variable, placed at the variable. -/
def ofVar (v : VarDecl) : VarDef := ⟨v.span, v⟩

/-- The definition without symbol and type, and with its written type unresolved at the outermost
    level. The levels under it are left as they are. -/
def fresh (d : VarDef) : VarDef :=
  { d with var := { d.var with symbol := none, ty := none, type := d.var.type.withTy none } }

end VarDef

namespace Block

/-- The body that makes the definitions one by one and returns. -/
def defining (span : Span) (defs : List VarDef) : Block :=
  ⟨span, defs.map .define ++ [.ret span []]⟩

end Block

/-- The initializer called `name`, placed at what it initializes. -/
def Callable.initializer (span : Span) (name : String) (params : List VarDecl)
    (defs : List VarDef) : Callable :=
  .mk { span, name := ⟨name, span⟩, params, body := some (.defining span defs) } []

/-- The parameter of the initializer of a connector, written to be of the type of the connector. -/
def Connector.initParam (c : Connector) (config : Config) : VarDecl :=
  { span := c.span, name := ⟨config.connectorParam, c.span⟩, type := .ofName c.name }

/-- The initializer of a connector. -/
def Connector.makeInitializer (c : Connector) (config : Config) : Callable :=
  .initializer c.span (config.initName c.name.text) [c.initParam config] (c.vars.map (·.fresh))

/-- The initializer of a service. -/
def Service.makeInitializer (s : Service) (config : Config) : Callable :=
  .initializer s.span (config.initName s.name.text) [] (s.vars.map (·.fresh))

/-- The initializer of the package called `name`, placed at `span`, with the module variables
    `vars`. -/
def Package.makeInitializer (name : String) (span : Span) (vars : List VarDecl)
    (config : Config) : Callable :=
  .initializer span (config.initName name) [] (vars.map .ofVar)

end Binder
