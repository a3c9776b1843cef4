import Binder.Handle

/-!
# Sites

Where a declaration is entered: the scope its name is bound in, the package it belongs to and the
callable around it. A site inside another one is a new value, so entering what is inside leaves the
outer site as it was.
-/

namespace Binder

inductive SiteKind
  | package | struct | connector | service | callable
deriving DecidableEq, Inhabited

structure Site where
  kind : SiteKind
  /-- The scope in which names are bound. -/
  scope : ScopeId
  /-- The symbol of the package. -/
  package : SymbolId
  /-- The name of the package, which is what declarations carry. -/
  pkg : PackageId
  /-- The innermost callable around the site. -/
  callable : Option SymbolId := none
deriving DecidableEq, Inhabited

namespace Site

/-- The top level of a package. -/
def ofPackage (package : SymbolId) (pkg : PackageId) (scope : ScopeId) : Site :=
  { kind := .package, scope, package, pkg }

variable (s : Site)

/-- The inside of a container at `s`. -/
def inContainer (kind : SiteKind) (scope : ScopeId) : Site := { s with kind, scope }

/-- The inside of a callable at `s`. -/
def inCallable (symbol : SymbolId) (scope : ScopeId) : Site :=
  { s with kind := .callable, scope, callable := some symbol }

/-- Whether what is entered here is visible outside of its package even if not declared so. -/
def publishes : Bool := s.kind == .connector || s.kind == .service

end Site

end Binder
