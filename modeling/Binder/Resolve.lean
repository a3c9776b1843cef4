import Binder.Store

/-!
# Resolution of written types

A written type is resolved from a scope. A plain name means the type it names from that scope
outwards; a qualified name means the type it names in the package imported under the qualifier. What
cannot be resolved is reported and gets the error type, and so does an array of it.

* `Store.resolveName`: resolution of a name.
* `TypeRef.resolve`: resolution of a written type, each level of which keeps its type.
* `TypeRef.resolve_fst_ty`: the type returned is the one kept on the outermost level.
-/

namespace Binder

namespace Table

variable (t : Table)

/-- The scope of the package that is imported under `importName`, seen from `scope`. -/
def importedScope? (scope : ScopeId) (importName : Name) : Option ScopeId :=
  (t.lookup scope importName .package).symbol?.bind t.scopeOf

end Table

namespace Store

/-- The type of what a look-up found; if it found nothing, the written name is reported unknown. -/
def typeFound (qualifier : Option Ident) (name : Ident) (outcome : Lookup) : Entry TypeId := do
  match outcome.symbol? with
  | some symbol => pure ((← get).table.typeOf symbol)
  | none =>
    report (.unknownType (TypeRef.qualifiedText qualifier name)) name.span
    pure .error

/-- The type that a written name means, seen from `scope`. -/
def resolveName (scope : ScopeId) (qualifier : Option Ident) (name : Ident) : Entry TypeId := do
  let typeName ← intern name.text
  match qualifier with
  | none => typeFound qualifier name ((← get).table.lookup scope typeName .type)
  | some q =>
    let importName ← intern q.text
    match (← get).table.importedScope? scope importName with
    | none =>
      report (.unknownPackage q.text) q.span
      pure .error
    | some inner => typeFound qualifier name ((← get).table.lookupMember inner typeName .type)

/-- The array type of an element type; the error type if there is no element type. -/
def arrayOrError (element : TypeId) : Entry TypeId :=
  if element = .error then pure .error else arrayOf element

end Store

namespace TypeRef

/-- The written type with each level resolved, seen from `scope`, and its type. -/
def resolve (scope : ScopeId) : TypeRef → Entry (TypeRef × TypeId)
  | primitive p span _ => pure (primitive p span (some p.typeId), p.typeId)
  | named qualifier name span _ => do
    let ty ← Store.resolveName scope qualifier name
    pure (named qualifier name span (some ty), ty)
  | array element span _ => do
    let (element, inner) ← element.resolve scope
    let ty ← Store.arrayOrError inner
    pure (array element span (some ty), ty)

theorem resolve_fst_ty (scope : ScopeId) (r : TypeRef) (s : Store) :
    (r.resolve scope s).1.1.ty = some (r.resolve scope s).1.2 := by
  cases r <;> rfl

/-- A resolved reference is written as before. -/
theorem text_resolve (scope : ScopeId) (r : TypeRef) (s : Store) :
    (r.resolve scope s).1.1.text = r.text := by
  induction r with
  | primitive | named => rfl
  | array e span ty ih =>
    exact congrArg (· ++ "[]") ih

end TypeRef

end Binder
