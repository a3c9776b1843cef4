import Binder.Entry.Callable

/-!
# Entering functions and methods

A function with a receiver is a method. It is bound under the written type of its receiver and its
own name, with a dot between them, and its receiver has to be a struct that carries the handle of the
package, so one of the package or of another one that is called alike. If it is not, that is reported
and the receiver gets the error type, but the method is entered all the same.

* `VarDecl.resolveReceiver`: the type a receiver gets.
* `Callable.enterFunction`: a function or method at the top level of a package.
-/

namespace Binder

/-- What is wrong with a receiver type other than the error type, if it is not a struct that carries
    the handle `pkg`. -/
def Store.receiverProblem? (s : Store) (pkg : PackageId) (method : Ident) (ty : TypeId) :
    Option Problem :=
  if ty = .error then none
  else
    match (s.table.types.struct? ty).bind fun st => s.table.symbol? st.symbol with
    | none => some (.receiverNotStruct method.text (s.typeText ty))
    | some declared =>
      if declared.pkg = pkg then none
      else some (.receiverNotLocal method.text (s.typeText ty))

/-- Resolves the written type of a receiver and returns the type it gets. -/
def VarDecl.resolveReceiver (site : Site) (method : Ident) (receiver : VarDecl) :
    Entry (VarDecl × TypeId) := do
  let (type, ty) ← receiver.type.resolve site.scope
  let receiver := { receiver with type }
  match (← get).receiverProblem? site.pkg method ty with
  | none => pure (receiver, ty)
  | some problem => do
    Store.report problem receiver.span
    pure (receiver, .error)

/-- The scope of the fields of a receiver type. -/
def Table.fieldScope? (t : Table) (ty : TypeId) : Option ScopeId :=
  (t.types.struct? ty).bind fun st => t.scopeOf st.symbol

/-- Reports a method that is called as a field of its receiver. -/
def Store.checkFieldClash (method : Ident) (receiver : TypeId) : Entry Unit := do
  match (← get).table.fieldScope? receiver with
  | none => pure ()
  | some scope => do
    let name ← intern method.text
    let s ← get
    match (s.table.lookupMember scope name .var).symbol? with
    | none => pure ()
    | some _ => report (.fieldMethodClash method.text (s.typeText receiver)) method.span

namespace Callable

/-- The callable with another head. -/
def withHead (c : Callable) (head : CallableHead) : Callable := mk head c.workers

/-- The name a method is bound under. -/
def methodName (receiver : TypeRef) (method : Ident) : String := receiver.text ++ "." ++ method.text

/-- Enters a function, or a method if there is a receiver. -/
def enterFunction (site : Site) (f : Callable) : Entry Callable :=
  match f.head.receiver with
  | none => do
    let name ← Store.intern f.head.name.text
    f.enter site .function name none
  | some receiver => do
    let (receiver, ty) ← receiver.resolveReceiver site f.head.name
    let name ← Store.intern (methodName receiver.type f.head.name)
    let f := f.withHead
      { f.head with receiver := some receiver, flags := f.head.flags.union .attached }
    let f ← f.enter site .method name (some ty)
    Store.checkFieldClash f.head.name ty
    pure f

end Callable

end Binder
