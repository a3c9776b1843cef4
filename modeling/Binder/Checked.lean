import Binder.Resolve

/-!
# Operations on handles from outside

Entering a package follows handles of its own making, which are always good. A handle from outside
may be beyond its table; the operations here answer `none` when they would follow such a handle.

* `Table.sound`: what is bound to a name in a scope can be followed.
* `Store.claim?`, `Store.define?`, `TypeRef.resolve?`: the checked operations.
* `Store.claim?_of_sound`: on good handles, a checked operation is the operation.
-/

namespace Binder

namespace Table

variable (t : Table)

/-- Whether `scope` exists and so does the symbol bound to `name` in it, if there is one. -/
def sound (scope : ScopeId) (name : Name) : Bool :=
  match t.scope? scope with
  | none => false
  | some s =>
    match s.get? name with
    | none => true
    | some id => (t.symbol? id).isSome

/-- Whether resolving a name, given with its qualifier, meets a handle beyond its table. -/
def resolveDangles (scope : ScopeId) (qualifier : Option Name) (name : Name) : Bool :=
  match qualifier with
  | none => t.lookup scope name .type == .dangling
  | some q =>
    t.lookup scope q .package == .dangling ||
      (t.importedScope? scope q).any fun inner => t.lookupMember inner name .type == .dangling

/-- The scopes from `scope` outwards, if all of them exist. -/
def chain? (scope : ScopeId) : Option (List ScopeId) :=
  let ids := t.chain scope
  if ids.all fun id => (t.scope? id).isSome then some ids else none

end Table

namespace Store

/-- An action that is done only if the store allows it. -/
def guarded {α : Type} (allowed : Store → Bool) (a : Entry α) : Entry (Option α) := do
  if allowed (← get) then some <$> a else pure none

def claim? (span : Span) (scope : ScopeId) (name : Name) (kind : SymbolKind) :
    Entry (Option Bool) :=
  guarded (·.table.sound scope name) (claim span scope name kind)

def define? (span : Span) (scope : ScopeId) (name : Name) (symbol : SymbolId) :
    Entry (Option Bool) :=
  guarded (fun s => (s.table.symbol? symbol).isSome && s.table.sound scope name)
    (define span scope name symbol)

/-- Binds `symbol` to `name` in `scope` without a report; answers the symbol bound before, if there
    was one. -/
def bind? (scope : ScopeId) (name : Name) (symbol : SymbolId) :
    Entry (Option (Option SymbolId)) := do
  match (← get).table.scope? scope with
  | none => pure none
  | some s => do
    modify fun st => { st with table := st.table.bind scope name symbol }
    pure (some (s.get? name))

/-- Makes a scope, and answers its handle if its owner exists. -/
def addScope? (owner : SymbolId) (parent : Option ScopeId) : Entry (Option ScopeId) := do
  let known := (← get).table.symbol? owner
  let id ← addScope owner parent
  pure (known.map fun _ => id)

/-- Changes a symbol, if it exists. -/
def modifySymbol? (id : SymbolId) (f : Symbol → Symbol) : Entry (Option Unit) :=
  guarded (fun s => (s.table.symbol? id).isSome) (modifySymbol id f)

theorem claim?_of_sound {span : Span} {scope : ScopeId} {name : Name} {kind : SymbolKind}
    {s : Store} (h : s.table.sound scope name = true) :
    claim? span scope name kind s =
      (some (claim span scope name kind s).1, (claim span scope name kind s).2) := by
  simp only [claim?, guarded, bind, StateT.bind, get, getThe, MonadStateOf.get, StateT.get, pure,
    h, if_true]
  rfl

end Store

namespace TypeRef

/-- Resolves a written type seen from a scope given from outside. The names in it are interned even
    if it is not resolved. -/
def resolve? (scope : ScopeId) (r : TypeRef) : Entry (Option (TypeRef × TypeId)) := do
  match r.baseName? with
  | none => some <$> r.resolve scope
  | some (qualifier, name) => do
    let typeName ← Store.intern name.text
    let importName ← qualifier.mapM (Store.intern ·.text)
    Store.guarded (fun s => !s.table.resolveDangles scope importName typeName) (r.resolve scope)

end TypeRef

end Binder
