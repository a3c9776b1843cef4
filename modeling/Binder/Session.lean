import Binder.Config
import Binder.Import.Registry
import Binder.Store

/-!
# Sessions

A session is the store that its packages are entered into, the settings and the registry of imports.
Here is what can be asked of it; entering and loading are in `Binder.Entry.Load`.

* `Session.onStore`: an action on the store as one on the session.
* `Session.member`, `Session.scopeNames`: the members of a symbol by name.
-/

namespace Binder

structure Session where
  store : Store := {}
  config : Config := {}
  registry : Registry := {}
deriving Inhabited

namespace Session

/-- A session that starts with the given names, settings and library. -/
def start (names : Names) (config : Config) (library : Library) : Session :=
  { store := { names }, config, registry := { library } }

/-- An action on the store of a session. -/
def onStore {α : Type} (a : Entry α) : StateM Session α := fun s =>
  let (result, store) := a s.store
  (result, { s with store })

def setState (name : PackageName) (state : LoadState) : StateM Session Unit := fun s =>
  ((), { s with registry := s.registry.setState name state })

def publish (p : Package) : StateM Session Unit := fun s =>
  ((), { s with registry := s.registry.publish p })

variable (s : Session)

/-- The symbol bound to `text` among the members of a symbol, whatever its kind. -/
def member (container : SymbolId) (text : String) : Entry (Option SymbolId) := do
  match (← get).table.scopeOf container with
  | none => pure none
  | some scope => do
    let name ← Store.intern text
    pure (((← get).table.scope? scope).bind (·.get? name))

/-- The symbol bound to `text` among the members of a symbol, if it is of a kind wanted. -/
def memberOfKind (container : SymbolId) (text : String) (mask : KindMask) :
    Entry (Option SymbolId) := do
  let found ← member container text
  let t := (← get).table
  pure (found.filter fun id => (t.symbol? id).any (·.kind.mask.meets mask))

/-- The texts of the names of the members of a symbol, in the order of definition. -/
def scopeNames (container : SymbolId) : List String :=
  match (s.store.table.scopeOf container).bind s.store.table.scope? with
  | none => []
  | some scope => scope.entries.map fun e => s.store.names.text e.1

end Session

end Binder
