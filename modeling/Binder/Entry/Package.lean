import Binder.Entry.Members
import Binder.Import.Error
import Binder.Session

/-!
# Entering packages

A package is collected and gets its symbol and scope; then its imports are loaded, every one of them
even if an earlier one failed. If one did fail, the package fails with the first failure and nothing
else of it is entered. Otherwise its members are. How an import is loaded is a parameter here; the
loading of a package enters it in turn, which is closed in `Binder.Entry.Load`.

* `Import.enter`, `Import.enterAll`: one import, and all imports in order.
* `Package.enterWith`: a package.
-/

namespace Binder

/-- How an imported package is had: its symbol, or why there is none. -/
abbrev Loader := PackageName → StateM Session (Except LoadError SymbolId)

/-- The problem that a failed import is reported as. -/
def LoadError.problem (e : LoadError) (package : String) : Problem :=
  match e with
  | .cycle _ => .cyclicImport package
  | _ => .importFailed package e.message

namespace Import

/-- Loads an imported package and binds it under the local name of the import. -/
def enter (load : Loader) (site : Site) (i : Import) :
    StateM Session (Import × Option EnterError) := do
  let name ← Session.onStore
    (Store.internPackage (i.path.map (·.text)) (i.version.map (·.text)))
  match ← load name with
  | .error e => do
    let text := name.text (← get).store.names
    Session.onStore (Store.report (e.problem text) i.span)
    pure (i, some ⟨text, e⟩)
  | .ok symbol => do
    let bound ← Session.onStore (Store.intern i.localName)
    let _ ← Session.onStore (Store.define i.span site.scope bound symbol)
    pure ({ i with symbol := some symbol }, none)

/-- Enters imports in order and returns the first failure. -/
def enterAll (load : Loader) (site : Site) :
    List Import → StateM Session (List Import × Option EnterError)
  | [] => pure ([], none)
  | i :: rest => do
    let (i, failure) ← i.enter load site
    let (rest, failure') ← enterAll load site rest
    pure (i :: rest, failure.or failure')

/-- The first import is entered, then the others. -/
theorem enterAll_cons (load : Loader) (site : Site) (i : Import) (rest : List Import)
    (s : Session) : enterAll load site (i :: rest) s =
      (((i.enter load site s).1.1 :: (enterAll load site rest (i.enter load site s).2).1.1,
        (i.enter load site s).1.2.or (enterAll load site rest (i.enter load site s).2).1.2),
        (enterAll load site rest (i.enter load site s).2).2) := by
  rw [enterAll]
  rfl

end Import

namespace Package

/-- The name of a package: by its clause, else by the path it is imported by, else by the
    settings. -/
def naming (config : Config) (path : Option PackageName) (p : Package) : Entry PackageName :=
  match p.clause, path with
  | some c, _ => Store.internPackage (c.path.map (·.text)) (c.version.map (·.text))
  | none, some path => pure path
  | none, none => Store.internPackage [config.defaultPackage] none

/-- Makes the symbol and the scope of a package called `name`. -/
def declare (name : PackageName) (p : Package) : Entry Site := do
  let text := name.text (← get).names
  let symbolName ← Store.intern text
  let pkg ← Store.addPackage name
  let symbol ← Store.addSymbol
    { kind := .package, name := symbolName, pkg, owner := some Table.root, ty := some .package
      span := p.span }
  let scope ← Store.addScope symbol none
  pure (.ofPackage symbol pkg scope)

/-- Enters the imports of a package with the given site and, if all are loaded, its members. -/
def enterContents (load : Loader) (site : Site) (p : Package) :
    StateM Session (Package × Except EnterError SymbolId) := do
  let (imports, failure) ← Import.enterAll load site p.imports
  let p := { p with imports }
  match failure with
  | some e => pure (p, .error e)
  | none => do
    let p ← Session.onStore (p.enterMembers (← get).config site)
    pure (p, .ok site.package)

/-- The state of a package whose entry ended with `outcome`. -/
def stateAfter : Except EnterError SymbolId → LoadState
  | .ok symbol => .loaded symbol
  | .error _ => .failed

/-- Enters a package, on behalf of an import of `path` if there is one: the path is then what its
    state is kept under, whatever the package calls itself. -/
def enterWith (load : Loader) (path : Option PackageName) (p : Package) :
    StateM Session (Package × Except EnterError SymbolId) := do
  let p := p.collect
  let name ← Session.onStore (p.naming (← get).config path)
  let site ← Session.onStore (p.declare name)
  let key := path.getD name
  Session.setState key .inProgress
  let (p, outcome) ← { p with symbol := some site.package }.enterContents load site
  Session.setState key (stateAfter outcome)
  pure (p, outcome)

end Package

end Binder
