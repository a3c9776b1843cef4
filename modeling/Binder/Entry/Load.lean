import Binder.Entry.Package

/-!
# Loading imports

A package that is asked for by name is entered if it has no state. While its entry is in progress,
asking for it again is an import cycle; afterwards it is loaded or failed, and stays so as far as
loading goes. Entering a package of the caller is another matter: it sets the state of the name it is
kept under, whatever state that has. Loading enters a package of the library, whose imports are loaded
in turn.

The depth of this recursion is bounded by the number of imports written in the library: all packages
whose loading is nested in one another have different names, and all but the outermost are imported
by a package of the library.

* `Session.load`: the symbol of an imported package.
* `Session.define`: enters a package of the caller.
* `Session.enterAs`: enters a package of the caller on behalf of an import.
-/

namespace Binder

namespace Session

/-- Why a package cannot be loaded now, or its symbol, if that is settled without entering it. -/
def settled? (s : Session) (name : PackageName) : Option (Except LoadError SymbolId) :=
  let text := name.text s.store.names
  match s.registry.state? name with
  | some (.loaded symbol) => some (.ok symbol)
  | some .inProgress => some (.error (.cycle text))
  | some .failed => some (.error (.failed text))
  | none => none

/-- The package of the library called `name`. -/
def fetch? (s : Session) (name : PackageName) : Option Package :=
  s.registry.library.fetch? (name.pathTexts s.store.names) (name.versionText s.store.names)

/-- Enters a package that was fetched for an import of `name`, with `load` for its own imports. -/
def enterFetched (load : Loader) (name : PackageName) (p : Package) :
    StateM Session (Except LoadError SymbolId) := do
  let text := name.text (← get).store.names
  setState name .inProgress
  let (p, outcome) ← p.enterWith load (some name)
  setState name (Package.stateAfter outcome)
  match outcome with
  | .ok symbol => do
    publish p
    pure (.ok symbol)
  | .error _ => pure (.error (.failed text))

/-- Loads a package, with loads nested at most `depth` deep in one another. A deeper nest would have
    a package in it twice, so it is an import cycle. -/
def loadWithin : Nat → Loader
  | depth, name => do
    let s ← get
    match s.settled? name with
    | some outcome => pure outcome
    | none =>
      match s.fetch? name with
      | none => pure (.error (.notFound (name.text s.store.names)))
      | some p =>
        match depth with
        | 0 => pure (.error (.cycle (name.text s.store.names)))
        | depth + 1 => enterFetched (loadWithin depth) name p

/-- How deep loads can be nested in one another. -/
def depthBound (s : Session) : Nat := s.registry.library.importCount + 1

/-- Loads the package called `name`: its symbol, or why it cannot be had. -/
def load : Loader := fun name s => loadWithin s.depthBound name s

/-- Enters a package of the caller, which is kept under its own name. -/
def define (p : Package) : StateM Session (Package × Except EnterError SymbolId) := fun s =>
  p.enterWith (loadWithin s.depthBound) none s

/-- Enters a package of the caller as if it had been imported by the path `name`. -/
def enterAs (name : PackageName) (p : Package) :
    StateM Session (Package × Except EnterError SymbolId) := fun s =>
  p.enterWith (loadWithin s.depthBound) (some name) s

end Session

end Binder
