import Binder.Import.Library
import Binder.PackageName

/-!
# The registry of imports

How far each package that was asked for has come, and the packages entered so far. A package whose
entry is in progress is asked for again only by an import cycle.

* `Registry.state?_setState`: the last state set counts.
* `Registry.debugText`: the states and the number of packages, for inspection.
-/

namespace Binder

inductive LoadState
  | inProgress
  | loaded (symbol : SymbolId)
  | failed
deriving DecidableEq, Inhabited

structure Registry where
  library : Library := {}
  /-- The states, in the order the packages were first asked for. -/
  states : List (PackageName × LoadState) := []
  /-- The imported packages, in the order their entry was finished. -/
  loaded : List Package := []
deriving Inhabited

namespace Registry

variable (r : Registry)

def state? (name : PackageName) : Option LoadState := r.states.lookup name

def setState (name : PackageName) (state : LoadState) : Registry :=
  { r with states := Assoc.put name state r.states }

/-- Keeps a package whose entry is finished. -/
def publish (p : Package) : Registry := { r with loaded := r.loaded ++ [p] }

theorem state?_setState (name n : PackageName) (state : LoadState) :
    (r.setState name state).state? n = if n = name then some state else r.state? n := by
  simp [state?, setState, Assoc.lookup_put]

/-! ## Inspection -/

private def braced (head : String) (parts : List String) : String :=
  head ++ " \x7b " ++ ", ".intercalate parts ++ " \x7d"

def nameDebugText (name : PackageName) : String :=
  braced "PackageName"
    ["components: [" ++ ", ".intercalate (name.path.map (·.debugText)) ++ "]",
      "version: " ++ match name.version with
        | some v => "Some(" ++ v.debugText ++ ")"
        | none => "None"]

def stateDebugText : LoadState → String
  | .inProgress => "InProgress"
  | .loaded symbol => "Loaded(" ++ symbol.debugText ++ ")"
  | .failed => "Failed"

def debugText : String :=
  braced "PackageLoader"
    ["states: \x7b" ++
        ", ".intercalate (r.states.map fun (n, s) => nameDebugText n ++ ": " ++ stateDebugText s) ++
        "\x7d",
      "loaded: " ++ toString r.loaded.length, ".."]

end Registry

end Binder
