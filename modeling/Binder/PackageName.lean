import Binder.Name

/-!
# Package names

A package is known by the components of its path and, if it has one, its version.
-/

namespace Binder

structure PackageName where
  path : List Name
  version : Option Name := none
deriving DecidableEq, Inhabited

namespace PackageName

/-- A path with a dot between components, and the version after a colon. -/
def render (path : List String) (version : Option String) : String :=
  ".".intercalate path ++ match version with
    | some v => ":" ++ v
    | none => ""

/-- The texts of the components. -/
def pathTexts (p : PackageName) (names : Names) : List String := p.path.map names.text

/-- The text of the version. -/
def versionText (p : PackageName) (names : Names) : Option String := p.version.map names.text

/-- The name as it is written in messages. -/
def text (p : PackageName) (names : Names) : String :=
  render (p.pathTexts names) (p.versionText names)

/-- The name made of the given texts, and the table with the names of all of them: the components in
    order, then the version. -/
def ofTexts (path : List String) (version : Option String) (names : Names) :
    PackageName × Names :=
  let (path, names) := names.internAll path
  match version with
  | none => (⟨path, none⟩, names)
  | some v =>
    let (version, names) := names.intern v
    (⟨path, some version⟩, names)

end PackageName

end Binder
