/-!
# Import errors

Why an imported package cannot be had, and that a package could not be entered for it. Packages are
called by their text, since the message is all that is left of them here.
-/

namespace Binder

/-- Why a package could not be loaded. -/
inductive LoadError
  | notFound (package : String)
  /-- The package is still being entered. -/
  | cycle (package : String)
  /-- The package was found, but could not be entered. -/
  | failed (package : String)
deriving DecidableEq, Inhabited

namespace LoadError

/-- The package that could not be loaded. -/
def package : LoadError → String
  | notFound p | cycle p | failed p => p

def message : LoadError → String
  | notFound p => "package '" ++ p ++ "' not found"
  | cycle p => "package '" ++ p ++ "' is part of an import cycle"
  | failed p => "package '" ++ p ++ "' failed to load"

end LoadError

/-- Why a package could not be entered: one of its imports could not be loaded. -/
structure EnterError where
  /-- The package imported. -/
  package : String
  cause : LoadError
deriving DecidableEq, Inhabited

def EnterError.message (e : EnterError) : String := "import of '" ++ e.package ++ "' failed"

end Binder
