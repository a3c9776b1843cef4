/-!
# Settings

The names that binding a package makes up.
-/

namespace Binder

structure Config where
  /-- What the name of an initializer ends in, after the name of what it initializes. -/
  initSuffix : String := "<init>"
  /-- The name of the parameter of a connector initializer. -/
  connectorParam : String := "connector"
  /-- What a package without a package clause is called. -/
  defaultPackage : String := "."
deriving DecidableEq, Inhabited

/-- The name of the initializer of `container`. -/
def Config.initName (c : Config) (container : String) : String :=
  container ++ "." ++ c.initSuffix

end Binder
