/-!
# Handles

Symbols, scopes, types and packages live in tables and are referred to by their places there. A
handle of one kind is not one of another, and its text serves for inspection only.

In memory a handle is a word of 32 bits, which a place is cut down to. Here it is the place itself, a
number without a bound. The two are the same thing as long as no table has more than 2 ^ 32 entries;
in a larger table, two entries would share a word, but never a handle as it is here.
-/

namespace Binder

/-- The place of a symbol. -/
structure SymbolId where
  index : Nat
deriving DecidableEq, Inhabited

/-- The place of a scope. -/
structure ScopeId where
  index : Nat
deriving DecidableEq, Inhabited

/-- The place of a type. -/
structure TypeId where
  index : Nat
deriving DecidableEq, Inhabited

/-- The place of a package name. Packages that are called alike share it, so symbols that carry equal
    handles are declared in packages of one name, which may be different packages. -/
structure PackageId where
  index : Nat
deriving DecidableEq, Inhabited

def SymbolId.debugText (i : SymbolId) : String := "SymbolId(" ++ toString i.index ++ ")"

def ScopeId.debugText (i : ScopeId) : String := "ScopeId(" ++ toString i.index ++ ")"

def TypeId.debugText (i : TypeId) : String := "TypeId(" ++ toString i.index ++ ")"

def PackageId.debugText (i : PackageId) : String := "PackageId(" ++ toString i.index ++ ")"

end Binder
