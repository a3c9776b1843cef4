import Binder.Assoc
import Binder.Syntax.Package

/-!
# Libraries

A library holds the packages that can be imported, each under a dotted path and an optional version.
There is one package for a path and version: a later one takes the place of an earlier one.

* `Library.find?_insert`: what an insertion changes.
-/

namespace Binder

structure Library where
  /-- The packages, in the order their paths and versions were first inserted. -/
  entries : List ((String × Option String) × Package) := []
deriving Inhabited

namespace Library

variable (l : Library)

/-- The package at a dotted path. -/
def find? (path : String) (version : Option String) : Option Package :=
  l.entries.lookup (path, version)

def contains (path : String) (version : Option String) : Bool := (l.find? path version).isSome

def insert (path : String) (version : Option String) (p : Package) : Library :=
  ⟨Assoc.put (path, version) p l.entries⟩

/-- The package at the path with the given components. -/
def fetch? (path : List String) (version : Option String) : Option Package :=
  l.find? (".".intercalate path) version

def size : Nat := l.entries.length

def isEmpty : Bool := l.entries.isEmpty

/-- How many imports are written in the packages of the library. -/
def importCount : Nat := (l.entries.flatMap fun e => e.2.collect.imports).length

theorem find?_insert (path path' : String) (version version' : Option String) (p : Package) :
    (l.insert path version p).find? path' version' =
      if path' = path ∧ version' = version then some p else l.find? path' version' := by
  simp [find?, insert, Assoc.lookup_put]

end Library

end Binder
