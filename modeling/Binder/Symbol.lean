import Binder.Name
import Binder.Syntax.Decl

/-!
# Symbols

A symbol stands for one declared entity. Its kind decides which look-ups it answers to: each kind
has a mask of categories, and a look-up names the categories it wants.

* `SymbolKind.mask`: connectors and services are types, too.
* `Links`: the symbols of a callable's parameters, returns and receiver.
-/

namespace Binder

/-! ## Kinds -/

inductive SymbolKind
  | package | struct | function | method | var | worker | connector | action | service
  | resource
deriving DecidableEq, Inhabited

/-- A set of categories of symbols, one bit each. -/
structure KindMask where
  bits : UInt8
deriving DecidableEq, Inhabited

namespace KindMask

def package : KindMask := ⟨1⟩

def type : KindMask := ⟨2⟩

def var : KindMask := ⟨4⟩

def callable : KindMask := ⟨8⟩

def connectorType : KindMask := ⟨18⟩

def serviceType : KindMask := ⟨34⟩

/-- Whether the two sets have a category in common. -/
def meets (m n : KindMask) : Bool := m.bits &&& n.bits != 0

end KindMask

namespace SymbolKind

/-- How a kind is called in messages. -/
def word : SymbolKind → String
  | package => "package"
  | struct => "struct"
  | function => "function"
  | method => "method"
  | var => "variable"
  | worker => "worker"
  | connector => "connector"
  | action => "action"
  | service => "service"
  | resource => "resource"

def all : List SymbolKind :=
  [package, struct, function, method, var, worker, connector, action, service, resource]

/-- The kind called `word`. -/
def ofWord? (word : String) : Option SymbolKind := all.find? (·.word == word)

/-- The categories a kind belongs to. -/
def mask : SymbolKind → KindMask
  | package => .package
  | struct => .type
  | var => .var
  | connector => .connectorType
  | service => .serviceType
  | function | method | worker | action | resource => .callable

/-- Whether symbols of the kind have a scope of their own. -/
def isContainer : SymbolKind → Bool
  | var => false
  | _ => true

theorem ofWord?_word (k : SymbolKind) : ofWord? k.word = some k := by cases k <;> decide

/-- The kinds that a look-up for types finds. -/
theorem mask_meets_type {k : SymbolKind} :
    k.mask.meets .type = true ↔ k = struct ∨ k = connector ∨ k = service := by
  cases k <;> decide

/-- Only packages are found by a look-up for packages. -/
theorem mask_meets_package {k : SymbolKind} : k.mask.meets .package = true ↔ k = package := by
  cases k <;> decide

end SymbolKind

/-! ## Symbols -/

/-- The symbols a callable is made of: those that its parameters, its returns and the receiver of a
    method have when they have been entered. An unnamed one is given none, but it keeps the symbol
    that it was written with, if there is one. -/
structure Links where
  params : List SymbolId := []
  returns : List SymbolId := []
  receiver : Option SymbolId := none
deriving DecidableEq, Inhabited

structure Symbol where
  kind : SymbolKind
  name : Name
  flags : Flags := .none
  /-- The name of the package the declaration is written in. -/
  pkg : PackageId
  /-- The symbol around this one. -/
  owner : Option SymbolId := none
  ty : Option TypeId := none
  /-- The scope of the members. -/
  scope : Option ScopeId := none
  span : Span
  /-- Present for a callable whose parts are known. -/
  links : Option Links := none
deriving DecidableEq, Inhabited

def Symbol.isPublic (s : Symbol) : Bool := s.flags.contains .exported

end Binder
