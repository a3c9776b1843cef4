import Binder.Diagnostic
import Binder.Table

/-!
# The store

What all packages of a session are entered into: the names, the symbol table and the log. `Entry` is
an action on a store, and the actions here are what entering is made of.

* `Store.claim`: whether a name is free in a scope; if it is not, that is reported.
* `Store.define`: binds a symbol to a name that is free.
-/

namespace Binder

structure Store where
  names : Names := {}
  table : Table := .initial
  log : Log := []
deriving Inhabited

/-- An action on a store. -/
abbrev Entry := StateM Store

namespace Table

/-- The symbol bound to `name` in `scope` itself, whatever its kind. -/
def bound? (t : Table) (scope : ScopeId) (name : Name) : Option Symbol :=
  ((t.scope? scope).bind (·.get? name)).bind t.symbol?

end Table

namespace Store

/-- The text of the name of a symbol. -/
def symbolText (s : Store) (id : SymbolId) : String :=
  ((s.table.symbol? id).map fun symbol => s.names.text symbol.name).getD ""

/-- The text of a type; empty for a type without text. -/
def typeText (s : Store) (id : TypeId) : String := (s.table.typeText? s.names id).getD ""

/-! ## Actions -/

def intern (text : String) : Entry Name := fun s =>
  let (name, names) := s.names.intern text
  (name, { s with names })

def internPackage (path : List String) (version : Option String) : Entry PackageName := fun s =>
  let (name, names) := PackageName.ofTexts path version s.names
  (name, { s with names })

def report (p : Problem) (span : Span) : Entry Unit := fun s =>
  ((), { s with log := s.log ++ [p.diagnostic span] })

def addSymbol (symbol : Symbol) : Entry SymbolId := fun s =>
  let (id, table) := s.table.addSymbol symbol
  (id, { s with table })

def addScope (owner : SymbolId) (parent : Option ScopeId) : Entry ScopeId := fun s =>
  let (id, table) := s.table.addScope owner parent
  (id, { s with table })

def addPackage (name : PackageName) : Entry PackageId := fun s =>
  let (id, table) := s.table.addPackage name
  (id, { s with table })

def modifySymbol (id : SymbolId) (f : Symbol → Symbol) : Entry Unit := fun s =>
  ((), { s with table := s.table.modifySymbol id f })

def newType (ty : Ty) : Entry TypeId := fun s =>
  let (id, types) := s.table.types.alloc ty
  (id, { s with table := { s.table with types } })

def arrayOf (element : TypeId) : Entry TypeId := fun s =>
  let (id, types) := s.table.types.arrayOf element
  (id, { s with table := { s.table with types } })

/-- Gives a struct type its fields; false if it is no struct type or has its fields. -/
def setFields (id : TypeId) (fields : List Field) : Entry Bool := fun s =>
  match s.table.types.setFields? id fields with
  | some types => (true, { s with table := { s.table with types } })
  | none => (false, s)

/-- Whether `name` is free in `scope` itself. If it is not, a redeclaration at `span` of something
    of the given kind is reported. -/
def claim (span : Span) (scope : ScopeId) (name : Name) (kind : SymbolKind) : Entry Bool := do
  let s ← get
  match s.table.bound? scope name with
  | none => pure true
  | some previous =>
    report (.redeclared kind.word (s.names.text name) previous.span) span
    pure false

/-- Binds `symbol` to `name` in `scope` if the name is free there, and returns whether it was. -/
def define (span : Span) (scope : ScopeId) (name : Name) (symbol : SymbolId) : Entry Bool := do
  match (← get).table.symbol? symbol with
  | none => pure false
  | some declared =>
    if ← claim span scope name declared.kind then
      modify fun s => { s with table := s.table.bind scope name symbol }
      pure true
    else pure false

end Store

end Binder
