import Binder.Syntax.TypeRef

/-!
# Declarations

What a package declares: variables, callables, structs, connectors, services and imports, with the
statements a body is made of. A declaration has places for what binding finds out about it: its
symbol, the type of a variable, the initializer of a connector or service. Expressions are carried
along; nothing is computed in them.
-/

namespace Binder

/-! ## Modifiers -/

/-- The modifiers of a declaration, one bit each; bits without a meaning here are kept. -/
structure Flags where
  bits : UInt16
deriving DecidableEq, Inhabited

namespace Flags

def none : Flags := ⟨0⟩

/-- Visible outside of its package. -/
def exported : Flags := ⟨1⟩

/-- A method, attached to the struct that receives it. -/
def attached : Flags := ⟨8⟩

/-- The modifiers of either side. -/
def union (f g : Flags) : Flags := ⟨f.bits ||| g.bits⟩

/-- Whether all modifiers of `g` are among those of `f`. -/
def contains (f g : Flags) : Bool := f.bits &&& g.bits == g.bits

end Flags

/-! ## Expressions and variables -/

/-- A literal. A floating-point number is given by its bits. -/
inductive Literal
  | int (value : Int)
  | float (bits : UInt64)
  | string (text : String)
  | boolean (value : Bool)
  | nil
deriving DecidableEq, Inhabited

inductive Expr
  | literal (value : Literal) (span : Span)
  | reference (qualifier : Option Ident) (name : Ident) (span : Span)
  | call (qualifier : Option Ident) (name : Ident) (args : List Expr) (span : Span)
deriving Inhabited

/-- A parameter, return binding, receiver, struct field or module variable. -/
structure VarDecl where
  span : Span
  name : Ident
  flags : Flags := .none
  type : TypeRef
  value : Option Expr := none
  symbol : Option SymbolId := none
  ty : Option TypeId := none
deriving Inhabited

/-- A variable defined in a body, or a variable of a connector or service. -/
structure VarDef where
  span : Span
  var : VarDecl
deriving Inhabited

inductive Stmt
  | define (d : VarDef)
  | ret (span : Span) (values : List Expr)
  | eval (e : Expr)
deriving Inhabited

structure Block where
  span : Span
  stmts : List Stmt
deriving Inhabited

/-! ## Callables -/

/-- A callable without its workers. -/
structure CallableHead where
  span : Span
  name : Ident
  flags : Flags := .none
  /-- The struct instance that a method belongs to. -/
  receiver : Option VarDecl := none
  params : List VarDecl := []
  returns : List VarDecl := []
  /-- A native callable has no body. -/
  body : Option Block := none
  symbol : Option SymbolId := none
deriving Inhabited

/-- A function, method, action, resource or worker, with the workers nested in it. -/
inductive Callable
  | mk (head : CallableHead) (workers : List Callable)
deriving Inhabited

namespace Callable

def head : Callable → CallableHead
  | mk h _ => h

def workers : Callable → List Callable
  | mk _ ws => ws

end Callable

/-! ## Containers and imports -/

structure Struct where
  span : Span
  name : Ident
  flags : Flags := .none
  fields : List VarDecl := []
  symbol : Option SymbolId := none
deriving Inhabited

structure Connector where
  span : Span
  name : Ident
  flags : Flags := .none
  vars : List VarDef := []
  actions : List Callable := []
  initializer : Option Callable := none
  symbol : Option SymbolId := none
deriving Inhabited

structure Service where
  span : Span
  name : Ident
  flags : Flags := .none
  vars : List VarDef := []
  resources : List Callable := []
  initializer : Option Callable := none
  symbol : Option SymbolId := none
deriving Inhabited

/-- The clause by which a source file says which package it belongs to. -/
structure PackageClause where
  span : Span
  path : List Ident
  version : Option Ident := none
deriving DecidableEq, Inhabited

structure Import where
  span : Span
  path : List Ident
  version : Option Ident := none
  asName : Option Ident := none
  symbol : Option SymbolId := none
deriving DecidableEq, Inhabited

namespace Import

/-- What an import says: the texts of its path, its version and its alias. -/
def key (i : Import) : List String × Option String × Option String :=
  (i.path.map (·.text), i.version.map (·.text), i.asName.map (·.text))

/-- Whether two imports say the same, wherever they are written. -/
def same (i j : Import) : Bool := i.key == j.key

/-- The name an import is bound under: the alias written, else the last component of its path. -/
def localName (i : Import) : String :=
  ((i.asName.or i.path.getLast?).map (·.text)).getD ""

theorem same_iff {i j : Import} : i.same j = true ↔ i.key = j.key := beq_iff_eq

end Import

end Binder
