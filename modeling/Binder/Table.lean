import Binder.PackageName
import Binder.Scope
import Binder.Symbol
import Binder.Types

/-!
# The symbol table

All symbols, scopes, types and package names made so far, each at the place that is its handle. The
table starts with the root symbol, which owns the symbols of packages, and its scope. Nothing is
ever removed.

A look-up goes from a scope outwards along the enclosing scopes (`Table.chain`) and takes the first
binding whose kind is asked for. A handle may point beyond its table only if it comes from outside;
`Lookup.dangling` says that a look-up met such a handle.

* `Table.lookupMember`, `Table.lookup`: look-up in one scope, and from a scope outwards.
* `Table.typeText?`: the text of a type.
* `Table.addSymbol`, `Table.addScope`, `Table.addPackage`: allocation, each returning the new
  handle.
-/

namespace Binder

structure Table where
  symbols : Array Symbol
  scopes : Array Scope
  types : Types := {}
  packages : List PackageName
deriving DecidableEq

/-- The outcome of a look-up. -/
inductive Lookup
  | found (symbol : SymbolId)
  | absent
  /-- A scope on the way, or a symbol bound there, is beyond its table. -/
  | dangling
deriving DecidableEq, Inhabited

/-- The symbol found. -/
def Lookup.symbol? : Lookup → Option SymbolId
  | found s => some s
  | _ => none

namespace Table

/-- The symbol that owns the symbols of packages. -/
def root : SymbolId := ⟨0⟩

/-- The table with the root symbol, its scope and its nameless package. -/
def initial : Table where
  symbols := #[{
    kind := .package, name := .unnamed, pkg := ⟨0⟩, ty := some .package, scope := some ⟨0⟩
    span := .origin }]
  scopes := #[{ owner := root }]
  packages := [{ path := [] }]

instance : Inhabited Table := ⟨initial⟩

variable (t : Table)

/-! ## Access -/

def symbol? (id : SymbolId) : Option Symbol := t.symbols[id.index]?

def scope? (id : ScopeId) : Option Scope := t.scopes[id.index]?

def packageName? (id : PackageId) : Option PackageName := t.packages[id.index]?

/-- The symbol whose members a scope holds. -/
def ownerOf (id : ScopeId) : Option SymbolId := (t.scope? id).map (·.owner)

/-- The scope that holds the members of a symbol. -/
def scopeOf (id : SymbolId) : Option ScopeId := (t.symbol? id).bind (·.scope)

/-- The type of a symbol; the error type if it has none. -/
def typeOf (id : SymbolId) : TypeId := ((t.symbol? id).bind (·.ty)).getD .error

/-! ## Look-up -/

/-- At most `bound` scopes, from a scope outwards. -/
def chainWithin : Nat → ScopeId → List ScopeId
  | 0, _ => []
  | bound + 1, id =>
    id :: match (t.scope? id).bind (·.parent) with
      | some parent => chainWithin bound parent
      | none => []

/-- The scope itself and the enclosing ones, innermost first. A chain without a scope twice has no
    more scopes than there are, and perhaps one more that does not exist. -/
def chain (id : ScopeId) : List ScopeId := t.chainWithin (t.scopes.size + 1) id

/-- Looks a name up in one scope, among the symbols of the kinds wanted. -/
def lookupMember (scope : ScopeId) (name : Name) (mask : KindMask) : Lookup :=
  match t.scope? scope with
  | none => .dangling
  | some s =>
    match s.get? name with
    | none => .absent
    | some id =>
      match t.symbol? id with
      | none => .dangling
      | some symbol => if symbol.kind.mask.meets mask then .found id else .absent

/-- Looks a name up in each of the given scopes until one has it. -/
def lookupIn (name : Name) (mask : KindMask) : List ScopeId → Lookup
  | [] => .absent
  | scope :: rest =>
    match t.lookupMember scope name mask with
    | .absent => lookupIn name mask rest
    | outcome => outcome

/-- Looks a name up from a scope outwards. -/
def lookup (scope : ScopeId) (name : Name) (mask : KindMask) : Lookup :=
  t.lookupIn name mask (t.chain scope)

/-! ## The text of a type -/

/-- The text of a type whose parts are nested at most `bound` deep; none if they are deeper or a
    handle is beyond its table. -/
def typeTextWithin (names : Names) : Nat → TypeId → Option String
  | 0, _ => none
  | bound + 1, id =>
    match t.types.get? id with
    | none => none
    | some (.primitive p) => some p.keyword
    | some (.struct ⟨symbol, _⟩) | some (.connector symbol) | some (.service symbol) =>
      (t.symbol? symbol).map fun s => names.text s.name
    | some (.array element) => (typeTextWithin names bound element).map (· ++ "[]")
    | some (.callable s) =>
      match s.params.mapM (typeTextWithin names bound),
          s.returns.mapM (typeTextWithin names bound) with
      | some params, some returns =>
        some ("function(" ++ ",".intercalate params ++ ") (" ++ ",".intercalate returns ++ ")")
      | _, _ => none
    | some .package => some "package"
    | some .untyped => some "void"
    | some .error => some "<error>"

/-- The text of a type as it is shown in messages. Types that do not contain themselves are nested
    at most as deep as there are types. -/
def typeText? (names : Names) (id : TypeId) : Option String :=
  t.typeTextWithin names (t.types.size + 1) id

/-! ## Allocation -/

def addSymbol (s : Symbol) : SymbolId × Table :=
  (⟨t.symbols.size⟩, { t with symbols := t.symbols.push s })

/-- A new scope for the members of `owner`. -/
def addScope (owner : SymbolId) (parent : Option ScopeId) : ScopeId × Table :=
  let id : ScopeId := ⟨t.scopes.size⟩
  (id, { t with
    scopes := t.scopes.push { owner, parent }
    symbols := t.symbols.modify owner.index ({ · with scope := some id }) })

/-- The handle of a package name, and the table that has the name. -/
def addPackage (p : PackageName) : PackageId × Table :=
  (⟨t.packages.idxOf p⟩,
    if p ∈ t.packages then t else { t with packages := t.packages ++ [p] })

/-- The table with a symbol changed by `f`. -/
def modifySymbol (id : SymbolId) (f : Symbol → Symbol) : Table :=
  { t with symbols := t.symbols.modify id.index f }

/-- The table with `name` bound to `symbol` in `scope`, unless the name is bound there. -/
def bind (scope : ScopeId) (name : Name) (symbol : SymbolId) : Table :=
  { t with scopes := t.scopes.modify scope.index fun s => (s.define? name symbol).getD s }

/-! ## What an allocation leaves alone -/

@[simp] theorem symbol?_addSymbol (s : Symbol) (id : SymbolId) :
    (t.addSymbol s).2.symbol? id =
      if id = (t.addSymbol s).1 then some s else t.symbol? id := by
  simp only [addSymbol, symbol?, Array.getElem?_push]
  by_cases h : id.index = t.symbols.size
  · have : id = ⟨t.symbols.size⟩ := by cases id; exact congrArg SymbolId.mk h
    simp [this]
  · have : id ≠ ⟨t.symbols.size⟩ := fun h' => h (congrArg SymbolId.index h')
    simp [h, this]

@[simp] theorem scope?_addSymbol (s : Symbol) (id : ScopeId) :
    (t.addSymbol s).2.scope? id = t.scope? id := rfl

@[simp] theorem scope?_addScope (owner : SymbolId) (parent : Option ScopeId) (id : ScopeId) :
    (t.addScope owner parent).2.scope? id =
      if id = (t.addScope owner parent).1 then some { owner, parent } else t.scope? id := by
  simp only [addScope, scope?, Array.getElem?_push]
  by_cases h : id.index = t.scopes.size
  · have : id = ⟨t.scopes.size⟩ := by cases id; exact congrArg ScopeId.mk h
    simp [this]
  · have : id ≠ ⟨t.scopes.size⟩ := fun h' => h (congrArg ScopeId.index h')
    simp [h, this]

end Table

end Binder
