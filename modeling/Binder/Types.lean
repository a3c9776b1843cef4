import Binder.Name
import Binder.Syntax.TypeRef

/-!
# Types

The types of declarations, in a table that starts with the builtin types at fixed places: first the
primitive ones, then the type of packages, the type of what has no type, and the error type, which
stands for whatever could not be resolved. The array type of a type is made once.

* `Types.arrayOf`: the array type of an element type, made on first use.
* `Types.setFields?`: gives a struct its fields, once.
* `Types.get?_alloc`: an allocation adds one type and changes none.
-/

namespace Binder

structure Field where
  name : Name
  ty : TypeId
deriving DecidableEq, Inhabited

/-- The type of a struct. Its fields are not known before it is sealed, which is when they are
    set. -/
structure StructTy where
  symbol : SymbolId
  fields : Option (List Field) := none
deriving DecidableEq, Inhabited

/-- The type of a callable. A method has a receiver. -/
structure Signature where
  params : List TypeId := []
  returns : List TypeId := []
  receiver : Option TypeId := none
deriving DecidableEq, Inhabited

inductive Ty
  | primitive (p : Primitive)
  | struct (s : StructTy)
  | callable (s : Signature)
  | connector (symbol : SymbolId)
  | service (symbol : SymbolId)
  | array (element : TypeId)
  | package
  | untyped
  | error
deriving DecidableEq, Inhabited

namespace Ty

/-- The struct type, if it is one. -/
def struct? : Ty → Option StructTy
  | struct s => some s
  | _ => none

/-- The signature, if it is the type of a callable. -/
def signature? : Ty → Option Signature
  | callable s => some s
  | _ => none

end Ty

/-! ## The builtin types -/

namespace Primitive

/-- The place of a primitive type. -/
def typeId (p : Primitive) : TypeId := ⟨all.idxOf p⟩

end Primitive

namespace TypeId

def package : TypeId := ⟨9⟩

def untyped : TypeId := ⟨10⟩

def error : TypeId := ⟨11⟩

end TypeId

/-- The builtin types, each at its place. -/
def Ty.builtins : List Ty := Primitive.all.map .primitive ++ [.package, .untyped, .error]

theorem Ty.builtins_primitive (p : Primitive) :
    Ty.builtins[p.typeId.index]? = some (.primitive p) := by
  cases p <;> decide

/-! ## The table of types -/

structure Types where
  types : Array Ty := Ty.builtins.toArray
  /-- The array types made by `Types.arrayOf`, each behind its element type. -/
  arrays : List (TypeId × TypeId) := []
deriving DecidableEq, Inhabited

namespace Types

variable (t : Types)

def get? (id : TypeId) : Option Ty := t.types[id.index]?

def size : Nat := t.types.size

def alloc (ty : Ty) : TypeId × Types :=
  (⟨t.size⟩, { t with types := t.types.push ty })

/-- The array type of `element`, made on first use. -/
def arrayOf (element : TypeId) : TypeId × Types :=
  match t.arrays.lookup element with
  | some id => (id, t)
  | none =>
    let (id, t) := t.alloc (.array element)
    (id, { t with arrays := t.arrays ++ [(element, id)] })

/-- A struct type that is not sealed yet. -/
def newStruct (symbol : SymbolId) : TypeId × Types := t.alloc (.struct ⟨symbol, none⟩)

def struct? (id : TypeId) : Option StructTy := (t.get? id).bind Ty.struct?

def signature? (id : TypeId) : Option Signature := (t.get? id).bind Ty.signature?

/-- The table with the fields of a struct set; none if there is no such struct or it is sealed. -/
def setFields? (id : TypeId) (fields : List Field) : Option Types :=
  match t.struct? id with
  | some ⟨symbol, none⟩ =>
    some { t with types := t.types.modify id.index fun _ => .struct ⟨symbol, some fields⟩ }
  | _ => none

/-! ## Allocation -/

theorem get?_alloc (ty : Ty) (id : TypeId) :
    (t.alloc ty).2.get? id = if id = (t.alloc ty).1 then some ty else t.get? id := by
  simp only [alloc, get?, size, Array.getElem?_push]
  by_cases h : id.index = t.types.size
  · have : id = ⟨t.types.size⟩ := by cases id; exact congrArg TypeId.mk h
    simp [this]
  · have : id ≠ ⟨t.types.size⟩ := fun h' => h (congrArg TypeId.index h')
    simp [h, this]

theorem get?_of_lt {id : TypeId} (h : id.index < t.size) : (t.get? id).isSome := by
  simp [get?, size] at h ⊢; exact h

end Types

end Binder
