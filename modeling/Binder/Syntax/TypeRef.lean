import Binder.Handle
import Binder.Span

/-!
# Written types

A type as written in a declaration: a keyword, a name that may be qualified by the alias of an
import, or an array of a written type. Every level has a place for the type it was resolved to.

* `TypeRef.text`: the reference as written.
* `TypeRef.Unannotated`: no level is resolved yet.
-/

namespace Binder

/-- An identifier as written. -/
structure Ident where
  text : String
  span : Span
deriving DecidableEq, Inhabited

/-- The value types spelled as keywords. -/
inductive Primitive
  | int | float | string | boolean | blob | json | xml | any | nil
deriving DecidableEq, Inhabited

namespace Primitive

/-- All primitive types, in the order of their places. -/
def all : List Primitive := [int, float, string, boolean, blob, json, xml, any, nil]

def keyword : Primitive → String
  | int => "int"
  | float => "float"
  | string => "string"
  | boolean => "boolean"
  | blob => "blob"
  | json => "json"
  | xml => "xml"
  | any => "any"
  | nil => "nil"

/-- The primitive type spelled `text`. -/
def ofKeyword? (text : String) : Option Primitive := all.find? (·.keyword == text)

theorem mem_all (p : Primitive) : p ∈ all := by cases p <;> decide

theorem ofKeyword?_keyword (p : Primitive) : ofKeyword? p.keyword = some p := by
  cases p <;> decide

end Primitive

/-- A written type, each level with its place and the type it was resolved to. -/
inductive TypeRef
  /-- A keyword, as `int`. -/
  | primitive (p : Primitive) (span : Span) (ty : Option TypeId)
  /-- A name, as `T`, or `a:T` for the `T` of the package imported as `a`. -/
  | named (qualifier : Option Ident) (name : Ident) (span : Span) (ty : Option TypeId)
  /-- An array, as `T[]`. -/
  | array (element : TypeRef) (span : Span) (ty : Option TypeId)
deriving DecidableEq, Inhabited

namespace TypeRef

def span : TypeRef → Span
  | primitive _ s _ | named _ _ s _ | array _ s _ => s

/-- The type the outermost level was resolved to. -/
def ty : TypeRef → Option TypeId
  | primitive _ _ t | named _ _ _ t | array _ _ t => t

/-- The reference with its outermost level resolved to `t`. -/
def withTy (t : Option TypeId) : TypeRef → TypeRef
  | primitive p s _ => primitive p s t
  | named q n s _ => named q n s t
  | array e s _ => array e s t

/-- An unresolved reference to the type called `name`, placed at the name. -/
def ofName (name : Ident) : TypeRef := named none name name.span none

/-- A name as written after an optional qualifier. -/
def qualifiedText (qualifier : Option Ident) (name : Ident) : String :=
  match qualifier with
  | some q => q.text ++ ":" ++ name.text
  | none => name.text

/-- The reference as written. -/
def text : TypeRef → String
  | primitive p _ _ => p.keyword
  | named q n _ _ => qualifiedText q n
  | array e _ _ => e.text ++ "[]"

/-- The qualifier and name under the array brackets, if a name stands there. -/
def baseName? : TypeRef → Option (Option Ident × Ident)
  | primitive .. => none
  | named q n _ _ => some (q, n)
  | array e _ _ => e.baseName?

/-- No level of the reference is resolved. -/
def Unannotated : TypeRef → Prop
  | primitive _ _ t | named _ _ _ t => t = none
  | array e _ t => t = none ∧ e.Unannotated

@[simp] theorem ty_withTy (t : Option TypeId) (r : TypeRef) : (r.withTy t).ty = t := by
  cases r <;> rfl

@[simp] theorem text_withTy (t : Option TypeId) (r : TypeRef) : (r.withTy t).text = r.text := by
  cases r <;> rfl

end TypeRef

end Binder
