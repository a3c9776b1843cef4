import Binder.Syntax.TypeRef
import Binder.Symbol

/-!
# Diagnostics

What goes wrong while a package is bound is a `Problem`: a cause with what it concerns. A problem at
a place makes a `Diagnostic`, with a code, a message and further places, and diagnostics are kept in
a log in the order in which they were found.

* `Problem.code`, `Problem.message`, `Problem.notes`: how each problem is reported.
* `Log.errorCount`, `Log.inFile`, `Log.withCode`: what can be asked of a log.
-/

namespace Binder

inductive Severity
  | error | warning
deriving DecidableEq, Inhabited

def Severity.word : Severity → String
  | error => "error"
  | warning => "warning"

/-- A further place that a diagnostic points at. -/
structure Note where
  span : Span
  message : String
deriving DecidableEq, Inhabited

structure Diagnostic where
  span : Span
  severity : Severity
  code : String
  message : String
  notes : List Note := []
deriving DecidableEq, Inhabited

/-- A diagnostic in one line. -/
def Diagnostic.text (d : Diagnostic) : String :=
  d.severity.word ++ "[" ++ d.code ++ "] " ++ d.span.text ++ ": " ++ d.message

/-! ## Problems -/

/-- What can go wrong while a package is bound. -/
inductive Problem
  /-- The name of a `kind` is taken in its scope, by a symbol that stands at `previous`. That is where
      the name was declared, unless it is that of an import, which is bound to the symbol of the
      imported package: that symbol stands where the imported package does. -/
  | redeclared (kind name : String) (previous : Span)
  /-- A written type names no type that is visible. -/
  | unknownType (name : String)
  /-- A written type is qualified by what is not the name of an imported package. -/
  | unknownPackage (name : String)
  /-- The receiver of a method is no struct. -/
  | receiverNotStruct (method receiver : String)
  /-- The receiver of a method is a struct of a package that is called otherwise. -/
  | receiverNotLocal (method receiver : String)
  /-- A method is called as a field of its receiver. -/
  | fieldMethodClash (method receiver : String)
  /-- An import leads back to a package that is still being entered. -/
  | cyclicImport (package : String)
  /-- An imported package cannot be had. -/
  | importFailed (package reason : String)
deriving DecidableEq, Inhabited

namespace Problem

private def quoted (text : String) : String := "'" ++ text ++ "'"

def code : Problem → String
  | unknownType _ => "E0001"
  | redeclared .. => "E0004"
  | cyclicImport _ => "E0007"
  | receiverNotStruct .. => "E0101"
  | receiverNotLocal .. => "E0102"
  | fieldMethodClash .. => "E0103"
  | unknownPackage _ => "E0104"
  | importFailed .. => "E0105"

def message : Problem → String
  | redeclared kind name _ => "redeclared " ++ kind ++ " " ++ quoted name
  | unknownType name => "unknown type " ++ quoted name
  | unknownPackage name => "undefined package " ++ quoted name
  | receiverNotStruct method receiver =>
    "cannot define function " ++ quoted method ++ " on non-struct type " ++ quoted receiver
  | receiverNotLocal method receiver =>
    "cannot define function " ++ quoted method ++ " on struct " ++ quoted receiver ++
      " declared in another package"
  | fieldMethodClash method receiver =>
    "struct " ++ quoted receiver ++ " already has a field named " ++ quoted method
  | cyclicImport package => "cyclic import of package " ++ quoted package
  | importFailed package reason => "cannot import package " ++ quoted package ++ ": " ++ reason

def notes : Problem → List Note
  | redeclared _ name previous => [⟨previous, "previous definition of " ++ quoted name⟩]
  | _ => []

/-- The report of a problem at a place. -/
def diagnostic (p : Problem) (span : Span) : Diagnostic :=
  ⟨span, .error, p.code, p.message, p.notes⟩

end Problem

/-! ## The log -/

/-- The diagnostics found so far, in order. -/
abbrev Log := List Diagnostic

namespace Log

variable (l : Log)

def inFile (file : UInt32) : List Diagnostic := l.filter (·.span.file == file)

def withCode (code : String) : List Diagnostic := l.filter (·.code == code)

def errorCount : Nat := l.countP (·.severity == .error)

def hasErrors : Bool := l.any (·.severity == .error)

theorem hasErrors_iff : l.hasErrors = true ↔ 0 < l.errorCount := by
  simp [hasErrors, errorCount, List.countP_pos_iff]

end Log

end Binder
