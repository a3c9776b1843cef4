import Binder.Proofs.Agreement
import Binder.Proofs.Formed

/-!
# The texts of the types of declarations

Which types the declarations of a package get can be read off what is written and reported, as far as
texts go: the type of a variable is called what is written for it, without qualifiers, unless
something is reported of that; and the type of a callable lists those of its parameters and returns.

* `Declaration.texts`: the texts of the types that a declaration and all in it should have.
* `Declaration.texts_unbound`: they depend on what is written alone.
* `Store.Agrees.texts_eq`: they are the same in stores that agree on names.
-/

namespace Binder

/-! ## Texts -/

namespace TypeRef

/-- The text of the type that a written type gets if `reports` is reported of it. -/
def textIf (reports : Log) (r : TypeRef) : String := if reports = [] then r.plainText else "<error>"

/-- The text of the type that a written type gets in the package `c`. -/
def typeText (s : Store) (c : SymbolId) (r : TypeRef) : String := r.textIf (r.reports s c)

/-- The texts of the types that the levels of a written type get, from what is under the brackets
    outwards. -/
def texts (s : Store) (c : SymbolId) : TypeRef → List String
  | r@(.primitive ..) | r@(.named ..) => [r.typeText s c]
  | r@(.array element _ _) => element.texts s c ++ [r.typeText s c]

end TypeRef

namespace VarDecl

/-- The texts of the type of a variable and of those of its written type. -/
def texts (s : Store) (c : SymbolId) (v : VarDecl) : List String :=
  v.type.typeText s c :: v.type.texts s c

/-- The texts that these have if the variable is the receiver of `method`. -/
def receiverTexts (s : Store) (c : SymbolId) (method : Ident) (v : VarDecl) : List String :=
  v.type.textIf (v.receiverReports s c method) :: v.type.texts s c

end VarDecl

namespace CallableHead

/-- The text of the type of a callable. -/
def signatureText (s : Store) (c : SymbolId) (h : CallableHead) : String :=
  "function(" ++ ",".intercalate (h.params.map (·.type.typeText s c)) ++ ") (" ++
    ",".intercalate (h.returns.map (·.type.typeText s c)) ++ ")"

/-- The texts of the type of a callable and of those of its parts. -/
def texts (s : Store) (c : SymbolId) (kind : SymbolKind) (h : CallableHead) : List String :=
  h.signatureText s c :: (h.params.flatMap (·.texts s c) ++
    (h.receivers kind).flatMap (·.receiverTexts s c h.name) ++ h.returns.flatMap (·.texts s c))

end CallableHead

/-- The texts of the types of a callable and of the workers nested in it, and of all of their parts. -/
def Callable.texts (s : Store) (c : SymbolId) (kind : SymbolKind) (f : Callable) : List String :=
  (f.nested kind).flatMap fun e => e.2.head.texts s c e.1

/-- The texts of the types of a declaration in the package `c` and of all that is declared in it. -/
def Declaration.texts (s : Store) (c : SymbolId) : Declaration → List String
  | clause _ | use _ => []
  | struct d => d.name.text :: d.fields.flatMap (·.texts s c)
  | connector d => d.name.text ::
    (d.initializer.toList.flatMap (fun f => f.texts s c f.functionKind) ++
      d.actions.flatMap (·.texts s c .action))
  | service d => d.name.text ::
    (d.initializer.toList.flatMap (fun f => f.texts s c f.functionKind) ++
      d.resources.flatMap (·.texts s c .resource))
  | function f => f.texts s c f.functionKind
  | var v => v.texts s c

/-! ## What is written -/

/-- The declaration without what binding finds out about it. -/
def Declaration.unbound : Declaration → Declaration
  | clause c => clause c
  | use i => use i.bare
  | struct d => struct d.unbound
  | connector d => connector d.unbound
  | service d => service d.unbound
  | function f => function f.unbound
  | var v => var v.unbound

section

variable (s : Store) (c : SymbolId)

namespace TypeRef

theorem typeText_bare (r : TypeRef) : r.bare.typeText s c = r.typeText s c := by
  rw [typeText, typeText, textIf, textIf, reports_bare, plainText_bare]

theorem texts_bare (r : TypeRef) : r.bare.texts s c = r.texts s c := by
  induction r with
  | primitive | named => rfl
  | array element span ty ih =>
    exact congrArg₂ (· ++ [·]) ih (typeText_bare s c (.array element span ty))

end TypeRef

namespace VarDecl

theorem texts_unbound (v : VarDecl) : v.unbound.texts s c = v.texts s c :=
  congrArg₂ (· :: ·) (v.type.typeText_bare s c) (v.type.texts_bare s c)

theorem receiverTexts_unbound (method : Ident) (v : VarDecl) :
    v.unbound.receiverTexts s c method = v.receiverTexts s c method := by
  have hreports : v.unbound.receiverReports s c method = v.receiverReports s c method := by
    rw [← receiverReports_bare, bare_unbound, receiverReports_bare]
  have htype : v.unbound.type = v.type.bare := rfl
  rw [receiverTexts, receiverTexts, hreports, htype, TypeRef.texts_bare, TypeRef.textIf,
    TypeRef.textIf, TypeRef.plainText_bare]

end VarDecl

theorem CallableHead.texts_unbound (kind : SymbolKind) (h : CallableHead) :
    h.unbound.texts s c kind = h.texts s c kind := by
  have hreceivers : h.unbound.receivers kind = (h.receivers kind).map (·.unbound) := by
    unfold receivers
    split
    · cases hr : h.receiver <;> simp [unbound, hr]
    · rfl
  have htype : ∀ v : VarDecl, v.unbound.type.typeText s c = v.type.typeText s c :=
    fun v => v.type.typeText_bare s c
  simp only [texts, signatureText, hreceivers]
  simp only [unbound, List.map_map, List.flatMap_map, Function.comp_def, htype,
    VarDecl.texts_unbound, VarDecl.receiverTexts_unbound]

namespace Callable

theorem texts_unbound (kind : SymbolKind) (f : Callable) :
    f.unbound.texts s c kind = f.texts s c kind := by
  simp only [texts, nested_unbound, List.flatMap_map, head_unbound, CallableHead.texts_unbound]

theorem functionKind_unbound (f : Callable) : f.unbound.functionKind = f.functionKind := by
  rw [← functionKind_bare, bare_unbound, functionKind_bare]

theorem flatMap_texts_unbound (f? : Option Callable) :
    (f?.map (·.unbound)).toList.flatMap (fun f => f.texts s c f.functionKind) =
      f?.toList.flatMap (fun f => f.texts s c f.functionKind) := by
  cases f? with
  | none => rfl
  | some f =>
    simp only [Option.map_some, Option.toList_some, List.flatMap_singleton, functionKind_unbound,
      texts_unbound]

end Callable

/-- The texts of the types of a declaration depend only on what is written in it. -/
theorem Declaration.texts_unbound (d : Declaration) : d.unbound.texts s c = d.texts s c := by
  cases d with
  | clause | use => rfl
  | struct d =>
    simp only [unbound, texts, Struct.unbound, List.flatMap_map, VarDecl.texts_unbound]
  | connector d =>
    simp only [unbound, texts, Connector.unbound, List.flatMap_map, Callable.flatMap_texts_unbound,
      Callable.texts_unbound]
  | service d =>
    simp only [unbound, texts, Service.unbound, List.flatMap_map, Callable.flatMap_texts_unbound,
      Callable.texts_unbound]
  | function f => simp only [unbound, texts, Callable.texts_unbound, Callable.functionKind_unbound]
  | var v => exact v.texts_unbound s c

end

/-! ## Stores that agree on names -/

namespace Store.Agrees

variable {s t : Store} {c : SymbolId} (h : s.Agrees t c)
include h

theorem typeText_eq (r : TypeRef) : r.typeText t c = r.typeText s c := by
  rw [TypeRef.typeText, TypeRef.typeText, h.reports_type]

theorem texts_type (r : TypeRef) : r.texts t c = r.texts s c := by
  induction r with
  | primitive | named => exact congrArg ([·]) (h.typeText_eq _)
  | array element _ _ ih => exact congrArg₂ (· ++ [·]) ih (h.typeText_eq _)

theorem texts_head (kind : SymbolKind) (head : CallableHead) :
    head.texts t c kind = head.texts s c kind := by
  simp only [CallableHead.texts, CallableHead.signatureText, VarDecl.texts, VarDecl.receiverTexts,
    h.typeText_eq, h.texts_type, h.receiverReports_eq]

/-- The types of a declaration have the same texts in stores that agree on names. -/
theorem texts_eq (d : Declaration) : d.texts t c = d.texts s c := by
  have hcallable : ∀ (kind : SymbolKind) (f : Callable), f.texts t c kind = f.texts s c kind :=
    fun kind f => List.flatMap_congr fun e _ => h.texts_head e.1 e.2.head
  have hvar : ∀ v : VarDecl, v.texts t c = v.texts s c := fun v =>
    congrArg₂ (· :: ·) (h.typeText_eq v.type) (h.texts_type v.type)
  cases d with
  | clause | use => rfl
  | struct | connector | service => simp only [Declaration.texts, hvar, hcallable]
  | function f => exact hcallable _ f
  | var v => exact hvar v

end Store.Agrees

end Binder
