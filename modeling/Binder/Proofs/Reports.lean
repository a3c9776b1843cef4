import Binder.Proofs.PlainText
import Binder.Proofs.Receiver

/-!
# What is reported of declarations

Redeclarations aside, what is reported of a package can be read off its declarations and what the
names in them mean: for every written type that a name in it means no type, and for every method that
its receiver is no struct with the handle of the package or that it is called as a field of it.
Entering variables and callables changes none of these meanings, so they can be looked up at the end
as well.

* `Package.reports`: what is reported of a package, in order.
* `VarDecl.receiverProblem?`, `VarDecl.fieldClash?`: what is reported of a method.
* `Store.Fixes`, `Store.FixesFields`: when meanings do not change.
* `Store.Fixes.reports_eq`, `Store.FixesFields.clashReports_eq`: what is reported does not change.
-/

namespace Binder

open Store

/-! ## Reports -/

namespace CallableHead

/-- What is reported of the parameters and returns of a callable. -/
def reports (s : Store) (c : SymbolId) (h : CallableHead) : Log :=
  (h.params ++ h.returns).flatMap (·.type.reports s c)

end CallableHead

namespace VarDecl

/-- What is wrong with the receiver of `method`, if its written type means something, but no struct
    that carries the handle of the package `c`. -/
def receiverProblem? (s : Store) (c : SymbolId) (method : Ident) (r : VarDecl) : Option Problem :=
  match s.structMeant? c r.type with
  | none =>
    if r.type.reports s c = [] then some (.receiverNotStruct method.text r.type.plainText) else none
  | some (c', _) =>
    if s.table.pkgOf c' = s.table.pkgOf c then none
    else some (.receiverNotLocal method.text r.type.plainText)

/-- The struct that a receiver has been written for carries the handle of the package `c`, and has a
    field called `method`. -/
def fieldClash? (s : Store) (c : SymbolId) (method : Ident) (r : VarDecl) : Option Problem :=
  (s.structMeant? c r.type).bind fun e =>
    if s.table.pkgOf e.1 = s.table.pkgOf c ∧ (s.member? e.2 method.text .var).isSome then
      some (.fieldMethodClash method.text r.type.plainText)
    else none

/-- What is reported when a receiver is resolved. -/
def receiverReports (s : Store) (c : SymbolId) (method : Ident) (r : VarDecl) : Log :=
  r.type.reports s c ++ (r.receiverProblem? s c method).toList.map (·.diagnostic r.span)

/-- What is reported when a method has been entered. -/
def clashReports (s : Store) (c : SymbolId) (method : Ident) (r : VarDecl) : Log :=
  (r.fieldClash? s c method).toList.map (·.diagnostic method.span)

end VarDecl

namespace Callable

mutual

/-- What is reported of a callable and of the workers nested in it, a receiver aside. -/
def reports (s : Store) (c : SymbolId) : Callable → Log
  | mk head workers => head.reports s c ++ workerReports s c workers

def workerReports (s : Store) (c : SymbolId) : List Callable → Log
  | [] => []
  | worker :: rest => worker.reports s c ++ workerReports s c rest

end

/-- What is reported of a function or method. -/
def functionReports (s : Store) (c : SymbolId) (f : Callable) : Log :=
  match f.head.receiver with
  | none => f.reports s c
  | some r =>
    r.receiverReports s c f.head.name ++ f.reports s c ++ r.clashReports s c f.head.name

end Callable

/-- What is reported of a package with the symbol `c`, in order. Of initializers, only those of
    connectors have parameters. -/
def Package.reports (s : Store) (c : SymbolId) (p : Package) : Log :=
  p.connectors.flatMap (fun d => (TypeRef.ofName d.name).reports s c) ++
    p.structs.flatMap (fun d => d.fields.flatMap (·.type.reports s c)) ++
    p.connectors.flatMap (fun d => d.actions.flatMap (·.reports s c)) ++
    p.functions.flatMap (·.functionReports s c) ++
    p.services.flatMap (fun d => d.resources.flatMap (·.reports s c)) ++
    p.vars.flatMap (·.type.reports s c)

/-! ## What is declared -/

section

variable (s : Store) (c : SymbolId)

theorem TypeRef.reports_bare (r : TypeRef) : r.bare.reports s c = r.reports s c := by
  rw [reports, reports, baseName?_bare]

/-- Which struct is named does not depend on what binding finds out. -/
theorem Store.structMeant?_bare (r : TypeRef) : s.structMeant? c r.bare = s.structMeant? c r := by
  cases r <;> rfl

namespace VarDecl

theorem receiverReports_bare (method : Ident) (r : VarDecl) :
    r.bare.receiverReports s c method = r.receiverReports s c method := by
  simp only [receiverReports, receiverProblem?, bare, TypeRef.reports_bare, structMeant?_bare,
    TypeRef.plainText_bare]

theorem clashReports_bare (method : Ident) (r : VarDecl) :
    r.bare.clashReports s c method = r.clashReports s c method := by
  simp only [clashReports, fieldClash?, bare, structMeant?_bare, TypeRef.plainText_bare]

theorem flatMap_reports_bare (vs : List VarDecl) :
    (vs.map (·.bare)).flatMap (·.type.reports s c) = vs.flatMap (·.type.reports s c) := by
  rw [List.flatMap_map]
  exact List.flatMap_congr fun v _ => v.type.reports_bare s c

end VarDecl

namespace Callable

mutual

theorem reports_bare : ∀ f : Callable, f.bare.reports s c = f.reports s c
  | mk head workers => by
    rw [bare, reports, reports, workerReports_bare workers]
    refine congrArg (· ++ _) ?_
    simp only [CallableHead.reports, CallableHead.bare, ← List.map_append,
      VarDecl.flatMap_reports_bare]

theorem workerReports_bare : ∀ workers : List Callable,
    workerReports s c (bareAll workers) = workerReports s c workers
  | [] => rfl
  | worker :: rest => by
    rw [bareAll, workerReports, workerReports, reports_bare worker, workerReports_bare rest]

end

theorem functionReports_bare (f : Callable) : f.bare.functionReports s c = f.functionReports s c := by
  have hname : f.bare.head.name = f.head.name := by cases f; rfl
  have hreceiver : f.bare.head.receiver = f.head.receiver.map (·.bare) := by cases f; rfl
  rw [functionReports, functionReports, hname, hreceiver]
  cases f.head.receiver with
  | none => exact f.reports_bare s c
  | some r =>
    simp only [Option.map_some, reports_bare, VarDecl.receiverReports_bare,
      VarDecl.clashReports_bare]

end Callable

/-- What is reported of a package depends only on what is declared. -/
theorem Package.reports_bare (p : Package) : p.bare.reports s c = p.reports s c := by
  simp only [reports, bare, Struct.bare, Connector.bare, Service.bare, List.flatMap_map,
    Callable.reports_bare, Callable.functionReports_bare, VarDecl.bare, TypeRef.reports_bare]

end

/-! ## What reports depend on -/

section

variable {s t : Store} {c : SymbolId}

theorem VarDecl.flatMap_reports_congr (h : ∀ r : TypeRef, r.reports s c = r.reports t c)
    (vs : List VarDecl) :
    vs.flatMap (·.type.reports s c) = vs.flatMap (·.type.reports t c) :=
  List.flatMap_congr fun v _ => h v.type

namespace Callable

mutual

theorem reports_congr (h : ∀ r : TypeRef, r.reports s c = r.reports t c) :
    ∀ f : Callable, f.reports s c = f.reports t c
  | mk head workers => by
    rw [reports, reports, CallableHead.reports, CallableHead.reports,
      VarDecl.flatMap_reports_congr h, workerReports_congr h workers]

theorem workerReports_congr (h : ∀ r : TypeRef, r.reports s c = r.reports t c) :
    ∀ workers : List Callable, workerReports s c workers = workerReports t c workers
  | [] => rfl
  | worker :: rest => by
    rw [workerReports, workerReports, reports_congr h worker, workerReports_congr h rest]

end

theorem functionReports_congr (h : ∀ r : TypeRef, r.reports s c = r.reports t c)
    (hreceiver : ∀ method r, VarDecl.receiverReports s c method r = r.receiverReports t c method)
    (hclash : ∀ method r, VarDecl.clashReports s c method r = r.clashReports t c method)
    (f : Callable) : f.functionReports s c = f.functionReports t c := by
  rw [functionReports, functionReports, f.reports_congr h]
  cases f.head.receiver with
  | none => rfl
  | some r => simp only [hreceiver, hclash]

end Callable

end

namespace Callable

/-- Of an initializer, what is to be said of its parameters is reported. -/
theorem reports_initializer (s : Store) (c : SymbolId) (span : Span) (name : String)
    (params : List VarDecl) (defs : List VarDef) :
    (initializer span name params defs).reports s c = params.flatMap (·.type.reports s c) := by
  rw [initializer, reports, workerReports, CallableHead.reports, List.append_nil, List.append_nil]

end Callable

/-! ## Meanings that do not change -/

namespace Store

variable {u s s' : Store} {c : SymbolId} {os : List Offer}

/-- Only variables and callables are entered between two stores. -/
def Fixes (u s : Store) : Prop := ∃ os, u.Follows os s ∧ ∀ o ∈ os, o.Inner

/-- Only variables and callables are entered between two stores, and none in a struct that is there
    before. -/
def FixesFields (u s : Store) : Prop :=
  ∃ os, u.Follows os s ∧
    ∀ o ∈ os, o.Inner ∧ ∀ y, o.container = some y → u.table.kindOf y ≠ some .struct

namespace Fixes

theorem refl (hs : s.Sound) : s.Fixes s :=
  ⟨[], .refl hs, fun _ ho => absurd ho List.not_mem_nil⟩

theorem trans (h : u.Fixes s) (h' : s.Fixes s') : u.Fixes s' := by
  obtain ⟨os, hf, hos⟩ := h
  obtain ⟨os', hf', hos'⟩ := h'
  exact ⟨os ++ os', hf.trans hf', fun o ho => (List.mem_append.1 ho).elim (hos o) (hos' o)⟩

theorem follows (h : u.Fixes s) (hf : s.Follows os s') (hos : ∀ o ∈ os, o.Inner) : u.Fixes s' :=
  h.trans ⟨os, hf, hos⟩

theorem grows (h : u.Fixes s) : u.Grows s :=
  let ⟨_, hf, _⟩ := h
  hf.grows

/-- A handle is kept. -/
theorem pkgOf_eq (h : u.Fixes s) {x : SymbolId} (hx : (u.table.pkgOf x).isSome) :
    s.table.pkgOf x = u.table.pkgOf x := by
  obtain ⟨pkg, hpkg⟩ := Option.isSome_iff_exists.1 hx
  rw [hpkg, h.grows.table.pkgOf hpkg]

variable (h : u.Fixes s) (hu : u.Sound)
include h hu

/-- The same is reported of a written type. -/
theorem reports_eq (c : SymbolId) (r : TypeRef) : r.reports s c = r.reports u c := by
  obtain ⟨os, hf, hos⟩ := h
  exact hf.reports_eq hu hos c r

/-- A written type names the same struct. -/
theorem structMeant?_eq (c : SymbolId) (r : TypeRef) : s.structMeant? c r = u.structMeant? c r := by
  obtain ⟨os, hf, hos⟩ := h
  exact hf.structMeant?_eq hu hos c r

/-- The handle of a package in which a struct is found is kept. -/
theorem pkgOf_of_structMeant? {r : TypeRef} {c' y : SymbolId}
    (hy : u.structMeant? c r = some (c', y)) : s.table.pkgOf c' = u.table.pkgOf c' := by
  obtain ⟨_, _, _, _, _, _, hmember, _⟩ := exists_of_structMeant? hy
  obtain ⟨hsome, hpkg⟩ := hu.pkgOf_of_member? hmember
  exact h.pkgOf_eq (hpkg ▸ hsome)

/-- The same is reported when a receiver is resolved. -/
theorem receiverReports_eq (hc : (u.table.pkgOf c).isSome) (method : Ident) (r : VarDecl) :
    r.receiverReports s c method = r.receiverReports u c method := by
  rw [VarDecl.receiverReports, VarDecl.receiverReports, VarDecl.receiverProblem?,
    VarDecl.receiverProblem?, h.reports_eq hu, h.structMeant?_eq hu]
  cases hy : u.structMeant? c r.type with
  | none => rfl
  | some e => simp only [h.pkgOf_of_structMeant? hu hy, h.pkgOf_eq hc]

end Fixes

/-- A look-up in a scope to which nothing is offered finds what it found before. -/
theorem Follows.member?_eq_of_container (h : s.Follows os s') (hs : s.Sound) {y : SymbolId}
    (hos : ∀ o ∈ os, o.container ≠ some y) (text : String) (mask : KindMask) :
    s'.member? y text mask = s.member? y text mask := by
  refine h.member?_eq_of_bound?_eq hs ?_ mask
  rw [bound?, bound?, h.effect.bindings, List.filter_eq_nil_iff.2, List.map_nil, List.append_nil]
  exact fun o ho heq => hos o (mem_of_mem_firsts ho) (beq_iff_eq.1 heq)

/-- What is to be said of a bound name is settled. -/
theorem Follows.reports_ofName_eq (h : s.Follows os s') (hs : s.Sound) {name : Ident}
    (hb : (s.bound? c name.text).isSome) :
    (TypeRef.ofName name).reports s' c = (TypeRef.ofName name).reports s c := by
  have hmember := h.member?_eq_of_bound hs hb .type
  have hmisnaming : s'.misnaming? c none name = s.misnaming? c none name := by
    simp only [misnaming?, packageMeant?, hmember]
  exact congrArg Option.toList hmisnaming

namespace FixesFields

theorem refl (hs : s.Sound) : s.FixesFields s :=
  ⟨[], .refl hs, fun _ ho => absurd ho List.not_mem_nil⟩

theorem fixes (h : u.FixesFields s) : u.Fixes s :=
  let ⟨os, hf, hos⟩ := h
  ⟨os, hf, fun o ho => (hos o ho).1⟩

theorem trans (h : u.FixesFields s) (h' : s.FixesFields s') : u.FixesFields s' := by
  obtain ⟨os, hf, hos⟩ := h
  obtain ⟨os', hf', hos'⟩ := h'
  refine ⟨os ++ os', hf.trans hf', fun o ho => (List.mem_append.1 ho).elim (hos o) fun ho => ?_⟩
  -- What was a struct before is one still.
  exact ⟨(hos' o ho).1, fun y hy hk => (hos' o ho).2 y hy (hf.grows.table.kindOf hk)⟩

/-- The same is reported when a method has been entered. -/
theorem clashReports_eq (h : u.FixesFields s) (hu : u.Sound) (hc : (u.table.pkgOf c).isSome)
    (method : Ident) (r : VarDecl) : r.clashReports s c method = r.clashReports u c method := by
  have hfixes := h.fixes
  obtain ⟨os, hf, hos⟩ := h
  rw [VarDecl.clashReports, VarDecl.clashReports, VarDecl.fieldClash?, VarDecl.fieldClash?,
    hfixes.structMeant?_eq hu]
  cases hy : u.structMeant? c r.type with
  | none => rfl
  | some e =>
    obtain ⟨_, _, _, _, _, _, _, hkind⟩ := exists_of_structMeant? hy
    have hmember := hf.member?_eq_of_container hu (y := e.2)
      (fun o ho hcontainer => (hos o ho).2 _ hcontainer hkind) method.text .var
    rw [Option.bind_some, Option.bind_some, hfixes.pkgOf_of_structMeant? hu hy, hfixes.pkgOf_eq hc,
      hmember]

end FixesFields

end Store

end Binder
