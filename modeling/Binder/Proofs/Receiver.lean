import Binder.Proofs.Entry.Course

/-!
# Receivers

Which type the receiver of a method gets. If its written type names a struct, in the package itself
or in one that it imports, the receiver has the type of the struct, provided that the struct carries
the same handle of a package as the package itself. If it carries another one, that is reported, and
the receiver has the error type, as it has if its written type names no struct at all.

* `Store.structMeant?`: the struct that a written type names.
* `VarDecl.ReceivedIn`: a receiver has the type that it should have.
* `Callable.received_enterFunction`: the receiver of a method that is entered.
* `Package.received_enterMembers`: the receivers of the methods of a package.
-/

namespace Binder

open Store

/-! ## Structs that are named -/

namespace Store

variable {s s' : Store} {c y : SymbolId} {text : String}

/-- The struct that a written type names in the package `c`, behind the package that the struct is
    found in. An array of structs is no struct. -/
def structMeant? (s : Store) (c : SymbolId) : TypeRef → Option (SymbolId × SymbolId)
  | .named qualifier name _ _ =>
    (s.packageMeant? c qualifier).bind fun c' =>
      ((s.member? c' name.text .type).filter (s.table.kindOf · == some .struct)).map (c', ·)
  | .primitive .. | .array .. => none

/-- The struct that is named is found in a package. -/
theorem exists_of_structMeant? {r : TypeRef} {c' : SymbolId} (h : s.structMeant? c r = some (c', y)) :
    ∃ qualifier name span ty, r = .named qualifier name span ty ∧
      s.packageMeant? c qualifier = some c' ∧ s.member? c' name.text .type = some y ∧
      s.table.kindOf y = some .struct := by
  cases r with
  | named qualifier name span ty =>
    obtain ⟨c'', hc, hy⟩ := Option.bind_eq_some_iff.1 h
    obtain ⟨y', hy', heq⟩ := Option.map_eq_some_iff.1 hy
    cases heq
    obtain ⟨hmember, hkind⟩ := Option.filter_eq_some_iff.1 hy'
    exact ⟨qualifier, name, span, ty, rfl, hc, hmember, beq_iff_eq.1 hkind⟩
  | primitive | array => cases h

namespace Sound

variable (hs : s.Sound)
include hs

/-- A type that is found in a package carries the handle of the package. -/
theorem pkgOf_of_member? (h : s.member? c text .type = some y) :
    (s.table.pkgOf y).isSome ∧ s.table.pkgOf y = s.table.pkgOf c := by
  obtain ⟨sym, hsym, hmeets⟩ := symbol?_of_member? h
  obtain ⟨hpackage, _⟩ := SymbolKind.of_isType (sym.kind.meets_type_eq_isType ▸ hmeets)
  obtain ⟨name, sym', hsym', _, hother⟩ :=
    hs.linkedEntry_of_bound? (Option.filter_eq_some_iff.1 h).1
  cases hsym.symm.trans hsym'
  have hlinked := hs.linked.symbol y sym hsym
  have hroot : y ≠ Table.root := fun hr => hpackage (hlinked.atRoot hr).1
  obtain ⟨o, _, ho, _, _, hpkg, _⟩ := hlinked.owner hroot
  cases ho.symm.trans (hother hpackage).2
  rw [hpkg hpackage, Table.pkgOf, hsym]
  exact ⟨rfl, rfl⟩

/-- Of the types that names have, those of structs alone are struct types. -/
theorem struct?_typeOf {sym : Symbol} (hy : s.table.symbol? y = some sym) (hk : sym.kind.isType) :
    (s.table.types.struct? (s.table.typeOf y)).map (·.symbol) =
      if sym.kind = .struct then some y else none := by
  obtain ⟨ty, hty, hout⟩ := Option.map_eq_some_iff.1 (hs.outlineOf_typeOf hy hk)
  rw [Types.struct?, hty, Option.bind_some]
  cases hkind : sym.kind with
  | struct =>
    rw [hkind] at hout
    cases ty with
    | struct st => exact congrArg (fun ty => (Ty.struct? ty).map (·.symbol)) hout
    | _ => cases hout
  | connector | service =>
    rw [hkind] at hout
    cases ty with
    | struct st => cases hout
    | _ => rfl
  | _ =>
    rw [hkind] at hk
    cases hk

theorem struct?_of_builtin {i : Nat} {ty : Ty} (h : Ty.builtins[i]? = some ty) :
    s.table.types.struct? ⟨i⟩ = none := by
  have hbuiltins : ∀ ty ∈ Ty.builtins, ty.struct? = none := by decide
  rw [Types.struct?, hs.types.builtin h, Option.bind_some, hbuiltins ty (List.mem_of_getElem? h)]

theorem struct?_error : s.table.types.struct? .error = none :=
  hs.struct?_of_builtin (by decide : Ty.builtins[11]? = some .error)

/-- What a written type means is a struct type just if the written type names a struct. -/
theorem struct?_of_means {r : TypeRef} {ty : TypeId} (h : s.Means c r ty) :
    (s.table.types.struct? ty).map (·.symbol) = (s.structMeant? c r).map (·.2) := by
  have herror := hs.struct?_error
  cases r with
  | primitive k =>
    rw [show ty = k.typeId from h, hs.struct?_of_builtin (Ty.builtins_primitive k)]
    rfl
  | array element =>
    obtain ⟨inner, _, harray⟩ := h
    unfold IsArrayOf at harray
    split at harray
    · rw [harray, herror]
      rfl
    · rw [Types.struct?, harray.2]
      rfl
  | named qualifier name =>
    rw [show ty = _ from h, meaning_eq_typeIn, structMeant?]
    cases hc : s.packageMeant? c qualifier with
    | none =>
      rw [Option.map_none, Option.getD_none, herror]
      rfl
    | some c' =>
      rw [Option.map_some, Option.getD_some, Option.bind_some, typeIn]
      cases hy : s.member? c' name.text .type with
      | none =>
        rw [Option.map_none, Option.getD_none, herror]
        rfl
      | some y =>
        obtain ⟨sym, hsym, hmeets⟩ := symbol?_of_member? hy
        have hkind : s.table.kindOf y = some sym.kind := Option.map_eq_some_iff.2 ⟨sym, hsym, rfl⟩
        rw [Option.map_some, Option.getD_some,
          hs.struct?_typeOf hsym (sym.kind.meets_type_eq_isType ▸ hmeets), Option.filter_some, hkind]
        by_cases hstruct : sym.kind = .struct <;> simp [hstruct]

end Sound

/-- A written type that names a struct means the type of the struct. -/
theorem Means.typeOf_of_structMeant? {r : TypeRef} {ty : TypeId} {c' : SymbolId}
    (h : s.Means c r ty) (hy : s.structMeant? c r = some (c', y)) : s.table.typeOf y = ty := by
  obtain ⟨qualifier, name, _, _, rfl, hc, hmember, _⟩ := exists_of_structMeant? hy
  rw [show ty = _ from h, meaning_eq_typeIn, hc, Option.map_some, Option.getD_some, typeIn, hmember,
    Option.map_some, Option.getD_some]

/-- The text of a struct type is the name of the struct. -/
theorem typeText_of_struct? {id : TypeId} {st : StructTy} (h : s.table.types.struct? id = some st) :
    s.typeText id = s.symbolText st.symbol := by
  obtain ⟨ty, hty, hst⟩ := Option.bind_eq_some_iff.1 h
  cases ty with
  | struct st' =>
    cases hst
    rw [typeText, Table.typeText?, Table.typeTextWithin, hty, symbolText]
  | _ => cases hst

/-- What is wrong with a receiver, by what its written type names. -/
theorem Sound.receiverProblem?_of_means (hs : s.Sound) {pkg : PackageId}
    (hc : s.table.pkgOf c = some pkg) {r : TypeRef} {ty : TypeId} (h : s.Means c r ty)
    (method : Ident) : s.receiverProblem? pkg method ty =
      match s.structMeant? c r with
      | none => if ty = .error then none else some (.receiverNotStruct method.text (s.typeText ty))
      | some (c', y) =>
        if s.table.pkgOf c' = s.table.pkgOf c then none
        else some (.receiverNotLocal method.text (s.symbolText y)) := by
  have hstruct := hs.struct?_of_means h
  cases hmeant : s.structMeant? c r with
  | none =>
    rw [hmeant, Option.map_none, Option.map_eq_none_iff] at hstruct
    rw [receiverProblem?, hstruct]
    rfl
  | some e =>
    obtain ⟨c', y⟩ := e
    obtain ⟨_, _, _, _, _, _, hmember, hkind⟩ := exists_of_structMeant? hmeant
    obtain ⟨_, hpkg⟩ := hs.pkgOf_of_member? hmember
    obtain ⟨sym, hsym, _⟩ := Option.map_eq_some_iff.1 hkind
    rw [hmeant, Option.map_some, Option.map_eq_some_iff] at hstruct
    obtain ⟨st, hst, rfl⟩ := hstruct
    have hne : ty ≠ .error := by
      rintro rfl
      exact absurd (hst.symm.trans hs.struct?_error) (Option.some_ne_none st)
    have hiff : s.table.pkgOf c' = s.table.pkgOf c ↔ sym.pkg = pkg := by
      rw [← hpkg, hc, Table.pkgOf, hsym, Option.map_some, Option.some_inj]
    simp only [receiverProblem?, if_neg hne, hst, Option.bind_some, hsym, typeText_of_struct? hst,
      hiff]

/-- While variables and callables are entered, a written type names the same struct. -/
theorem Follows.structMeant?_eq {os : List Offer} (h : s.Follows os s') (hs : s.Sound)
    (hos : ∀ o ∈ os, o.Inner) (c : SymbolId) (r : TypeRef) :
    s'.structMeant? c r = s.structMeant? c r := by
  cases r with
  | named qualifier name =>
    rw [structMeant?, structMeant?, h.packageMeant?_eq hs hos]
    refine congrArg _ (funext fun c' => ?_)
    rw [h.member?_eq hs (fun o ho => (hos o ho).not_meets KindMask.isGlobal_type) c' name.text]
    cases hy : s.member? c' name.text .type with
    | none => rfl
    | some y =>
      obtain ⟨sym, hsym, _⟩ := symbol?_of_member? hy
      have hkind : s.table.kindOf y = some sym.kind := Option.map_eq_some_iff.2 ⟨sym, hsym, rfl⟩
      rw [Option.filter_some, Option.filter_some, hkind, h.grows.table.kindOf hkind]
  | primitive | array => rfl

end Store

/-! ## The types of receivers -/

variable {m : Mark} {s s' : Store} {site : Site} {c : SymbolId}

namespace VarDecl

/-- The receiver of `method`, which is declared in the package `c`, has the type of the struct that
    its written type names if that carries the handle of the package. If not, it has the error type,
    and a struct that carries another handle is reported. -/
def ReceivedIn (s : Store) (c : SymbolId) (method : Ident) (r : VarDecl) : Prop :=
  match s.structMeant? c r.type with
  | none => r.ty = some .error
  | some (c', y) =>
    if s.table.pkgOf c' = s.table.pkgOf c then r.ty = some (s.table.typeOf y)
    else r.ty = some .error ∧
      (Problem.receiverNotLocal method.text (s.symbolText y)).diagnostic r.span ∈ s.log

theorem ReceivedIn.congr {method : Ident} {r r' : VarDecl} (h : r.ReceivedIn s c method)
    (htype : r'.type = r.type) (hty : r'.ty = r.ty) (hspan : r'.span = r.span) :
    r'.ReceivedIn s c method := by
  rwa [ReceivedIn, htype, hty, hspan]

/-- While variables and callables are entered, a receiver keeps the type that it should have. -/
theorem ReceivedIn.mono {method : Ident} {r : VarDecl} (h : r.ReceivedIn s c method)
    {os : List Offer} (hf : s.Follows os s') (hs : s.Sound) (hc : (s.table.pkgOf c).isSome)
    (hos : ∀ o ∈ os, o.Inner) : r.ReceivedIn s' c method := by
  have hkept : ∀ {x : SymbolId}, (s.table.pkgOf x).isSome → s'.table.pkgOf x = s.table.pkgOf x :=
    fun hx => by
      obtain ⟨pkg, hpkg⟩ := Option.isSome_iff_exists.1 hx
      rw [hpkg, hf.grows.table.pkgOf hpkg]
  unfold ReceivedIn at h ⊢
  rw [hf.structMeant?_eq hs hos]
  cases hr : s.structMeant? c r.type with
  | none =>
    rw [hr] at h
    exact h
  | some e =>
    obtain ⟨c', y⟩ := e
    obtain ⟨_, name, _, _, _, _, hy, hkind⟩ := exists_of_structMeant? hr
    obtain ⟨hsome, hpkg⟩ := hs.pkgOf_of_member? hy
    obtain ⟨sym, hsym, hk⟩ := Option.map_eq_some_iff.1 hkind
    have hisType : sym.kind.isType := hk ▸ rfl
    simp only [hr] at h
    simp only [hkept (hpkg ▸ hsome), hkept hc, hf.typeOf_eq hs hsym hisType,
      hs.symbolText_eq hf.grows hsym]
    split
    · next heq => rwa [if_pos heq] at h
    · next hne =>
      rw [if_neg hne] at h
      exact ⟨h.1, hf.grows.log.subset h.2⟩

theorem resolveReceiver_of_none {receiver : VarDecl} {method : Ident} {type : TypeRef} {ty : TypeId}
    (h : receiver.type.resolve site.scope s = ((type, ty), s'))
    (hp : s'.receiverProblem? site.pkg method ty = none) :
    receiver.resolveReceiver site method s = (({ receiver with type }, ty), s') := by
  simp only [resolveReceiver, run_bind, h, run_get, hp]
  rfl

theorem resolveReceiver_of_some {receiver : VarDecl} {method : Ident} {type : TypeRef} {ty : TypeId}
    (h : receiver.type.resolve site.scope s = ((type, ty), s')) {problem : Problem}
    (hp : s'.receiverProblem? site.pkg method ty = some problem) :
    receiver.resolveReceiver site method s =
      (({ receiver with type }, .error), (report problem receiver.span s').2) := by
  simp only [resolveReceiver, run_bind, h, run_get, hp]
  rfl

/-- The type that a receiver gets when its written type is resolved. -/
theorem received_resolveReceiver (receiver : VarDecl) (method : Ident) (h : site.At c m s)
    (hpackage : s.table.pkgOf site.package = some site.pkg) :
    let r := receiver.resolveReceiver site method s
    { r.1.1 with ty := some r.1.2 }.ReceivedIn r.2 site.package method := by
  obtain ⟨hrun, _, hr⟩ := receiver.type.run_resolve (m := m) h.sound h.inside
  have hf := hrun.follows h.sound
  obtain ⟨ty, hty, hmeans⟩ := hr.means
  rw [TypeRef.resolve_fst_ty] at hty
  cases hty
  have hproblem := hf.sound.receiverProblem?_of_means (hf.grows.table.pkgOf hpackage) hmeans method
  cases hres : receiver.type.resolve site.scope s with
  | mk resolved s₁ =>
    obtain ⟨type, ty⟩ := resolved
    rw [hres] at hmeans hproblem
    -- A report changes nothing that the type depends on.
    have hreport : ∀ problem, (report problem receiver.span s₁).2.structMeant? site.package type =
      s₁.structMeant? site.package type := fun _ => rfl
    cases hmeant : s₁.structMeant? site.package type with
    | none =>
      simp only [hmeant] at hproblem
      by_cases hty : ty = .error
      · rw [if_pos hty] at hproblem
        simp only [ReceivedIn, resolveReceiver_of_none hres hproblem, hmeant, hty]
      · rw [if_neg hty] at hproblem
        simp only [ReceivedIn, resolveReceiver_of_some hres hproblem, hreport, hmeant]
    | some e =>
      obtain ⟨c', y⟩ := e
      simp only [hmeant] at hproblem
      by_cases heq : s₁.table.pkgOf c' = s₁.table.pkgOf site.package
      · rw [if_pos heq] at hproblem
        simp only [ReceivedIn, resolveReceiver_of_none hres hproblem, hmeant, if_pos heq,
          hmeans.typeOf_of_structMeant? hmeant]
      · rw [if_neg heq] at hproblem
        simp only [ReceivedIn, resolveReceiver_of_some hres hproblem, hreport, hmeant]
        exact (if_neg heq).mpr ⟨trivial, List.mem_append_right _ (List.mem_singleton_self _)⟩

end VarDecl

/-! ## Methods -/

namespace Callable

/-- A method that is entered has its receiver, with the type that was found for it. -/
theorem receiver_enter_method (site : Site) (name : Name) (ty : TypeId) {receiver : VarDecl}
    (f : Callable) (hf : f.head.receiver = some receiver) (s : Store) :
    ∃ r, (f.enter site .method name (some ty) s).1.head.receiver = some r ∧
      r.type = receiver.type ∧ r.ty = some ty ∧ r.span = receiver.span := by
  obtain ⟨head, workers⟩ := f
  have hreceiver : ∀ site s, (CallableHead.enterReceiver site (some ty) head.receiver s).1 =
      some (receiver.enterWith site ty s).1 := fun site s => by
    rw [show head.receiver = some receiver from hf, CallableHead.enterReceiver, run_map]
  rw [enter]
  simp only [run_bind, run_pure]
  exact ⟨_, hreceiver _ _, VarDecl.type_enterWith _ _ _ _, VarDecl.enterWith_written _ _ _ _⟩

/-- The receiver of a method that is entered has the type that it should have. -/
theorem received_enterFunction (f : Callable) (h : site.At c m s)
    (hpackage : s.table.pkgOf site.package = some site.pkg) {r : VarDecl}
    (hr : (f.enterFunction site s).1.head.receiver = some r) :
    r.ReceivedIn (f.enterFunction site s).2 site.package (f.enterFunction site s).1.head.name := by
  cases hf : f.head.receiver with
  | none =>
    unfold enterFunction at hr
    rw [hf] at hr
    have hnone := receiver_enter site .function (intern f.head.name.text s).1 none f
      (intern f.head.name.text s).2
    rw [hf, Option.map_none, Option.map_eq_none_iff] at hnone
    exact absurd (hr.symm.trans hnone) (Option.some_ne_none r)
  | some receiver =>
    obtain ⟨hresolve, hu, hresolved⟩ := receiver.run_resolveReceiver f.head.name h
    have hreceived := receiver.received_resolveReceiver f.head.name h hpackage
    have hf₁ := hresolve.follows h.sound
    obtain ⟨hrun, _⟩ := run_enterResolved f (h.mono hf₁) hu hresolved
    have hf₂ := hrun.follows hf₁.sound
    rw [enterFunction_eq hf] at hr ⊢
    generalize receiver.resolveReceiver site f.head.name s = resolved at *
    obtain ⟨⟨receiver', ty⟩, s₁⟩ := resolved
    have hname : (f.enterResolved site ty receiver' s₁).1.head.name = f.head.name :=
      name_enter site .method _ (some ty) (f.withReceiver receiver') _
    obtain ⟨r', hr', htype, hty, hspan⟩ := receiver_enter_method site
      (intern (methodName receiver'.type f.head.name) s₁).1 ty (f.withReceiver receiver') rfl
      (intern (methodName receiver'.type f.head.name) s₁).2
    cases hr'.symm.trans hr
    have hpkg : (s₁.table.pkgOf site.package).isSome := by
      rw [hf₁.grows.table.pkgOf hpackage]
      rfl
    rw [hname]
    exact (hreceived.congr htype hty hspan).mono hf₂ hf₁.sound hpkg (inner_functionOffers _)

end Callable

/-! ## Packages -/

namespace Package

/-- The functions and methods of a package are entered: a method that is entered is not disturbed by
    what is entered after it. -/
theorem received_enterFunctions (h : site.Top m s) (functions : List Callable) :
    let r := functions.mapM (·.enterFunction site) s
    Store.Run m s (r.1.flatMap (Callable.functionOffers (some site.package))) r.2 ∧
      ∀ f ∈ r.1, ∀ v, f.head.receiver = some v → v.ReceivedIn r.2 site.package f.head.name :=
  Run.mapM (Q := Offer.Inner) (P := site.Top m)
    (R := fun f s => ∀ v, f.head.receiver = some v → v.ReceivedIn s site.package f.head.name)
    Callable.inner_functionOffers (fun h => h.sound) (fun hf h => h.mono hf)
    (fun hf hos h hf' v hv => (hf' v hv).mono hf h.sound (by rw [h.pkgOf]; rfl) hos)
    (fun f _ s h => ⟨(f.run_enterFunction h.toAt).1,
      fun v hv => f.received_enterFunction h.toAt h.pkgOf hv⟩) h

/-- The receivers of the methods of a package have the types that they should have. -/
theorem received_enterMembers (config : Config) (p : Package) (h : site.Top m s) {f : Callable}
    (hf : f ∈ (p.enterMembers config site s).1.functions) {r : VarDecl}
    (hr : f.head.receiver = some r) :
    r.ReceivedIn (p.enterMembers config site s).2 site.package f.head.name := by
  obtain ⟨structs, connectors, services, structs', connectors', functions, services', vars, s₁, s₂,
    s₃, s₄, s₅, s₆, s₇, s₈, h₁, h₂, h₃, h₄, h₅, h₆, h₇, h₈⟩ := p.exists_stages config site s
  rw [enterMembers_eq h₁ h₂ h₃ h₄ h₅ h₆ h₇ h₈] at hf ⊢
  obtain ⟨hdeclare, hd⟩ := run_declare h h₁ h₂ h₃
  have hf₃ := hdeclare.follows h.sound
  have ht₃ := h.mono hf₃
  obtain ⟨hcontainers, _⟩ := run_enterContainers ht₃ hd h₄ h₅
  have hf₅ := hcontainers.follows ht₃.sound
  have ht₅ := ht₃.mono hf₅
  obtain ⟨hfunctions, hreceived⟩ := received_enterFunctions ht₅ p.functions
  rw [h₆] at hfunctions hreceived
  have hf₆ := hfunctions.follows ht₅.sound
  have ht₆ := ht₅.mono hf₆
  obtain ⟨hservices, _⟩ := run_enterServices ht₆
    (fun d hd' => ((hd.service d hd').mono hf₅.grows).mono hf₆.grows) h₇ h₈
  have hf₈ := hservices.follows ht₆.sound
  have ht₈ := ht₆.mono hf₈
  obtain ⟨hinit, _⟩ := (makeInitializer (s₈.symbolText site.package) p.span vars
    config).run_enterFunction ht₈.toAt
  have hrest := hf₈.trans (hinit.follows ht₈.sound)
  exact (hreceived f hf r hr).mono hrest ht₆.sound (by rw [ht₆.pkgOf]; rfl) fun o ho =>
    (List.mem_append.1 ho).elim (inner_serviceOffers _ _ _ o) (Callable.inner_functionOffers _ o)

end Package

end Binder
