import Binder.Proofs.Annotation
import Binder.Proofs.Entry.Finish
import Binder.Proofs.StructScope

/-!
# Methods

The receiver of a method ought to be a struct of the package that the method is declared in. It is
one, or it is a struct of another package, or something else than a struct, or nothing at all, and in
each of the last three cases one thing is reported. Of which package a struct is, its handle tells,
and packages that are called alike share theirs. Whatever comes out of that, the method is made: it
is called after the written type of its receiver, and its receiver has the type of the struct or the
error type. A method of a struct that has a field of the same name is reported, too, and since that is
looked for when the fields of all structs are there, it does not matter where either is written.

* `Store.receiverCase`: the four cases.
* `Callable.MethodIn`: what a method comes to.
* `Session.Enters.methods`: the methods of every package that is entered with success.
-/

namespace Binder

open Store

/-! ## The receiver -/

/-- How the type of a receiver fits the package with a handle. -/
inductive ReceiverCase
  /-- A struct that carries the handle. -/
  | own
  /-- A struct that carries another handle. -/
  | foreign
  /-- A type that is no struct. -/
  | notStruct
  /-- The error type. -/
  | unresolved
deriving DecidableEq

namespace Store

variable {s : Store} {c : SymbolId} {pkg : PackageId} {r : VarDecl} {ty : TypeId}

/-- How a type, as that of a receiver, fits the package with the handle `pkg`. -/
def receiverCase (s : Store) (pkg : PackageId) (ty : TypeId) : ReceiverCase :=
  if ty = .error then .unresolved
  else
    match s.table.types.struct? ty with
    | none => .notStruct
    | some st => if s.table.pkgOf st.symbol = some pkg then .own else .foreign

/-- How the type that a written type means fits a package, by what it names. -/
theorem Sound.receiverCase_of_means (hs : s.Sound) (hc : s.table.pkgOf c = some pkg) {r : TypeRef}
    (h : s.Means c r ty) : s.receiverCase pkg ty =
      match s.structMeant? c r with
      | none => if r.reports s c = [] then .notStruct else .unresolved
      | some (c', _) => if s.table.pkgOf c' = s.table.pkgOf c then .own else .foreign := by
  have hstruct := hs.struct?_of_means h
  unfold receiverCase
  cases hmeant : s.structMeant? c r with
  | none =>
    rw [hmeant, Option.map_none, Option.map_eq_none_iff] at hstruct
    rw [hstruct]
    by_cases hty : ty = .error
    · exact (if_pos hty).trans (if_neg ((h.eq_error_iff hs).1 hty)).symm
    · have hnil : r.reports s c = [] :=
        Decidable.not_not.1 fun hne => hty ((h.eq_error_iff hs).2 hne)
      exact (if_neg hty).trans (if_pos hnil).symm
  | some e =>
    obtain ⟨c', y⟩ := e
    obtain ⟨_, _, _, _, _, _, hmember, _⟩ := exists_of_structMeant? hmeant
    obtain ⟨_, hpkg⟩ := hs.pkgOf_of_member? hmember
    rw [hmeant, Option.map_some, Option.map_eq_some_iff] at hstruct
    obtain ⟨st, hst, rfl⟩ := hstruct
    have hne : ty ≠ .error := by
      rintro rfl
      exact absurd (hst.symm.trans hs.struct?_error) (Option.some_ne_none st)
    rw [if_neg hne, hst]
    simp only [hpkg, hc]

end Store

/-! ## What a method comes to -/

/-- What the method `f` of the package `x`, which carries the handle `pkg`, comes to if the written
    type of its receiver `r` is resolved to `ty`. -/
structure Callable.MethodIn (s : Store) (x : SymbolId) (pkg : PackageId) (f : Callable) (r : VarDecl)
    (ty : TypeId) : Prop where
  resolved : r.type.ty = some ty
  /-- The receiver has that type if it is one of a struct that carries the handle. -/
  type : r.ty = some (if s.receiverCase pkg ty = .own then ty else .error)
  /-- At most one thing is reported of the receiver. -/
  reported : match s.receiverCase pkg ty with
    | .own => r.receiverReports s x f.head.name = []
    | .foreign => r.receiverReports s x f.head.name =
        [(Problem.receiverNotLocal f.head.name.text r.type.plainText).diagnostic r.span]
    | .notStruct => r.receiverReports s x f.head.name =
        [(Problem.receiverNotStruct f.head.name.text r.type.plainText).diagnostic r.span]
    | .unresolved => ∃ d, r.receiverReports s x f.head.name = [d] ∧
        (d.code = "E0001" ∨ d.code = "E0104")
  /-- A receiver that has a name is a variable of the type that it has. -/
  received : r.name.text ≠ "" → s.Has (r.offer f.head.symbol)
  /-- The method is called after its receiver, is attached to it, and receives the type it has. -/
  symbol : ∃ y sym id g, f.head.symbol = some y ∧ s.table.symbol? y = some sym ∧
    sym.kind = .method ∧ sym.owner = some x ∧
    s.names.text? sym.name = some (r.type.text ++ "." ++ f.head.name.text) ∧
    sym.flags.contains .attached ∧ sym.ty = some id ∧
    s.table.types.get? id = some (.callable g) ∧ g.receiver = r.ty
  /-- The struct that carries the handle, if the receiver is one, has been declared. -/
  declared : s.receiverCase pkg ty = .own → ∃ d : Struct, d.DeclaredIn s ∧
    (s.table.types.struct? ty).map (·.symbol) = d.symbol
  /-- If it has a field that is called like the method, that is reported. -/
  clash : ∀ d : Struct, d.DeclaredIn s → (s.table.types.struct? ty).map (·.symbol) = d.symbol →
    r.clashReports s x f.head.name =
      if s.receiverCase pkg ty = .own ∧ f.head.name.text ≠ "" ∧
          ∃ v ∈ d.fields, v.name.text = f.head.name.text then
        [(Problem.fieldMethodClash f.head.name.text r.type.plainText).diagnostic f.head.name.span]
      else []
  /-- Otherwise nothing of the kind is. -/
  noClash : s.receiverCase pkg ty ≠ .own → r.clashReports s x f.head.name = []

/-! ## How it comes to that -/

theorem Flags.contains_union_right (f g : Flags) : (f.union g).contains g := by
  refine beq_iff_eq.2 (UInt16.toBitVec_inj.1 (BitVec.eq_of_getElem_eq fun i hi => ?_))
  simp +contextual [Flags.union]

/-- At most one thing is said of a written type, and that is that a name means no type. -/
theorem TypeRef.reports_eq_nil_or (s : Store) (c : SymbolId) (r : TypeRef) :
    r.reports s c = [] ∨ ∃ d, r.reports s c = [d] ∧ (d.code = "E0001" ∨ d.code = "E0104") := by
  unfold reports
  cases hd : r.baseName?.bind fun b => s.misnaming? c b.1 b.2 with
  | none => exact .inl rfl
  | some d =>
    refine .inr ⟨d, rfl, ?_⟩
    obtain ⟨b, _, hmisnaming⟩ := Option.bind_eq_some_iff.1 hd
    unfold misnaming? at hmisnaming
    split at hmisnaming
    · obtain ⟨q, _, rfl⟩ := Option.map_eq_some_iff.1 hmisnaming
      exact .inr rfl
    · split at hmisnaming <;> cases hmisnaming
      exact .inl rfl

/-- Nothing is to be said of a written type that names a struct. -/
theorem Store.reports_of_structMeant? {s : Store} {c : SymbolId} {r : TypeRef}
    {e : SymbolId × SymbolId} (h : s.structMeant? c r = some e) : r.reports s c = [] := by
  obtain ⟨qualifier, name, _, _, rfl, hc, hmember, _⟩ := exists_of_structMeant? h
  have hmisnaming : s.misnaming? c qualifier name = none := by
    simp only [misnaming?, hc, hmember]
  exact congrArg Option.toList hmisnaming

namespace VarDecl

variable {s : Store} {c : SymbolId} {pkg : PackageId} {r : VarDecl} {ty : TypeId} {method : Ident}

/-- The receiver of a method, by what its written type means. -/
theorem ReceivedIn.ty_eq (h : r.ReceivedIn s c method) (hs : s.Sound)
    (hc : s.table.pkgOf c = some pkg) (hm : s.Means c r.type ty) :
    r.ty = some (if s.receiverCase pkg ty = .own then ty else .error) := by
  have hcase := hs.receiverCase_of_means hc hm
  unfold ReceivedIn at h
  cases hmeant : s.structMeant? c r.type with
  | none =>
    simp only [hmeant] at h hcase
    rw [if_neg, h]
    rw [hcase]
    split <;> nofun
  | some e =>
    simp only [hmeant] at h hcase
    by_cases hpkg : s.table.pkgOf e.1 = s.table.pkgOf c
    · rw [if_pos hpkg] at h hcase
      rw [if_pos hcase, h, hm.typeOf_of_structMeant? hmeant]
    · rw [if_neg hpkg] at h hcase
      rw [if_neg (by rw [hcase]; nofun), h.1]

/-- What is reported of the receiver of a method, by what its written type means. -/
theorem receiverReports_of_means (hs : s.Sound) (hc : s.table.pkgOf c = some pkg)
    (hm : s.Means c r.type ty) (method : Ident) : match s.receiverCase pkg ty with
    | .own => r.receiverReports s c method = []
    | .foreign => r.receiverReports s c method =
        [(Problem.receiverNotLocal method.text r.type.plainText).diagnostic r.span]
    | .notStruct => r.receiverReports s c method =
        [(Problem.receiverNotStruct method.text r.type.plainText).diagnostic r.span]
    | .unresolved => ∃ d, r.receiverReports s c method = [d] ∧
        (d.code = "E0001" ∨ d.code = "E0104") := by
  rw [hs.receiverCase_of_means hc hm, receiverReports, receiverProblem?]
  cases hmeant : s.structMeant? c r.type with
  | none =>
    rcases r.type.reports_eq_nil_or s c with hnil | ⟨d, hd, hcode⟩
    · simp only [hnil]
      rfl
    · simp only [hd]
      exact ⟨d, rfl, hcode⟩
  | some e =>
    have hnil := reports_of_structMeant? hmeant
    by_cases hpkg : s.table.pkgOf e.1 = s.table.pkgOf c
    · simp only [hnil, if_pos hpkg]
      rfl
    · simp only [hnil, if_neg hpkg]
      rfl

/-- A clash with a field, by what the written type of the receiver means. -/
theorem clashReports_of_means (hs : s.Sound) (hc : s.table.pkgOf c = some pkg)
    (hm : s.Means c r.type ty) (method : Ident) :
    (s.receiverCase pkg ty ≠ .own → r.clashReports s c method = []) ∧
      ∀ d : Struct, d.DeclaredIn s → (s.table.types.struct? ty).map (·.symbol) = d.symbol →
        r.clashReports s c method =
          if s.receiverCase pkg ty = .own ∧ method.text ≠ "" ∧
              ∃ v ∈ d.fields, v.name.text = method.text then
            [(Problem.fieldMethodClash method.text r.type.plainText).diagnostic method.span]
          else [] := by
  have hcase := hs.receiverCase_of_means hc hm
  have hstruct := hs.struct?_of_means hm
  rw [clashReports, fieldClash?]
  cases hmeant : s.structMeant? c r.type with
  | none =>
    simp only [hmeant] at hcase hstruct
    have hne : s.receiverCase pkg ty ≠ .own := by
      rw [hcase]
      split <;> decide
    exact ⟨fun _ => rfl, fun d _ _ => (if_neg fun h => hne h.1).symm⟩
  | some e =>
    simp only [hmeant] at hcase hstruct
    rw [Option.bind_some]
    by_cases hpkg : s.table.pkgOf e.1 = s.table.pkgOf c
    · rw [if_pos hpkg] at hcase
      refine ⟨fun hne => absurd hcase hne, fun d hd hsymbol => ?_⟩
      have hiff := hd.isSome_member?_iff (hsymbol.symm.trans hstruct) method.text
      simp only [hpkg, hiff, hcase, true_and]
      split <;> rfl
    · rw [if_neg hpkg] at hcase
      have hne : s.receiverCase pkg ty ≠ .own := by
        rw [hcase]
        decide
      simp only [hpkg, hne, false_and, if_false]
      exact ⟨fun _ => rfl, fun _ _ _ => rfl⟩

end VarDecl

namespace Callable

theorem functionKind_of_receiver {f : Callable} {r : VarDecl} (hr : f.head.receiver = some r) :
    f.functionKind = .method := by
  rw [functionKind, hr]
  rfl

theorem flags_unbound (f : Callable) : f.unbound.head.flags = f.head.flags := by cases f; rfl

theorem receiver_unbound (f : Callable) :
    f.unbound.head.receiver = f.head.receiver.map (·.unbound) := by cases f; rfl

theorem receiver_equipped (f : Callable) : f.equipped.head.receiver = f.head.receiver := by
  unfold equipped
  split
  · cases f; rfl
  · rfl

end Callable

/-! ## Packages -/

namespace Package

variable {load : Loader} {site : Site} {s₀ s s₁ s' : Session} {imports : List Import} {p : Package}
  {c : SymbolId} {f : Callable} {r : VarDecl}

/-- What a function or method offers is offered of the package. -/
theorem functionOffers_subset (c : SymbolId) (hf : f ∈ p.functions) :
    f.functionOffers (some c) ⊆ p.memberOffers (some c) := fun o ho => by
  have hmem : o ∈ p.functions.flatMap (·.functionOffers (some c)) := List.mem_flatMap.2 ⟨f, hf, ho⟩
  simp only [memberOffers, List.mem_append]
  tauto

/-- A function with a receiver is one of the callables of the package, as a method. -/
theorem method_mem_everyCallable (hf : f ∈ p.functions) (hr : f.head.receiver = some r) :
    (.method, f) ∈ p.everyCallable := by
  have hmem := mem_everyCallable (mem_callables.2 (.function hf))
  rwa [Callable.kinded, Callable.functionKind_of_receiver hr] at hmem

/-- The methods of a package that is entered are attached to their receivers. -/
theorem contains_attached {q : Package} {config : Config} {title : String} {vars : List VarDecl}
    (h : p.unbound = (q.equipped config title vars).unbound) (hf : f ∈ p.functions)
    (hr : f.head.receiver.isSome) : f.head.flags.contains .attached := by
  have hfunctions : p.functions.map (·.unbound) =
      (q.functions.map (·.equipped)).map (·.unbound) := congrArg Package.functions h
  have hmem : f.unbound ∈ (q.functions.map (·.equipped)).map (·.unbound) :=
    hfunctions ▸ List.mem_map_of_mem hf
  obtain ⟨g', hg', heq⟩ := List.mem_map.1 hmem
  obtain ⟨g, _, rfl⟩ := List.mem_map.1 hg'
  have hsome : g.head.receiver.isSome := by
    rw [← Option.isSome_map (f := VarDecl.unbound), ← f.receiver_unbound, ← heq,
      g.equipped.receiver_unbound, g.receiver_equipped, Option.isSome_map] at hr
    exact hr
  rw [← f.flags_unbound, ← heq, g.equipped.flags_unbound, Callable.equipped, if_pos hsome]
  cases g
  exact Flags.contains_union_right _ _

/-- A method of a package that is entered comes to what it should. -/
theorem Entered.methodIn (h : Entered load site s₀ s s₁ imports p s')
    (hdeclared : s'.store.StructsDeclared) (hf : f ∈ p.functions)
    (hattached : f.head.flags.contains .attached) (hcompleted : f.CompletedIn s'.store .method)
    (hr : f.head.receiver = some r)
    (hreceived : r.ReceivedIn s'.store site.package f.head.name) :
    ∃ ty, f.MethodIn s'.store site.package site.pkg r ty := by
  have hs := h.follows.sound
  have hpkg : s'.store.table.pkgOf site.package = some site.pkg :=
    h.follows.grows.table.pkgOf h.opens.top.pkgOf
  have hpart : r ∈ f.head.parts .method := by
    rw [CallableHead.parts, if_pos rfl, hr]
    exact List.mem_append_left _ (List.mem_append_right _ List.mem_cons_self)
  have hevery := method_mem_everyCallable hf hr
  obtain ⟨_, hvars⟩ := offers_of_mem_everyCallable (c := site.package) hevery
  have hhas := functionOffers_subset site.package hf
  rw [Callable.functionOffers, Callable.offers_eq, Callable.functionKind_of_receiver hr] at hhas
  obtain ⟨ty, hty, hm⟩ := (h.vars r (hvars r hpart)).type.means
  obtain ⟨hnoClash, hclash⟩ := VarDecl.clashReports_of_means hs hpkg hm f.head.name
  refine ⟨ty, hty, hreceived.ty_eq hs hpkg hm, VarDecl.receiverReports_of_means hs hpkg hm _,
    h.has_part hevery hpart, ?_, fun hown => ?_, hclash, hnoClash⟩
  · obtain ⟨y, sym, hy, hsym, hk, howner, hflags, _, htext, _⟩ :=
      h.follows.has _ (hhas List.mem_cons_self)
    obtain ⟨y', sym', id, hy', hsym', hid, hget, _⟩ := hcompleted.complete
    cases (show f.head.symbol = some y from hy).symm.trans hy'
    cases hsym.symm.trans hsym'
    refine ⟨y, sym, id, _, hy, hsym, hk, howner, htext.trans ?_, hflags ▸ hattached, hid, hget, ?_⟩
    · rw [show (f.head.offer (some site.package) f.functionName .method).text = f.functionName from
        rfl, Callable.functionName, hr]
      rfl
    · rw [show (f.head.signature (f.head.received .method)).receiver = f.head.received .method from
        rfl, CallableHead.received, if_pos rfl, hr]
      rfl
  · have hcase := hs.receiverCase_of_means hpkg hm
    have hstruct := hs.struct?_of_means hm
    cases hmeant : s'.store.structMeant? site.package r.type with
    | none =>
      simp only [hmeant] at hcase
      rw [hown] at hcase
      split at hcase <;> cases hcase
    | some e =>
      obtain ⟨_, _, _, _, _, _, _, hk⟩ := exists_of_structMeant? hmeant
      obtain ⟨d, hd, hdeclaredIn⟩ := hdeclared e.2 hk
      exact ⟨d, hdeclaredIn, by rw [hstruct, hmeant, hd, Option.map_some]⟩

end Package

/-! ## Packages that are entered -/

namespace Session

variable {s s₁ s' : Session} {path : Option PackageName} {key : PackageName} {site : Site}
  {p p' : Package} {depth : Nat} {x : SymbolId}

/-- The methods of every package that is entered with success come to what they should, and are
    offered to the scope of the package, which binds the first declaration of each name. Besides
    redeclarations, just what is to be said of receivers, of written types and of clashes is reported
    when the imports have been entered, declaration by declaration. -/
theorem Enters.methods (h : Enters depth path p s)
    (ho : p.collect.opened path s = (key, site, s₁))
    (hp : p.enterWith (loadWithin depth) path s = ((p', .ok x), s')) :
    let imported := (Import.enterAll (loadWithin depth) site p.collect.imports s₁).2
    s'.store.table.pkgOf x = some site.pkg ∧
      s'.store.others = imported.store.others ++ p'.reports s'.store x ∧
      s'.store.bindings x =
        (firsts Offer.text (fun _ => false) (p'.scopeOffers x)).map Offer.binding ∧
      (∀ d ∈ p'.structs, d.DeclaredIn s'.store) ∧
      ∀ f ∈ p'.functions, ∀ r, f.head.receiver = some r →
        f.functionOffer (some x) ∈ p'.scopeOffers x ∧
          ∃ ty, f.MethodIn s'.store x site.pkg r ty := by
  intro imported
  obtain ⟨hs, hpath⟩ := h.sound
  obtain ⟨hopened, _⟩ := p.collect.opened_spec hs hpath
  have hunbound := p.unbound_enterWith (loadWithin_sound depth) hs hpath (x := x) (by rw [hp])
  have hdeclared := p.structsDeclared_enterWith (loadWithin_sound depth)
    (loadWithin_declaresStructs depth) hs hpath h.structsDeclared
  rw [hp] at hunbound hdeclared
  rw [ho] at hopened
  obtain ⟨rfl, hentered, hcomplete, hothers⟩ := h.complete ho hp
  refine ⟨hentered.follows.grows.table.pkgOf hentered.opens.top.pkgOf, hothers, ?_, fun d hd =>
    hentered.declaredIn hopened.bindings hd (hcomplete.sealed d hd), fun f hf r hr =>
    ⟨Package.functionOffer_mem_scopeOffers site.package hf, ?_⟩⟩
  · obtain ⟨y, hy, hbindings⟩ := hentered.bindings_of_mem_scopes hopened.bindings List.mem_cons_self
    cases hy
    exact hbindings
  · exact hentered.methodIn hdeclared hf (Package.contains_attached hunbound hf (by rw [hr]; rfl))
      (hcomplete.completed _ (Package.method_mem_everyCallable hf hr)) hr
      (hcomplete.received f hf r hr)

/-- A method that is called as a field of its struct, and one for each of the other cases: a struct of
    an imported package, a primitive type, a package that is not imported. -/
theorem methods_of_each_case :
    let name (text : String) : Ident := ⟨text, .origin⟩
    let method (type : TypeRef) : Callable := .mk
      { span := .origin, name := name "a"
        receiver := some { span := .origin, name := name "t", type } } []
    let struct (text : String) : Struct :=
      { span := .origin, name := name text
        fields := [{ span := .origin, name := name "a", type := .primitive .int .origin none }] }
    let s := start {} {} (Library.insert {} "a" none { structs := [struct "T"] })
    let p : Package :=
      { imports := [{ span := .origin, path := [name "a"] }], structs := [struct "T"]
        functions := [method (.ofName (name "T")),
          method (.named (some (name "a")) (name "T") .origin none),
          method (.primitive .int .origin none),
          method (.named (some (name "b")) (name "T") .origin none)] }
    let o := p.collect.opened none s
    let r := p.enterWith (loadWithin s.depthBound) none s
    Enters s.depthBound none p s ∧ r.1.2 = .ok ⟨1⟩ ∧
      (∀ f ∈ r.1.1.functions, ∀ v, f.head.receiver = some v →
        f.functionOffer (some ⟨1⟩) ∈ r.1.1.scopeOffers ⟨1⟩ ∧
          ∃ ty, f.MethodIn r.2.store ⟨1⟩ o.2.1.pkg v ty) ∧
      r.1.1.functions.map (fun f => (f.functionReports r.2.store ⟨1⟩).map (·.code)) =
        [["E0103"], ["E0102"], ["E0101"], ["E0104"]] ∧
      r.2.store.log.map (·.code) = ["E0103", "E0102", "E0101", "E0104"] := by
  intro name method struct s p o r
  have h : Enters s.depthBound none p s := .define p (.start {} {} _)
  have hok : r.1.2 = .ok ⟨1⟩ := by decide +kernel
  have ho : p.collect.opened none s = (o.1, o.2.1, o.2.2) := rfl
  have hp : r = ((r.1.1, .ok ⟨1⟩), r.2) := eq_of_outcome hok
  exact ⟨h, hok, (h.methods ho hp).2.2.2.2, by decide +kernel, by decide +kernel⟩

end Session

end Binder
