import Binder.Proofs.Contents
import Binder.Proofs.HandedOut

/-!
# Structs and their scopes

What a struct declares is to be had in two ways: its type has a place for every field, and its scope
binds the names of the fields. When a package has been entered, both are there for all of its
structs, and neither changes afterwards. So in a session in which no package is at its members, a
look-up in the scope of any struct finds just what the struct has been declared with.

* `Struct.DeclaredIn`: the type and the scope of a struct are those that it has been declared with.
* `Struct.DeclaredIn.isSome_member?_iff`: what is found in the scope of a struct.
* `Store.StructsDeclared`: all structs have been declared.
* `Package.Entered.structsDeclared`: so they have been when a package has been entered.
* `Session.Enters.structsDeclared`: and when one begins to be entered.
-/

namespace Binder

open Store

/-- The struct has been declared as `d`: its type has the fields, and its scope binds their names. -/
structure Struct.DeclaredIn (s : Store) (d : Struct) : Prop where
  sealed : d.SealedIn s
  field : ∀ o ∈ d.fieldOffers, s.Has o
  bindings : ∀ x, d.symbol = some x →
    s.bindings x = (firsts Offer.text (fun _ => false) d.fieldOffers).map Offer.binding

/-- Every struct that is there has been declared. -/
def Store.StructsDeclared (s : Store) : Prop :=
  ∀ x, s.table.kindOf x = some .struct → ∃ d : Struct, d.symbol = some x ∧ d.DeclaredIn s

/-- What has been offered has its symbol still. -/
theorem Store.Has.of_retains {s s' : Store} {o : Offer} (h : s.Has o) (hr : s.Retains s') :
    s'.Has o := by
  obtain ⟨x, sym, hx, hsym, hkind, howner, hflags, hspan, htext, hty⟩ := h
  exact ⟨x, sym, hx, hr.symbol hsym, hkind, howner, hflags, hspan, Names.text?_mono hr.names htext,
    hty⟩

namespace Struct.DeclaredIn

variable {s s' : Store} {d : Struct} (h : d.DeclaredIn s)
include h

/-- A struct stays declared when its scope is left alone. -/
theorem mono (hr : s.Retains s')
    (hb : ∀ x, d.symbol = some x → s'.bindings x = s.bindings x) : d.DeclaredIn s' where
  sealed := h.sealed.mono hr
  field o ho := (h.field o ho).of_retains hr
  bindings x hx := (hb x hx).trans (h.bindings x hx)

/-- In the scope of a struct the names of its fields are found, and nothing else. -/
theorem isSome_member?_iff {x : SymbolId} (hx : d.symbol = some x) (text : String) :
    (s.member? x text .var).isSome ↔ text ≠ "" ∧ ∃ v ∈ d.fields, v.name.text = text := by
  have hbindings := h.bindings x hx
  constructor
  · intro hmember
    obtain ⟨y, hy⟩ := Option.isSome_iff_exists.1 hmember
    have hb := mem_bindings_of_bound? (Option.filter_eq_some_iff.1 hy).1
    rw [hbindings] at hb
    obtain ⟨o, ho, heq⟩ := List.mem_map.1 hb
    obtain ⟨v, hv, hov⟩ := List.mem_flatMap.1 (mem_of_mem_firsts ho)
    unfold VarDecl.offers at hov
    split at hov
    · exact absurd hov List.not_mem_nil
    · next hname =>
      cases List.mem_singleton.1 hov
      have htext : v.name.text = text := congrArg Prod.fst heq
      exact ⟨htext ▸ hname, v, hv, htext⟩
  · rintro ⟨hname, v, hv, rfl⟩
    have hmem : v.offer (some x) ∈ d.fieldOffers := by
      refine List.mem_flatMap.2 ⟨v, hv, ?_⟩
      rw [VarDecl.offers, if_neg hname, hx]
      exact List.mem_singleton_self _
    have hbound : (s.bound? x v.name.text).isSome := by
      have hkeys := @mem_keys_firsts_or _ _ _ Offer.text (fun _ => false) d.fieldOffers _ v.name.text
      rw [isSome_bound?_iff, binds, List.contains_iff_mem, hbindings, List.map_map]
      exact (hkeys.2 (.inl (List.mem_map.2 ⟨_, hmem, rfl⟩))).resolve_right Bool.false_ne_true
    obtain ⟨y, hy⟩ := Option.isSome_iff_exists.1 hbound
    have hb := mem_bindings_of_bound? hy
    rw [hbindings] at hb
    -- What is bound is one of the fields.
    obtain ⟨o, ho, heq⟩ := List.mem_map.1 hb
    obtain ⟨w, _, how⟩ := List.mem_flatMap.1 (mem_of_mem_firsts ho)
    obtain ⟨z, sym, hz, hsym, hk, _⟩ := h.field o (mem_of_mem_firsts ho)
    cases (congrArg Prod.snd heq).symm.trans hz
    have hvar : sym.kind = .var := by
      unfold VarDecl.offers at how
      split at how
      · exact absurd how List.not_mem_nil
      · rw [hk, List.mem_singleton.1 how]
        rfl
    rw [member?, hy, Option.filter_some, hsym, Option.any_some, hvar]
    rfl

end Struct.DeclaredIn

/-! ## Steps -/

namespace Store.StructsDeclared

variable {s s' : Store} (h : s.StructsDeclared)
include h

/-- All structs are declared still if those that are there are left alone, and those that are made
    are declared. -/
theorem step (hr : s.Retains s')
    (hb : ∀ x, s.table.kindOf x = some .struct → s'.bindings x = s.bindings x)
    (hmade : ∀ x, s.table.symbol? x = none → s'.table.kindOf x = some .struct →
      ∃ d : Struct, d.symbol = some x ∧ d.DeclaredIn s') : s'.StructsDeclared := fun x hx => by
  cases hold : s.table.symbol? x with
  | none => exact hmade x hold hx
  | some sym =>
    have hk : s.table.kindOf x = some .struct := by
      obtain ⟨sym', hsym', hkind⟩ := Option.map_eq_some_iff.1 hx
      cases (hr.symbol hold).symm.trans hsym'
      exact Option.map_eq_some_iff.2 ⟨sym, hold, hkind⟩
    obtain ⟨d, hd, hdeclared⟩ := h x hk
    refine ⟨d, hd, hdeclared.mono hr fun y hy => ?_⟩
    cases hd.symm.trans hy
    exact hb x hk

/-- No struct is made, and nothing is bound in one. -/
theorem of_seals (hseals : s.Seals [] s')
    (hb : ∀ x, s.table.kindOf x = some .struct → s'.bindings x = s.bindings x) :
    s'.StructsDeclared :=
  h.step hseals.retains hb fun x hold hx => by
    obtain ⟨sym, hsym, hk⟩ := Option.map_eq_some_iff.1 hx
    obtain ⟨d, hd, _⟩ := hseals.made x sym hold hsym hk
    exact absurd hd List.not_mem_nil

end Store.StructsDeclared

/-- A loader leaves all structs declared. -/
def Loader.DeclaresStructs (load : Loader) : Prop :=
  ∀ name (s : Session), s.Sound → name.Known s.store.names → s.store.StructsDeclared →
    (load name s).2.store.StructsDeclared

theorem Session.structsDeclared_internPackage (path : List String) (version : Option String)
    {s : Session} (hs : s.Sound) (h : s.store.StructsDeclared) :
    (onStore (Store.internPackage path version) s).2.store.StructsDeclared :=
  have hf := (Store.run_internPackage s.store.mark path version s.store).follows hs.store
  h.of_seals (.of_symbols (Session.course_internPackage path version s).retains fun _ => rfl)
    fun x _ => hf.effect.bindings_nil x

/-! ## Imports -/

namespace Import

variable {load : Loader} {site : Site} {s₀ s : Session}

theorem structsDeclared_enter (hload : load.Sound) (hdeclares : load.DeclaresStructs)
    (i : Import) (h : site.Opens s₀ s) (hs : s.store.StructsDeclared) :
    (i.enter load site s).2.store.StructsDeclared := by
  obtain ⟨hs₁, _, hknown⟩ := h.sound.internPackage i.target.1 i.target.2
  have hloaded : (i.loaded load s).2.store.StructsDeclared :=
    hdeclares _ _ hs₁ hknown (Session.structsDeclared_internPackage _ _ h.sound hs)
  obtain ⟨hsound, hl, _⟩ := i.loaded_spec hload h.sound
  cases hi : i.loaded load s with
  | mk outcome s₁ =>
    rw [hi] at hloaded hsound hl
    cases outcome with
    | error e =>
      rw [enter_of_error hi]
      let problem := e.problem ((i.targetName s).1.text s₁.store.names)
      exact hloaded.of_seals (.of_symbols (Session.Course.report s₁ problem i.span).retains
        fun _ => rfl) fun _ _ => rfl
    | ok x =>
      have h₁ := h.lead hsound hl
      obtain ⟨_, _, _, heffect⟩ := enter_spec_of_ok hload h hi
      have hretains : s₁.store.Retains (i.enter load site s).2.store := by
        rw [enter_of_ok hi]
        exact (Store.Run.intern (m := s₁.store.mark) s₁.store i.localName).retains.trans
          (.define i.span site.scope _ x _)
      refine hloaded.of_seals (.of_symbols hretains fun y => ?_) fun y hy => ?_
      · rw [enter_of_ok hi]
        exact symbol?_define _ _ _ _ _ y
      · -- The import is offered to the package, which is no struct.
        have hne : y ≠ site.package := by
          rintro rfl
          cases hy.symm.trans h₁.kindOf
        rw [heffect.bindings, List.filter_eq_nil_iff.2, List.map_nil, List.append_nil]
        intro o ho heq
        rw [List.mem_singleton.1 (mem_of_mem_firsts ho)] at heq
        exact hne (Option.some.inj (beq_iff_eq.1 heq)).symm

theorem structsDeclared_enterAll (hload : load.Sound) (hdeclares : load.DeclaresStructs)
    (imports : List Import) (h : site.Opens s₀ s) (hs : s.store.StructsDeclared) :
    (enterAll load site imports s).2.store.StructsDeclared := by
  induction imports generalizing s with
  | nil => exact hs
  | cons i rest ih =>
    obtain ⟨h₁, _⟩ := i.enter_opens hload h
    rw [enterAll_cons]
    exact ih h₁ (i.structsDeclared_enter hload hdeclares h hs)

end Import

/-! ## Packages -/

namespace Package

variable {load : Loader} {site : Site} {s₀ s s₁ s' : Session} {imports : List Import}
  {path : Option PackageName} {p p' : Package}

theorem structsDeclared_opened (p : Package) (hs : s.Sound)
    (hpath : ∀ name ∈ path, name.Known s.store.names) (h : s.store.StructsDeclared) :
    (p.opened path s).2.2.store.StructsDeclared :=
  h.of_seals (p.store_seals_opened hs hpath) fun x _ => p.bindings_opened hs hpath x

/-- The structs of a package that is entered are declared. -/
theorem Entered.declaredIn (h : Entered load site s₀ s s₁ imports p s')
    (hempty : s.store.bindings site.package = []) {d : Struct} (hd : d ∈ p.structs)
    (hsealed : d.SealedIn s'.store) : d.DeclaredIn s'.store := by
  have hmem : (d.symbol, d.fieldOffers) ∈ p.scopes site.package := by
    refine List.mem_cons_of_mem _ ?_
    simp only [containers, List.mem_append, List.mem_map]
    exact .inl (.inl ⟨d, hd, rfl⟩)
  refine ⟨hsealed, fun o ho => ?_, fun x hx => ?_⟩
  · have hk : o.kind ≠ .package := by
      rcases d.inner_fieldOffers o ho with hk | hk
      · rw [hk]
        decide
      · exact (SymbolKind.of_isCallable hk).1
    exact h.follows.has o (mem_memberOffers (mem_offers_of_mem_scopes hmem ho) hk)
  · obtain ⟨y, hy, hbindings⟩ := h.bindings_of_mem_scopes hempty hmem
    cases hx.symm.trans hy
    exact hbindings

/-- When a package has been entered, all structs are declared. -/
theorem Entered.structsDeclared (h : Entered load site s₀ s s₁ imports p s')
    (hempty : s.store.bindings site.package = [])
    (hseals : s₁.store.Seals p.structs s'.store) (hs : s₁.store.StructsDeclared) :
    s'.store.StructsDeclared := by
  refine hs.step hseals.retains (fun x hx => ?_) fun x hold hx => ?_
  · obtain ⟨sym, hsym, _⟩ := Option.map_eq_some_iff.1 hx
    rw [h.follows.effect.bindings, List.filter_eq_nil_iff.2, List.map_nil, List.append_nil]
    intro o ho heq
    rcases h.symbol?_container (List.mem_append_right _ (mem_of_mem_firsts ho)) with
      hc | ⟨y, hy, hnew⟩
    · cases hc.symm.trans (beq_iff_eq.1 heq)
      cases hx.symm.trans h.opens.kindOf
    · cases hy.symm.trans (beq_iff_eq.1 heq)
      cases hsym.symm.trans hnew
  · obtain ⟨sym, hsym, hk⟩ := Option.map_eq_some_iff.1 hx
    obtain ⟨d, hd, hsymbol⟩ := hseals.made x sym hold hsym hk
    exact ⟨d, hsymbol, h.declaredIn hempty hd (hseals.sealed d hd)⟩

theorem structsDeclared_enterWith (hload : load.Sound) (hdeclares : load.DeclaresStructs)
    (p : Package) (hs : s.Sound) (hpath : ∀ name ∈ path, name.Known s.store.names)
    (h : s.store.StructsDeclared) : (p.enterWith load path s).2.store.StructsDeclared := by
  obtain ⟨hopened, _⟩ := p.collect.opened_spec hs hpath
  have hopen := p.collect.structsDeclared_opened hs hpath h
  cases ho : p.collect.opened path s with
  | mk key r =>
    obtain ⟨site, s₁⟩ := r
    rw [ho] at hopened hopen
    let q : Package := { p.collect with symbol := some site.package }
    have himports := Import.structsDeclared_enterAll hload hdeclares q.imports hopened.opens hopen
    obtain ⟨h₂, _⟩ := Import.enterAll_opens hload q.imports hopened.opens
    cases hall : Import.enterAll load site q.imports s₁ with
    | mk r s₂ =>
      obtain ⟨imports, failure⟩ := r
      rw [hall] at himports h₂
      cases failure with
      | some e =>
        rw [enterWith_eq ho (enterContents_of_error hall)]
        exact himports
      | none =>
        have hseals := seals_enterMembers s₂.config { q with imports } h₂.top
        cases hm : { q with imports }.enterMembers s₂.config site s₂.store with
        | mk p' st =>
          have hentered := entered_enterMembers hload hopened.opens hall hm
          rw [hm] at hseals
          rw [enterWith_eq ho (enterContents_of_none hall hm)]
          exact hentered.structsDeclared hopened.bindings hseals himports

end Package

/-! ## Loads and requests -/

namespace Session

variable {s : Session}

theorem structsDeclared_enterFetched {load : Loader} (hload : load.Sound)
    (hdeclares : load.DeclaresStructs) {name : PackageName} (p : Package) (hs : s.Sound)
    (hname : name.Known s.store.names) (h : s.store.StructsDeclared) :
    (enterFetched load name p s).2.store.StructsDeclared := by
  have hs₁ : (setState name .inProgress s).2.Sound := hs.setState hname nofun
  have hentry := p.structsDeclared_enterWith hload hdeclares hs₁ (known_of_mem_some hname) h
  cases hr : p.enterWith load (some name) (setState name .inProgress s).2 with
  | mk r s₂ =>
    obtain ⟨p', outcome⟩ := r
    rw [hr] at hentry
    cases outcome with
    | error e =>
      rw [enterFetched_of_error hr]
      exact hentry
    | ok x =>
      rw [enterFetched_of_ok hr]
      exact hentry

/-- Loading, with loads nested at most `depth` deep in one another. -/
theorem loadWithin_declaresStructs : ∀ depth : Nat, Loader.DeclaresStructs (loadWithin depth) :=
  loadWithin_induction
    (Q := fun _ s r => s.store.StructsDeclared → r.2.store.StructsDeclared)
    (fun _ _ _ _ _ _ => id)
    fun depth _ _ p ih hs hname _ =>
      structsDeclared_enterFetched (loadWithin_sound depth) ih p hs hname

theorem structsDeclared_respond (r : Request) (hs : s.Sound) (h : s.store.StructsDeclared) :
    (respond r s).2.store.StructsDeclared := by
  cases r with
  | define p =>
    exact p.structsDeclared_enterWith (loadWithin_sound _) (loadWithin_declaresStructs _) hs nofun h
  | enterAs path version p =>
    obtain ⟨hs₁, _, hname⟩ := hs.internPackage path version
    exact p.structsDeclared_enterWith (loadWithin_sound _) (loadWithin_declaresStructs _) hs₁
      (known_of_mem_some hname) (structsDeclared_internPackage path version hs h)
  | load path version =>
    obtain ⟨hs₁, _, hname⟩ := hs.internPackage path version
    exact loadWithin_declaresStructs _ _ _ hs₁ hname
      (structsDeclared_internPackage path version hs h)

/-- In a reachable session all structs are declared. -/
theorem Reachable.structsDeclared (h : s.Reachable) : s.store.StructsDeclared := by
  induction h with
  | start names config library =>
    intro x hx
    obtain ⟨sym, hsym, hk⟩ := Option.map_eq_some_iff.1 hx
    cases Array.mem_singleton.1 (Array.mem_of_getElem? hsym)
    cases hk
  | step r h ih => exact structsDeclared_respond r h.sound ih

/-- So they are whenever a package begins to be entered. -/
theorem Enters.structsDeclared {depth : Nat} {path : Option PackageName} {p : Package}
    (h : Enters depth path p s) : s.store.StructsDeclared := by
  induction h with
  | define p h => exact h.structsDeclared
  | enterAs path version p h heq =>
    have hname := structsDeclared_internPackage path version h.sound h.structsDeclared
    rw [heq] at hname
    exact hname
  | load path version h heq =>
    have hname := structsDeclared_internPackage path version h.sound h.structsDeclared
    rw [heq] at hname
    exact hname
  | @nested s s₁ s₂ s₃ path key name site p q i done rest depth h _ ho hdone hi _ ih =>
    obtain ⟨hs, hpath⟩ := h.sound
    obtain ⟨hopened, _⟩ := p.collect.opened_spec hs hpath
    have hopen := p.collect.structsDeclared_opened hs hpath ih
    rw [ho] at hopened hopen
    obtain ⟨h₂, _⟩ := Import.enterAll_opens (loadWithin_sound (depth + 1)) done hopened.opens
    have himports := Import.structsDeclared_enterAll (loadWithin_sound (depth + 1))
      (loadWithin_declaresStructs (depth + 1)) done hopened.opens hopen
    rw [hdone] at himports h₂
    have hname := structsDeclared_internPackage i.target.1 i.target.2 h₂.sound himports
    rw [show onStore (Store.internPackage i.target.1 i.target.2) s₂ = _ from hi] at hname
    exact hname

end Session

end Binder
