import Binder.Proofs.Reports
import Binder.Proofs.StructScope

/-!
# Stores that agree on names

What is reported of a package, redeclarations aside, depends on little of what is bound: on which
names mean types, on which of these are structs of the package, and on how the fields of those are
called. Two stores that agree on this report the same, whatever handles they have.

* `Store.Alike`: a type in one store is like a type in another one.
* `Store.Agrees`: written types name types that are alike.
* `Store.Agrees.reports_eq`: stores that agree report the same of a package.
* `Package.Entered.agrees`: packages with the same members lead to stores that agree.
-/

namespace Binder

namespace Store

/-- The types are of one kind, and if they are structs, their fields have the same names. -/
structure Alike (s t : Store) (y z : SymbolId) : Prop where
  kind : t.table.kindOf z = s.table.kindOf y
  fields : s.table.kindOf y = some .struct → ∀ text,
    (t.member? z text .var).isSome = (s.member? y text .var).isSome

/-- In the package `c`, the same names mean types in both stores, and those types are alike. -/
structure Agrees (s t : Store) (c : SymbolId) : Prop where
  package : ∀ q, t.packageMeant? c q = s.packageMeant? c q
  pkgOf : ∀ q c', s.packageMeant? c q = some c' → t.table.pkgOf c' = s.table.pkgOf c'
  types : ∀ q c' text, s.packageMeant? c q = some c' →
    Option.Rel (s.Alike t) (s.member? c' text .type) (t.member? c' text .type)

namespace Agrees

variable {s t : Store} {c : SymbolId} (h : s.Agrees t c)
include h

/-- The same names are reported. -/
theorem misnaming?_eq (q : Option Ident) (name : Ident) :
    t.misnaming? c q name = s.misnaming? c q name := by
  rw [misnaming?, misnaming?, h.package]
  cases hp : s.packageMeant? c q with
  | none => rfl
  | some c' =>
    have htypes := h.types q c' name.text hp
    dsimp only
    generalize s.member? c' name.text .type = found at htypes ⊢
    generalize t.member? c' name.text .type = found' at htypes ⊢
    cases htypes <;> rfl

theorem reports_type (r : TypeRef) : r.reports t c = r.reports s c := by
  simp only [TypeRef.reports, h.misnaming?_eq]

/-- A written type names structs with the same names of fields, in the same package. -/
theorem structMeant? (r : TypeRef) :
    Option.Rel (fun e e' => e'.1 = e.1 ∧ t.table.pkgOf e.1 = s.table.pkgOf e.1 ∧
        ∀ text, (t.member? e'.2 text .var).isSome = (s.member? e.2 text .var).isSome)
      (s.structMeant? c r) (t.structMeant? c r) := by
  cases r with
  | primitive | array => exact .none
  | named q name =>
    rw [Store.structMeant?, Store.structMeant?, h.package]
    cases hp : s.packageMeant? c q with
    | none => exact .none
    | some c' =>
      have htypes := h.types q c' name.text hp
      rw [Option.bind_some, Option.bind_some]
      generalize s.member? c' name.text .type = found at htypes ⊢
      generalize t.member? c' name.text .type = found' at htypes ⊢
      cases htypes with
      | none => exact .none
      | @some y z hyz =>
        rw [Option.filter_some, Option.filter_some, hyz.kind]
        split
        · next hkind => exact .some ⟨rfl, h.pkgOf q c' hp, hyz.fields (beq_iff_eq.1 hkind)⟩
        · exact .none

theorem receiverReports_eq (method : Ident) (r : VarDecl) :
    r.receiverReports t c method = r.receiverReports s c method := by
  have hown := h.pkgOf none c rfl
  have hmeant := h.structMeant? r.type
  rw [VarDecl.receiverReports, VarDecl.receiverReports, VarDecl.receiverProblem?,
    VarDecl.receiverProblem?, h.reports_type, hown]
  generalize s.structMeant? c r.type = meant at hmeant ⊢
  generalize t.structMeant? c r.type = meant' at hmeant ⊢
  cases hmeant with
  | none => rfl
  | some hyz =>
    obtain ⟨hpackage, hpkg, _⟩ := hyz
    simp only [hpackage, hpkg]

theorem clashReports_eq (method : Ident) (r : VarDecl) :
    r.clashReports t c method = r.clashReports s c method := by
  have hown := h.pkgOf none c rfl
  have hmeant := h.structMeant? r.type
  rw [VarDecl.clashReports, VarDecl.clashReports, VarDecl.fieldClash?, VarDecl.fieldClash?, hown]
  generalize s.structMeant? c r.type = meant at hmeant ⊢
  generalize t.structMeant? c r.type = meant' at hmeant ⊢
  cases hmeant with
  | none => rfl
  | some hyz =>
    obtain ⟨hpackage, hpkg, hfields⟩ := hyz
    rw [Option.bind_some, Option.bind_some, hpackage, hpkg, hfields]

/-- Stores that agree report the same of a package. -/
theorem reports_eq (p : Package) : p.reports t c = p.reports s c := by
  have hcallable := Callable.reports_congr h.reports_type
  have hfunction := Callable.functionReports_congr h.reports_type h.receiverReports_eq
    h.clashReports_eq
  simp only [Package.reports, h.reports_type, hcallable, hfunction]

end Agrees

end Store

open Store

/-! ## Names that are declared once -/

namespace Package

theorem structOffer_mem_scopeOffers {c : SymbolId} {p : Package} {d : Struct} (hd : d ∈ p.structs) :
    d.offer (some c) ∈ p.scopeOffers c := by
  simp only [scopeOffers, List.mem_append]
  exact .inl (.inl (.inl (.inl (.inl (.inl (.inr (List.mem_map_of_mem hd)))))))

/-- What a package offers to its scope as a struct is one. -/
theorem exists_struct_of_mem_scopeOffers {c : SymbolId} {p : Package} {o : Offer}
    (ho : o ∈ p.scopeOffers c) (hk : o.kind = .struct) : ∃ d ∈ p.structs, o = d.offer (some c) := by
  have hfunction : ∀ f : Callable, (f.functionOffer (some c)).kind ≠ .struct := fun f hf => by
    have hcallable := f.isCallable_functionKind
    rw [show f.functionKind = .struct from hf] at hcallable
    cases hcallable
  simp only [scopeOffers, List.mem_append, Import.offers, List.mem_map, List.mem_flatMap,
    List.mem_cons] at ho
  rcases ho with (((((((⟨_, _, rfl⟩ | ⟨d, hd, rfl⟩) | ⟨_, _, rfl | ⟨f, _, rfl⟩⟩) | ⟨_, _, rfl⟩) |
    ⟨f, _, rfl⟩) | ⟨_, _, f, _, rfl⟩) | ⟨v, _, ho⟩) | ⟨f, _, rfl⟩)
  case inl.inl.inl.inl.inl.inl.inr => exact ⟨d, hd, rfl⟩
  case inl.inr =>
    unfold VarDecl.offers at ho
    split at ho
    · exact absurd ho List.not_mem_nil
    · rw [List.mem_singleton.1 ho] at hk
      cases hk
  case inl.inl.inl.inl.inl.inr.inr => exact absurd hk (hfunction f)
  case inl.inl.inl.inr => exact absurd hk (hfunction f)
  case inl.inl.inr => exact absurd hk (hfunction f)
  case inr => exact absurd hk (hfunction f)
  all_goals cases hk

namespace Entered

variable {load : Loader} {site : Site} {s₀ s s₁ s' t' : Session} {imports : List Import}
  {p q : Package} {o : Offer}
  (h : Entered load site s₀ s s₁ imports p s')
include h

section

variable (hempty : s.store.bindings site.package = [])
  (hdistinct : ((p.scopeOffers site.package).map Offer.text).Nodup)
include hempty hdistinct

/-- Distinct names are all bound. -/
theorem bindings_of_distinct :
    s'.store.bindings site.package = (p.scopeOffers site.package).map Offer.binding := by
  obtain ⟨x, hx, hb⟩ := h.bindings_of_mem_scopes hempty (e := (some site.package, _))
    List.mem_cons_self
  cases hx
  rw [hb, firsts_of_nodup hdistinct fun _ _ => rfl]

theorem bound?_of_distinct (ho : o ∈ p.scopeOffers site.package) :
    s'.store.bound? site.package o.text = o.symbol := by
  have hfirsts : firsts Offer.text (fun _ => false) (p.scopeOffers site.package) = _ :=
    firsts_of_nodup hdistinct fun _ _ => rfl
  have hlookup := lookup_firsts Offer.symbol (hfirsts.symm ▸ ho)
  rw [hfirsts] at hlookup
  rw [bound?, h.bindings_of_distinct hempty hdistinct]
  exact congrArg Option.join hlookup

/-- What is found in the scope of the package is what is declared there. -/
theorem exists_of_member? {text : String} {mask : KindMask} {x : SymbolId}
    (hx : s'.store.member? site.package text mask = some x) :
    ∃ o ∈ p.scopeOffers site.package, o.text = text ∧ o.symbol = some x ∧ o.kind.mask.meets mask := by
  have hbound := mem_bindings_of_bound? (Option.filter_eq_some_iff.1 hx).1
  rw [h.bindings_of_distinct hempty hdistinct] at hbound
  obtain ⟨o, ho, heq⟩ := List.mem_map.1 hbound
  obtain ⟨htext, hsymbol⟩ := Prod.mk.inj heq
  obtain ⟨y, hy, hk⟩ := h.kindOf_of_mem_scopeOffers ho
  cases hsymbol.symm.trans hy
  obtain ⟨sym, hsym, hmeets⟩ := symbol?_of_member? hx
  obtain ⟨sym', hsym', hkind⟩ := Option.map_eq_some_iff.1 hk
  cases hsym.symm.trans hsym'
  exact ⟨o, ho, htext, hsymbol, hkind ▸ hmeets⟩

/-- What is declared is found if it is of a kind wanted. -/
theorem member?_of_distinct (ho : o ∈ p.scopeOffers site.package) {mask : KindMask}
    (hmeets : o.kind.mask.meets mask) :
    s'.store.member? site.package o.text mask = o.symbol := by
  obtain ⟨x, hx, hk⟩ := h.kindOf_of_mem_scopeOffers ho
  obtain ⟨sym, hsym, hkind⟩ := Option.map_eq_some_iff.1 hk
  rw [member?, h.bound?_of_distinct hempty hdistinct ho, hx, Option.filter_some, hsym,
    Option.any_some, hkind, if_pos hmeets]

end

/-- Whether something is found in the scope of the package can be read off the headings. -/
theorem isSome_member?_iff (hempty : s.store.bindings site.package = [])
    (hdistinct : ((p.scopeOffers site.package).map Offer.text).Nodup) {text : String}
    {mask : KindMask} : (s'.store.member? site.package text mask).isSome ↔
      ∃ d ∈ (p.scopeOffers site.package).map Offer.heading, d.1 = text ∧ d.2.1.mask.meets mask := by
  constructor
  · intro hsome
    obtain ⟨x, hx⟩ := Option.isSome_iff_exists.1 hsome
    obtain ⟨o, ho, htext, _, hmeets⟩ := h.exists_of_member? hempty hdistinct hx
    exact ⟨o.heading, List.mem_map_of_mem ho, htext, hmeets⟩
  · rintro ⟨d, hd, rfl, hmeets⟩
    obtain ⟨o, ho, rfl⟩ := List.mem_map.1 hd
    obtain ⟨x, hx, _⟩ := h.kindOf_of_mem_scopeOffers ho
    have hfound := h.member?_of_distinct hempty hdistinct ho hmeets
    rw [show o.heading.1 = o.text from rfl, hfound, hx]
    rfl

/-! ## What has been there before -/

/-- Imported packages are those that have been imported when the members are entered. -/
theorem packageMeant?_eq (q : Option Ident) :
    s'.store.packageMeant? site.package q = s₁.store.packageMeant? site.package q := by
  cases q with
  | none => rfl
  | some q =>
    refine h.follows.member?_eq h.opens.sound.store (fun o ho => ?_) site.package q.text
    refine Bool.eq_false_iff.2 fun hmeets => ?_
    exact h.members.kind_ne_package o ho (SymbolKind.mask_meets_package.1 hmeets)

/-- In the scopes of what has been there before, the package aside, the same is found. -/
theorem member?_of_old {x : SymbolId} {sym : Symbol} (hx : s₁.store.table.symbol? x = some sym)
    (hne : x ≠ site.package) (text : String) (mask : KindMask) :
    s'.store.member? x text mask = s₁.store.member? x text mask := by
  refine h.follows.member?_eq_of_container h.opens.sound.store (fun o ho hc => ?_) text mask
  rcases h.symbol?_container (List.mem_append_right _ ho) with hp | ⟨y, hy, hnew⟩
  · exact hne (Option.some.inj (hc.symm.trans hp))
  · cases hc.symm.trans hy
    cases hx.symm.trans hnew

end Entered

/-! ## The same names declared in another order -/

/-- Structs with the same fields are declared under the same name. -/
theorem exists_struct_of_perm {p q : Package}
    (hstructs : (p.structs.map (·.unbound)).Perm (q.structs.map (·.unbound))) {d : Struct}
    (hd : d ∈ p.structs) : ∃ d' ∈ q.structs, d'.name = d.name ∧
      d'.fields.map (·.name.text) = d.fields.map (·.name.text) := by
  obtain ⟨d', hd', heq⟩ := List.mem_map.1 (hstructs.subset (List.mem_map_of_mem hd))
  refine ⟨d', hd', ?_, ?_⟩
  · have hname : d'.unbound.name = d.unbound.name := by rw [heq]
    exact hname
  · have hfields : d'.fields.map (·.unbound) = d.fields.map (·.unbound) := congrArg Struct.fields heq
    have hnames := congrArg (List.map (·.name.text)) hfields
    rwa [List.map_map, List.map_map] at hnames

namespace Entered

variable {load : Loader} {site : Site} {s₀ s s₁ s' t' : Session} {imports imports' : List Import}
  {p q : Package}

section

variable (h : Entered load site s₀ s s₁ imports p s') (h' : Entered load site s₀ s s₁ imports' q t')
  (hempty : s.store.bindings site.package = [])
  (hdistinct : ((p.scopeOffers site.package).map Offer.text).Nodup)
  (hheadings : ((p.scopeOffers site.package).map Offer.heading).Perm
    ((q.scopeOffers site.package).map Offer.heading))
include hdistinct hheadings

omit hdistinct in
theorem perm_texts : ((p.scopeOffers site.package).map Offer.text).Perm
    ((q.scopeOffers site.package).map Offer.text) := by
  have hmap := hheadings.map (·.1)
  rwa [List.map_map, List.map_map] at hmap

variable (hstructs : (p.structs.map (·.unbound)).Perm (q.structs.map (·.unbound)))
  (hsealed : ∀ d ∈ p.structs, d.SealedIn s'.store) (hsealed' : ∀ d ∈ q.structs, d.SealedIn t'.store)
include h h' hempty hstructs hsealed hsealed'

/-- For a type that one package declares there is one that is alike and that the other one
    declares. -/
theorem exists_alike {o : Offer} (ho : o ∈ p.scopeOffers site.package)
    (hmeets : o.kind.mask.meets .type) {y : SymbolId} (hy : o.symbol = some y) :
    ∃ z, t'.store.member? site.package o.text .type = some z ∧ s'.store.Alike t'.store y z := by
  have hdistinct' := (perm_texts hheadings).nodup_iff.1 hdistinct
  obtain ⟨_, hy', hkind⟩ := h.kindOf_of_mem_scopeOffers ho
  cases hy.symm.trans hy'
  by_cases hk : o.kind = .struct
  · obtain ⟨d, hd, rfl⟩ := exists_struct_of_mem_scopeOffers ho hk
    obtain ⟨d', hd', hname, hfields⟩ := exists_struct_of_perm hstructs hd
    have ho' := structOffer_mem_scopeOffers (c := site.package) hd'
    obtain ⟨z, hz, hkind'⟩ := h'.kindOf_of_mem_scopeOffers ho'
    have hmember : t'.store.member? site.package d'.name.text .type = d'.symbol :=
      h'.member?_of_distinct hempty hdistinct' ho' hmeets
    refine ⟨z, ?_, hkind'.trans hkind.symm, fun _ text => ?_⟩
    · rw [show (d.offer (some site.package)).text = d'.name.text from congrArg Ident.text hname.symm]
      exact hmember.trans hz
    · have hdeclared := h.declaredIn hempty hd (hsealed d hd)
      have hdeclared' := h'.declaredIn hempty hd' (hsealed' d' hd')
      have hnames : (∃ v ∈ d'.fields, v.name.text = text) ↔ ∃ v ∈ d.fields, v.name.text = text := by
        rw [← List.mem_map, ← List.mem_map, hfields]
      rw [Bool.eq_iff_iff, hdeclared'.isSome_member?_iff hz, hdeclared.isSome_member?_iff hy, hnames]
  · obtain ⟨o', ho', heq⟩ := List.mem_map.1 (hheadings.subset (List.mem_map_of_mem ho))
    obtain ⟨htext, hkinds⟩ := Prod.mk.inj heq
    have hkind₂ : o'.kind = o.kind := congrArg Prod.fst hkinds
    obtain ⟨z, hz, hkind'⟩ := h'.kindOf_of_mem_scopeOffers ho'
    have hmember := h'.member?_of_distinct hempty hdistinct' ho' (hkind₂.symm ▸ hmeets)
    refine ⟨z, by rw [← htext, hmember, hz], by rw [hkind', hkind, hkind₂], fun hstruct => ?_⟩
    exact absurd (Option.some.inj (hkind.symm.trans hstruct)) hk

/-- Two packages that declare the same names, each once, and the same structs leave stores that agree
    if they are entered instead of one another. -/
theorem agrees : s'.store.Agrees t'.store site.package := by
  have hdistinct' := (perm_texts hheadings).nodup_iff.1 hdistinct
  -- What has been there before the members is the same in both stores.
  have hkept : ∀ {x : SymbolId} {sym : Symbol}, s₁.store.table.symbol? x = some sym →
      t'.store.table.kindOf x = s'.store.table.kindOf x ∧
        t'.store.table.pkgOf x = s'.store.table.pkgOf x := fun {x sym} hx => by
    have hkind : s₁.store.table.kindOf x = some sym.kind := by rw [Table.kindOf, hx, Option.map_some]
    have hpkg : s₁.store.table.pkgOf x = some sym.pkg := by rw [Table.pkgOf, hx, Option.map_some]
    have g := h.follows.grows.table
    have g' := h'.follows.grows.table
    exact ⟨(g'.kindOf hkind).trans (g.kindOf hkind).symm, (g'.pkgOf hpkg).trans (g.pkgOf hpkg).symm⟩
  have hold : ∀ q c', s'.store.packageMeant? site.package q = some c' →
      ∃ sym, s₁.store.table.symbol? c' = some sym := fun q c' hc => by
    rw [h.packageMeant?_eq] at hc
    cases q with
    | none =>
      cases hc
      exact h.opens.exists_symbol
    | some q =>
      obtain ⟨sym, hsym, _⟩ := symbol?_of_member? hc
      exact ⟨sym, hsym⟩
  refine ⟨fun q => ?_, fun q c' hc => ?_, fun q c' text hc => ?_⟩
  · rw [h.packageMeant?_eq, h'.packageMeant?_eq]
  · obtain ⟨sym, hsym⟩ := hold q c' hc
    exact (hkept hsym).2
  · by_cases hown : c' = site.package
    · subst hown
      cases hy : s'.store.member? site.package text .type with
      | some y =>
        obtain ⟨o, ho, rfl, hsymbol, hmeets⟩ := h.exists_of_member? hempty hdistinct hy
        obtain ⟨z, hz, halike⟩ := exists_alike h h' hempty hdistinct hheadings hstructs hsealed
          hsealed' ho hmeets hsymbol
        rw [hz]
        exact .some halike
      | none =>
        have hnone : ¬(t'.store.member? site.package text .type).isSome := by
          rw [h'.isSome_member?_iff hempty hdistinct']
          rintro ⟨d, hd, hfound⟩
          have hsome : (s'.store.member? site.package text .type).isSome :=
            (h.isSome_member?_iff hempty hdistinct).2 ⟨d, hheadings.symm.subset hd, hfound⟩
          rw [hy] at hsome
          cases hsome
        rw [Option.not_isSome_iff_eq_none.1 hnone]
        exact .none
    · obtain ⟨csym, hcsym⟩ := hold q c' hc
      rw [h.member?_of_old hcsym hown, h'.member?_of_old hcsym hown]
      cases hy : s₁.store.member? c' text .type with
      | none => exact .none
      | some y =>
        obtain ⟨sym, hsym, _⟩ := symbol?_of_member? hy
        refine .some ⟨(hkept hsym).1, fun hstruct text => ?_⟩
        have hne : y ≠ site.package := by
          rintro rfl
          have hpackage := h.follows.grows.table.kindOf h.opens.kindOf
          cases hpackage.symm.trans hstruct
        rw [h.member?_of_old hsym hne, h'.member?_of_old hsym hne]

end

end Entered

end Package

end Binder
