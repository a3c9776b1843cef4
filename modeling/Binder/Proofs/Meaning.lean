import Binder.Proofs.Follows
import Binder.Proofs.Lookup

/-!
# The meaning of written types

What a written type means in a package, by the bindings in the scope of the package and in those of
the packages imported there. While variables and callables are entered, meanings stay the same.

* `Store.meaning`: the type that a name means, with or without a qualifier.
* `Store.Means`: a written type means a type.
* `TypeRef.ResolvedIn`: each level of a written type has the type that it means.
* `Store.Follows.meaning_eq`: offers of variables and callables keep all meanings.
-/

namespace Binder

/-- The offer is that of a variable or callable. -/
def Offer.Inner (o : Offer) : Prop := o.kind = .var ∨ o.kind.isCallable

/-- Variables and callables are neither types nor packages. -/
theorem Offer.Inner.not_meets {o : Offer} (h : o.Inner) {mask : KindMask} (hmask : mask.isGlobal) :
    o.kind.mask.meets mask = false := by
  refine Bool.eq_false_iff.2 fun hm => ?_
  rcases h with hk | hk
  · rw [hk] at hm
    rcases SymbolKind.eq_package_or_isType hmask hm with h | h <;> cases h
  · obtain ⟨hpackage, _, htype⟩ := SymbolKind.of_isCallable hk
    exact (SymbolKind.eq_package_or_isType hmask hm).elim hpackage htype

theorem Offer.inner_flatMap {α : Type} {f : α → List Offer} (h : ∀ x, ∀ o ∈ f x, o.Inner)
    (xs : List α) : ∀ o ∈ xs.flatMap f, o.Inner := fun o ho =>
  let ⟨x, _, ho⟩ := List.mem_flatMap.1 ho
  h x o ho

namespace Store

/-- The type called `text` in the scope of `c`; the error type if there is none. -/
def typeIn (s : Store) (c : SymbolId) (text : String) : TypeId :=
  ((s.member? c text .type).map s.table.typeOf).getD .error

/-- The type that a name means in the package `p`. -/
def meaning (s : Store) (p : SymbolId) (qualifier : Option Ident) (name : Ident) : TypeId :=
  match qualifier with
  | none => s.typeIn p name.text
  | some q => ((s.member? p q.text .package).map (s.typeIn · name.text)).getD .error

/-- The package in which a name with the qualifier is looked up in the package `c`. -/
def packageMeant? (s : Store) (c : SymbolId) : Option Ident → Option SymbolId
  | none => some c
  | some q => s.member? c q.text .package

theorem meaning_eq_typeIn (s : Store) (c : SymbolId) (qualifier : Option Ident) (name : Ident) :
    s.meaning c qualifier name =
      ((s.packageMeant? c qualifier).map (s.typeIn · name.text)).getD .error := by
  cases qualifier <;> rfl

/-- The array type of an element type. The error type is its own array type. -/
def IsArrayOf (s : Store) (element array : TypeId) : Prop :=
  if element = .error then array = .error
  else s.table.types.arrays.lookup element = some array ∧
    s.table.types.get? array = some (.array element)

/-- The written type means the type `ty` in the package `p`. -/
def Means (s : Store) (p : SymbolId) : TypeRef → TypeId → Prop
  | .primitive k _ _, ty => ty = k.typeId
  | .named qualifier name _ _, ty => ty = s.meaning p qualifier name
  | .array element _ _, ty => ∃ inner, s.Means p element inner ∧ s.IsArrayOf inner ty

end Store

/-- Each level of the written type is annotated with what it means in the package `p`. -/
def TypeRef.ResolvedIn (s : Store) (p : SymbolId) : TypeRef → Prop
  | r@(.primitive ..) | r@(.named ..) => ∃ ty, r.ty = some ty ∧ s.Means p r ty
  | r@(.array element ..) =>
    element.ResolvedIn s p ∧ ∃ ty, r.ty = some ty ∧ s.Means p r ty

theorem TypeRef.ResolvedIn.means {s : Store} {p : SymbolId} {r : TypeRef} (h : r.ResolvedIn s p) :
    ∃ ty, r.ty = some ty ∧ s.Means p r ty := by
  cases r with
  | primitive | named => exact h
  | array => exact h.2

namespace Store

variable {s s' : Store} {p c : SymbolId} {text : String} {mask : KindMask}

/-! ## Meanings are kept -/

theorem Effect.bound?_of_some {os : List Offer} (h : s.Effect os s') {x : SymbolId}
    (hx : s.bound? c text = some x) : s'.bound? c text = some x := by
  rw [bound?, Option.join_eq_some_iff] at hx
  rw [bound?, h.bindings, List.lookup_append, hx]
  rfl

/-- What is bound that was not bound before is the symbol of an offer. -/
theorem Effect.bound?_of_none {os : List Offer} (h : s.Effect os s') {x : SymbolId}
    (hnone : s.bound? c text = none) (hx : s'.bound? c text = some x) :
    ∃ o ∈ os, o.symbol = some x := by
  have hlookup : (s.bindings c).lookup text = none := by
    cases hl : (s.bindings c).lookup text with
    | none => rfl
    | some found =>
      -- Every binding has a symbol.
      obtain ⟨e, _, he⟩ := List.mem_map.1 (mem_of_lookup hl)
      rw [bound?, hl, Option.join_some] at hnone
      exact absurd ((congrArg Prod.snd he).trans hnone) (Option.some_ne_none e.2)
  rw [bound?, h.bindings, List.lookup_append, hlookup, Option.none_or] at hx
  obtain ⟨o, ho, hbinding⟩ := List.mem_map.1 (mem_of_lookup (Option.join_eq_some_iff.1 hx))
  exact ⟨o, mem_of_mem_firsts (List.mem_of_mem_filter ho), congrArg Prod.snd hbinding⟩

namespace Follows

variable {os : List Offer} (h : s.Follows os s') (hs : s.Sound)
include h hs

theorem typeOf_eq {x : SymbolId} {sym : Symbol} (hx : s.table.symbol? x = some sym)
    (hk : sym.kind.isType) : s'.table.typeOf x = s.table.typeOf x := by
  obtain ⟨id, hid, _⟩ := (hs.linked.symbol x sym hx).isType hk
  obtain ⟨sym', hsym', _, hty⟩ := h.grows.table.symbol hx
  rw [Table.typeOf, Table.typeOf, hx, hsym', Option.bind_some, Option.bind_some, hid, hty id hid]

/-- A look-up of a name that is bound as before finds what it found before. -/
theorem member?_eq_of_bound?_eq (hb : s'.bound? c text = s.bound? c text) (mask : KindMask) :
    s'.member? c text mask = s.member? c text mask := by
  rw [member?, member?, hb]
  cases hx : s.bound? c text with
  | none => rfl
  | some x =>
    obtain ⟨sym, hsym⟩ := hs.symbol?_of_bound? hx
    obtain ⟨sym', hsym', hcore, _⟩ := h.grows.table.symbol hsym
    rw [Option.filter_some, Option.filter_some, hsym, hsym', Option.any_some, Option.any_some,
      Symbol.eq_of_core Symbol.kind (fun _ => rfl) hcore]

/-- What a look-up of a bound name finds is settled. -/
theorem member?_eq_of_bound (hb : (s.bound? c text).isSome) (mask : KindMask) :
    s'.member? c text mask = s.member? c text mask := by
  obtain ⟨x, hx⟩ := Option.isSome_iff_exists.1 hb
  exact h.member?_eq_of_bound?_eq hs ((h.effect.bound?_of_some hx).trans hx.symm) mask

/-- A look-up finds what it found before, if nothing is offered that it could find. -/
theorem member?_eq (hos : ∀ o ∈ os, o.kind.mask.meets mask = false) (c : SymbolId)
    (text : String) : s'.member? c text mask = s.member? c text mask := by
  cases hb : s.bound? c text with
  | some x => exact h.member?_eq_of_bound hs (by rw [hb]; rfl) mask
  | none =>
    rw [member?, member?, hb]
    cases hb' : s'.bound? c text with
    | none => rfl
    | some x =>
      obtain ⟨o, ho, hx⟩ := h.effect.bound?_of_none hb hb'
      obtain ⟨y, hy, hkind⟩ := (h.has o ho).kindOf
      cases hx.symm.trans hy
      obtain ⟨sym, hsym, hk⟩ := Option.map_eq_some_iff.1 hkind
      rw [Option.filter_some, hsym, Option.any_some, hk, hos o ho]
      rfl

/-- A name means the type that it meant before, if a look-up finds what it found before. -/
theorem typeIn_eq_of_member?_eq (hmember : s'.member? c text .type = s.member? c text .type) :
    s'.typeIn c text = s.typeIn c text := by
  rw [typeIn, typeIn, hmember]
  cases hm : s.member? c text .type with
  | none => rfl
  | some x =>
    obtain ⟨sym, hsym, hmeets⟩ := symbol?_of_member? hm
    rw [Option.map_some, Option.map_some,
      h.typeOf_eq hs hsym (sym.kind.meets_type_eq_isType ▸ hmeets)]

/-- What a bound name means is settled. -/
theorem typeIn_eq_of_bound (hb : (s.bound? c text).isSome) :
    s'.typeIn c text = s.typeIn c text :=
  h.typeIn_eq_of_member?_eq hs (h.member?_eq_of_bound hs hb .type)

variable (hos : ∀ o ∈ os, o.Inner)
include hos

/-- Variables and callables are no types. -/
theorem typeIn_eq (c : SymbolId) (text : String) : s'.typeIn c text = s.typeIn c text :=
  h.typeIn_eq_of_member?_eq hs
    (h.member?_eq hs (fun o ho => (hos o ho).not_meets KindMask.isGlobal_type) c text)

/-- While variables and callables are entered, qualifiers name the same packages. -/
theorem packageMeant?_eq (p : SymbolId) (qualifier : Option Ident) :
    s'.packageMeant? p qualifier = s.packageMeant? p qualifier := by
  cases qualifier with
  | none => rfl
  | some q =>
    exact h.member?_eq hs (fun o ho => (hos o ho).not_meets KindMask.isGlobal_package) p q.text

/-- While variables and callables are entered, names keep their meaning. -/
theorem meaning_eq (p : SymbolId) (qualifier : Option Ident) (name : Ident) :
    s'.meaning p qualifier name = s.meaning p qualifier name := by
  rw [meaning_eq_typeIn, meaning_eq_typeIn, h.packageMeant?_eq hs hos,
    funext fun package => h.typeIn_eq hs hos package name.text]

end Follows

/-! ## Resolved types are kept -/

theorem IsArrayOf.mono {element array : TypeId} (h : s.IsArrayOf element array)
    (g : s.Grows s') : s'.IsArrayOf element array := by
  unfold IsArrayOf at h ⊢
  split
  · next he => rwa [if_pos he] at h
  · next he =>
    rw [if_neg he] at h
    obtain ⟨hlookup, hget⟩ := h
    obtain ⟨rest, hrest⟩ := g.arrays
    refine ⟨by rw [← hrest, List.lookup_append, hlookup]; rfl, ?_⟩
    -- An array type is all outline.
    have hout : s.table.outlineOf array = some (.array element) := by
      rw [Table.outlineOf, hget]
      rfl
    obtain ⟨ty, hty, houtline⟩ := Option.map_eq_some_iff.1 (g.table.type hout)
    rw [hty]
    cases ty with
    | array e => exact congrArg some houtline
    | _ => cases houtline

/-- What a written type means is kept if the names in it keep their meanings. -/
theorem Means.of_meaning {r : TypeRef} {ty : TypeId} (h : s.Means p r ty) (g : s.Grows s')
    (hr : ∀ b, r.baseName? = some b → s'.meaning p b.1 b.2 = s.meaning p b.1 b.2) :
    s'.Means p r ty := by
  induction r generalizing ty with
  | primitive => exact h
  | named q n => exact Eq.trans h (hr (q, n) rfl).symm
  | array element _ _ ih =>
    obtain ⟨inner, hinner, harray⟩ := h
    exact ⟨inner, ih hinner hr, harray.mono g⟩

end Store

theorem TypeRef.ResolvedIn.of_meaning {s s' : Store} {p : SymbolId} {r : TypeRef}
    (h : r.ResolvedIn s p) (g : s.Grows s')
    (hr : ∀ b, r.baseName? = some b → s'.meaning p b.1 b.2 = s.meaning p b.1 b.2) :
    r.ResolvedIn s' p := by
  induction r with
  | primitive | named =>
    obtain ⟨ty, hty, hm⟩ := h
    exact ⟨ty, hty, hm.of_meaning g hr⟩
  | array element _ _ ih =>
    obtain ⟨he, ty, hty, hm⟩ := h
    exact ⟨ih he hr, ty, hty, hm.of_meaning g hr⟩

/-- While variables and callables are entered, a written type stays resolved. -/
theorem TypeRef.ResolvedIn.mono {s s' : Store} {p : SymbolId} {r : TypeRef} {os : List Offer}
    (h : r.ResolvedIn s p) (he : s.Follows os s') (hs : s.Sound) (hos : ∀ o ∈ os, o.Inner) :
    r.ResolvedIn s' p :=
  h.of_meaning he.grows fun b _ => he.meaning_eq hs hos p b.1 b.2

end Binder
