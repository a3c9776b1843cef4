import Binder.Proofs.Misnaming
import Binder.Proofs.Strata

/-!
# The text of what a written type means

The text of a type is what is written for it, without the qualifier of a name: a struct, connector or
service is called as it is declared, wherever it is named.

* `TypeRef.plainText`: a written type without qualifiers.
* `Store.Sound.text_of_bound?`: what is bound to a text is called so.
* `Store.Means.typeText_eq`: the text of what a written type means.
-/

namespace Binder

/-- The written type without the qualifier of the name in it. -/
def TypeRef.plainText : TypeRef → String
  | primitive p _ _ => p.keyword
  | named _ name _ _ => name.text
  | array element _ _ => element.plainText ++ "[]"

theorem TypeRef.plainText_bare (r : TypeRef) : r.bare.plainText = r.plainText := by
  induction r with
  | primitive | named => rfl
  | array element _ _ ih => exact congrArg (· ++ "[]") ih

namespace Store

variable {s : Store} {c x : SymbolId} {text : String} {sym : Symbol}

/-- A symbol that is bound to a text is called so, unless it is an imported package. -/
theorem Sound.text_of_bound? (hs : s.Sound) (h : s.bound? c text = some x)
    (hx : s.table.symbol? x = some sym) (hk : sym.kind ≠ .package) :
    s.names.text sym.name = text := by
  obtain ⟨e, he, heq⟩ := List.mem_map.1 (mem_bindings_of_bound? h)
  obtain ⟨htext, hsymbol⟩ := Prod.mk.inj heq
  cases Option.some.inj hsymbol
  unfold entries at he
  cases hsc : (s.table.scopeOf c).bind s.table.scope? with
  | none =>
    rw [hsc] at he
    cases he
  | some sc =>
    obtain ⟨i, _, hi⟩ := Option.bind_eq_some_iff.1 hsc
    rw [hsc] at he
    obtain ⟨sym', hsym', _, hother⟩ := (hs.linked.scope i sc hi).entry e he
    cases hx.symm.trans hsym'
    rw [(hother hk).1, htext]

/-- The symbol of a type that is found under a text is called so. -/
theorem Sound.symbolText_of_member? (hs : s.Sound) (h : s.member? c text .type = some x) :
    s.symbolText x = text := by
  obtain ⟨sym, hsym, hmeets⟩ := symbol?_of_member? h
  have hk := (SymbolKind.of_isType (sym.kind.meets_type_eq_isType ▸ hmeets)).1
  rw [symbolText_of_symbol? hsym, hs.text_of_bound? (Option.filter_eq_some_iff.1 h).1 hsym hk]

/-- The text of the type of a struct, connector or service is how that is called. -/
theorem Sound.typeTextWithin_typeOf (hs : s.Sound) (hx : s.table.symbol? x = some sym)
    (hk : sym.kind.isType) (bound : Nat) :
    s.table.typeTextWithin s.names (bound + 1) (s.table.typeOf x) = some (s.symbolText x) := by
  obtain ⟨ty, hty, hout⟩ := Option.map_eq_some_iff.1 (hs.outlineOf_typeOf hx hk)
  have hsubject : ty.subject? = some x := by
    rw [← ty.subject?_outline, hout, Table.subject?_ofContainer]
  have htext : (s.table.symbol? x).map (fun sym => s.names.text sym.name) =
      some (s.symbolText x) := by
    rw [symbolText_of_symbol? hx, hx, Option.map_some]
  rw [Table.typeTextWithin, hty]
  cases ty with
  | struct st =>
    cases hsubject
    exact htext
  | connector y | service y =>
    cases hsubject
    exact htext
  | _ => cases hsubject

theorem Sound.typeTextWithin_of_means (hs : s.Sound) (ht : s.table.Stratified) {r : TypeRef}
    {ty : TypeId} (h : s.Means c r ty) (hne : ty ≠ .error) {bound : Nat} (hlt : ty.index < bound) :
    s.table.typeTextWithin s.names bound ty = some r.plainText := by
  obtain ⟨bound, rfl⟩ : ∃ n, bound = n + 1 := ⟨bound - 1, by omega⟩
  induction r generalizing ty bound with
  | primitive k =>
    cases (show ty = k.typeId from h)
    rw [Table.typeTextWithin,
      show s.table.types.get? k.typeId = _ from hs.types.builtin (Ty.builtins_primitive k)]
    rfl
  | named qualifier name =>
    have hmeaning : ty = s.meaning c qualifier name := h
    rw [meaning_eq_typeIn] at hmeaning
    cases hp : s.packageMeant? c qualifier with
    | none =>
      rw [hp] at hmeaning
      exact absurd hmeaning hne
    | some p =>
      rw [hp, Option.map_some, Option.getD_some, typeIn] at hmeaning
      cases hx : s.member? p name.text .type with
      | none =>
        rw [hx] at hmeaning
        exact absurd hmeaning hne
      | some x =>
        obtain ⟨sym, hsym, hmeets⟩ := symbol?_of_member? hx
        rw [hx, Option.map_some, Option.getD_some] at hmeaning
        rw [hmeaning, hs.typeTextWithin_typeOf hsym (sym.kind.meets_type_eq_isType ▸ hmeets),
          hs.symbolText_of_member? hx]
        rfl
  | array element _ _ ih =>
    obtain ⟨inner, hinner, harray⟩ := h
    have hinnerNe : inner ≠ .error := fun he => hne (by rwa [IsArrayOf, if_pos he] at harray)
    rw [IsArrayOf, if_neg hinnerNe] at harray
    -- The element type is older.
    have holder : inner.index < ty.index :=
      (ht.type ty _ harray.2).older rfl inner (List.mem_singleton_self _)
    obtain ⟨n, rfl⟩ : ∃ n, bound = n + 1 := ⟨bound - 1, by omega⟩
    have htext := ih hinner hinnerNe n (by omega)
    rw [Table.typeTextWithin, harray.2]
    simp only [htext, Option.map_some]
    rfl

/-- What a written type means is there. -/
theorem Means.isSome_get? {r : TypeRef} {ty : TypeId} (h : s.Means c r ty) (hs : s.Sound) :
    (s.table.types.get? ty).isSome := by
  have herror : s.table.types.get? .error = some .error := hs.types.builtin (by decide)
  cases r with
  | primitive k =>
    cases (show ty = k.typeId from h)
    exact (hs.usable_primitive k).1
  | named qualifier name =>
    rw [show ty = _ from h, meaning_eq_typeIn]
    cases s.packageMeant? c qualifier with
    | none => exact herror ▸ rfl
    | some p =>
      rw [Option.map_some, Option.getD_some, typeIn]
      cases hx : s.member? p name.text .type with
      | none => exact herror ▸ rfl
      | some x =>
        obtain ⟨sym, hsym, hmeets⟩ := symbol?_of_member? hx
        exact (hs.usable_typeOf hsym (sym.kind.meets_type_eq_isType ▸ hmeets)).1
  | array element =>
    obtain ⟨inner, _, harray⟩ := h
    unfold IsArrayOf at harray
    split at harray
    · exact harray ▸ herror ▸ rfl
    · exact harray.2 ▸ rfl

/-- What a written type means has a text, if that is not the error type. -/
theorem Means.typeText?_eq {r : TypeRef} {ty : TypeId} (h : s.Means c r ty) (hs : s.Sound)
    (ht : s.table.Stratified) (hne : ty ≠ .error) :
    s.table.typeText? s.names ty = some r.plainText := by
  have hsome : (s.table.types.get? ty).isSome := h.isSome_get? hs
  obtain ⟨t, hget⟩ := Option.isSome_iff_exists.1 hsome
  have hlt : ty.index < s.table.types.size := (Array.getElem?_eq_some_iff.1 hget).1
  exact hs.typeTextWithin_of_means ht h hne (Nat.lt_succ_of_lt hlt)

theorem Means.typeText_eq {r : TypeRef} {ty : TypeId} (h : s.Means c r ty) (hs : s.Sound)
    (ht : s.table.Stratified) (hne : ty ≠ .error) : s.typeText ty = r.plainText := by
  rw [typeText, h.typeText?_eq hs ht hne, Option.getD_some]

end Store

end Binder
