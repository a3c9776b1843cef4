import Mathlib.Data.List.Nodup
import Binder.Proofs.Entry.Seal
import Binder.Proofs.Strata

/-!
# Tables of types

What can be said of the types of a session between requests. No handle leads nowhere, the types of
callables and arrays are made of older types, every struct, connector and service has a type of its
own and so has every callable, and every struct type has the fields of one declared struct, which is
a struct of a package that was entered with success.

* `Table.IsTypeOf`: the types of structs, connectors and services.
* `Session.TypesSettled`: a session whose types are in order.
* `Session.typesSettled_after`: whatever is requested of a new session, its types are in order.
-/

namespace Binder

namespace Table

/-- The struct, connector or service `x` has the type `id`. -/
def IsTypeOf (t : Table) (x : SymbolId) (id : TypeId) : Prop :=
  ∃ sym, t.symbol? x = some sym ∧ sym.kind.isType ∧ sym.ty = some id

variable {t : Table}

/-- A struct, connector or service has its type. -/
theorem Linked.isTypeOf_typeOf (h : t.Linked) {x : SymbolId} {kind : SymbolKind}
    (hx : t.kindOf x = some kind) (hk : kind.isType) : t.IsTypeOf x (t.typeOf x) := by
  obtain ⟨sym, hsym, rfl⟩ := Option.map_eq_some_iff.1 hx
  obtain ⟨id, hid, _⟩ := (h.symbol x sym hsym).isType hk
  refine ⟨sym, hsym, hk, ?_⟩
  rw [typeOf, hsym, Option.bind_some, hid, Option.getD_some]

/-- The type of a struct, connector or service names it. -/
theorem Linked.subject?_of_isTypeOf (h : t.Linked) {x : SymbolId} {id : TypeId}
    (hx : t.IsTypeOf x id) : ∃ ty, t.types.get? id = some ty ∧ ty.subject? = some x := by
  obtain ⟨sym, hsym, hk, hty⟩ := hx
  obtain ⟨id', hty', houtline⟩ := (h.symbol x sym hsym).isType hk
  cases hty.symm.trans hty'
  obtain ⟨ty, hget, heq⟩ := Option.map_eq_some_iff.1 houtline
  refine ⟨ty, hget, ?_⟩
  rw [← ty.subject?_outline, heq, subject?_ofContainer]

/-- Different structs, connectors and services have different types. -/
theorem Linked.isTypeOf_unique (h : t.Linked) {x y : SymbolId} {id : TypeId}
    (hx : t.IsTypeOf x id) (hy : t.IsTypeOf y id) : x = y := by
  obtain ⟨ty, hget, hsubject⟩ := h.subject?_of_isTypeOf hx
  obtain ⟨ty', hget', hsubject'⟩ := h.subject?_of_isTypeOf hy
  cases hget.symm.trans hget'
  exact Option.some.inj (hsubject.symm.trans hsubject')

end Table

/-- Fields are set once. -/
theorem Types.setFields?_of_fields {t : Types} {id : TypeId} {x : SymbolId} {fields : List Field}
    (h : t.get? id = some (.struct ⟨x, some fields⟩)) (fields' : List Field) :
    t.setFields? id fields' = none := by
  rw [setFields?, struct?, h]
  rfl

namespace Session

/-- The struct type `st` at `id` has the fields of the struct that it names, which is one of `ds`.
    It gets no others, whatever is requested of the session. -/
structure SettledStruct (s : Session) (ds : List Struct) (id : TypeId) (st : StructTy) :
    Prop where
  declared : ∃ d fields, d ∈ ds ∧ d.symbol = some st.symbol ∧ st.fields = some fields ∧
    List.Forall₂ (Field.Of s.store.names) fields d.fields ∧
    ∀ d' ∈ ds, d'.symbol = some st.symbol → d' = d
  refuses : ∀ fields, s.store.table.types.setFields? id fields = none
  lasting : ∀ requests, (s.after requests).store.table.types.get? id = some (.struct st)

/-- The types of a session are in order, in which the packages `ps` were entered with success. -/
structure TypesSettled (s : Session) (ps : List Package) : Prop where
  /-- The handles that are kept for symbols, in types and for array types are those of types. -/
  ty : ∀ x sym id, s.store.table.symbol? x = some sym → sym.ty = some id →
    (s.store.table.types.get? id).isSome
  part : ∀ id ty, s.store.table.types.get? id = some ty → ∀ e ∈ ty.parts,
    (s.store.table.types.get? e).isSome
  array : ∀ e ∈ s.store.table.types.arrays, s.store.table.types.get? e.2 = some (.array e.1) ∧
    (s.store.table.types.get? e.1).isSome
  /-- What an array type or the type of a callable is made of is older, and every type has a text. -/
  older : ∀ id ty, s.store.table.types.get? id = some ty → ty.struct? = none → ∀ e ∈ ty.parts,
    e.index < id.index
  text : ∀ id ty, s.store.table.types.get? id = some ty →
    (s.store.table.typeText? s.store.names id).isSome
  /-- A type that names a symbol is the type of that struct, connector or service, and no other. -/
  subject : ∀ id ty x, s.store.table.types.get? id = some ty → ty.subject? = some x →
    ∀ y, s.store.table.IsTypeOf y id ↔ y = x
  /-- A struct, connector or service has a type that is of its kind and names it. -/
  kind : ∀ x sym, s.store.table.symbol? x = some sym → sym.kind.isType → ∃ id ty,
    sym.ty = some id ∧ s.store.table.types.get? id = some ty ∧ ty.outline = .ofContainer sym.kind x
  distinct : ∀ x y id, s.store.table.IsTypeOf x id → s.store.table.IsTypeOf y id → x = y
  /-- Struct types have the fields of the structs of the packages, and these have struct types. -/
  struct : ∀ id st, s.store.table.types.get? id = some (.struct st) →
    s.SettledStruct (ps.flatMap (·.structs)) id st
  sealed : ∀ d ∈ ps.flatMap (·.structs), d.SealedIn s.store
  /-- The type of a callable is that of one callable, and has a receiver if that is a method. -/
  callable : ∀ id g, s.store.table.types.get? id = some (.callable g) →
    ∃ x sym, s.store.table.symbol? x = some sym ∧ sym.kind.isCallable ∧ sym.ty = some id ∧
      (g.receiver.isSome ↔ sym.kind = .method) ∧ ∀ y, s.store.table.IsCallableOf y id ↔ y = x

variable {s : Session}

/-- A struct type is that of a struct that was made, and no struct is there in the beginning. -/
theorem settledStruct_of_seals {names : Names} {config : Config} {library : Library}
    {ds : List Struct} (h : s.Reachable)
    (hseals : (start names config library).store.Seals ds s.store) {id : TypeId} {st : StructTy}
    (hid : s.store.table.types.get? id = some (.struct st)) : s.SettledStruct ds id st := by
  obtain ⟨sym, hsym, hkind, hty⟩ := h.sound.store.exists_struct h.stratified hid
  have hnew : (start names config library).store.table.symbol? st.symbol = none := by
    by_contra hne
    obtain ⟨root, hroot⟩ := Option.ne_none_iff_exists'.1 hne
    cases (hseals.retains.symbol hroot).symm.trans hsym
    rw [Array.mem_singleton.1 (Array.mem_of_getElem? hroot)] at hkind
    cases hkind
  obtain ⟨d, hd, hsymbol⟩ := hseals.made st.symbol sym hnew hsym hkind
  obtain ⟨fields, ⟨x, sym', id', hx, hsym', _, hty', hid'⟩, hfields⟩ := hseals.sealed d hd
  cases hsymbol.symm.trans hx
  cases hsym.symm.trans hsym'
  cases hty.symm.trans hty'
  have hst : st = ⟨st.symbol, some fields⟩ := Ty.struct.inj (Option.some.inj (hid.symm.trans hid'))
  refine ⟨⟨d, fields, hd, hx, congrArg StructTy.fields hst, hfields, fun d' hd' hx' => ?_⟩,
    Types.setFields?_of_fields hid',
    fun requests => (h.leads_after requests).keeps.type hid⟩
  exact List.inj_on_of_nodup_map hseals.nodup hd' hd (hx'.trans hx.symm)

/-- The types of a reachable session are in order, if the structs of `ps` are those that were made. -/
theorem Reachable.typesSettled {names : Names} {config : Config} {library : Library}
    {ps : List Package} (h : s.Reachable)
    (hseals : (Session.start names config library).store.Seals (ps.flatMap (·.structs)) s.store) :
    s.TypesSettled ps := by
  have hlinked := h.sound.store.linked
  have hstratified := h.stratified
  refine ⟨fun x sym id hsym => (hlinked.symbol x sym hsym).ty id,
    fun id ty hid => (hstratified.type id ty hid).part, fun e he => ?_,
    fun id ty hid => (hstratified.type id ty hid).older,
    fun id ty hid => hstratified.isSome_typeText? _ (hid ▸ rfl), fun id ty x hid hsubject y => ?_,
    fun x sym hsym hk => ?_, fun x y id => hlinked.isTypeOf_unique,
    fun id st => settledStruct_of_seals h hseals, hseals.sealed, fun id g hid => ?_⟩
  · have harray := h.sound.store.types.array e he
    exact ⟨harray, (hstratified.type e.2 _ harray).part e.1 (List.mem_singleton_self _)⟩
  · have hx : s.store.table.IsTypeOf x id := (hstratified.type id ty hid).subject x hsubject
    exact ⟨fun hy => hlinked.isTypeOf_unique hy hx, fun hyx => hyx ▸ hx⟩
  · obtain ⟨id, hty, houtline⟩ := (hlinked.symbol x sym hsym).isType hk
    obtain ⟨ty, hget, heq⟩ := Option.map_eq_some_iff.1 houtline
    exact ⟨id, ty, hty, hget, heq⟩
  · obtain ⟨x, hx⟩ := (hstratified.type id _ hid).callable g rfl
    have hof := hx
    obtain ⟨sym, hsym, hk, hty⟩ := hx
    obtain ⟨g', hg', hreceiver⟩ := hstratified.signature x sym id hsym hk hty
    cases hid.symm.trans hg'
    exact ⟨x, sym, hsym, hk, hty, hreceiver,
      fun y => ⟨fun hy => hstratified.unique y x id hy hof, fun hyx => hyx ▸ hof⟩⟩

/-- Whatever is requested of a new session, its types are in order, and its struct types are those of
    the structs that are declared in the packages entered with success. -/
theorem typesSettled_after (names : Names) (config : Config) (library : Library)
    (requests : List Request) :
    let s₀ := start names config library
    let ps := (s₀.after requests).registry.loaded ++ s₀.finished requests
    (s₀.after requests).TypesSettled ps ∧ ∀ p ∈ ps, library.Provides p ∨
      ∃ r ∈ requests, ∃ q, r.Gives q ∧ p.bare = q.collect.bare := by
  intro s₀ ps
  have h : s₀.Reachable := .start names config library
  obtain ⟨_, qs, hloaded, hprovides, hseals⟩ := seals_after requests h.sound
  have hps : ps = qs ++ s₀.finished requests := congrArg (· ++ s₀.finished requests) hloaded
  rw [← hps] at hseals
  refine ⟨(h.after requests).typesSettled hseals, fun p hp => ?_⟩
  rcases List.mem_append.1 (hps ▸ hp) with hp | hp
  · exact .inl (hprovides p hp)
  · exact .inr (bare_of_mem_finished hp)

/-- Two structs with fields of each other's types, one of which has no name and one comes twice. -/
example :
    let A : Ident := ⟨"A", .origin⟩
    let B : Ident := ⟨"B", .origin⟩
    let field (name : String) (type : Ident) : VarDecl :=
      { span := .origin, name := ⟨name, .origin⟩, type := .ofName type }
    let s := (start {} {} {}).after [.define { structs :=
      [{ span := .origin, name := A, fields := [field "f" B, field "" A, field "f" B] },
        { span := .origin, name := B, fields := [field "g" A] }] }]
    s.store.table.types.struct? ⟨12⟩ =
        some ⟨⟨2⟩, some [⟨⟨4⟩, ⟨13⟩⟩, ⟨⟨0⟩, ⟨12⟩⟩, ⟨⟨4⟩, ⟨13⟩⟩]⟩ ∧
      s.store.table.types.struct? ⟨13⟩ = some ⟨⟨3⟩, some [⟨⟨5⟩, ⟨12⟩⟩]⟩ := by
  decide +kernel

end Session

end Binder
