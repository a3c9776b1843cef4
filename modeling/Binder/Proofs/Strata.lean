import Binder.Proofs.ErrorType
import Binder.Proofs.Retention

/-!
# What types are made of

A table of types is built from the bottom. An array type or the type of a callable is made of older
types, so going down from a type comes to an end, although the types of the fields of structs may
lead round and round. A struct, connector or service has a type of its own that names it, and so
has a callable a type of its own that does not.

* `Ty.subject?`: the struct, connector or service that a type names.
* `Table.Stratified`: the order of types, and which symbols they belong to.
* `Session.Course.stratified`: every session has its types in order.
* `Table.Stratified.isSome_typeText?`: every type has a text.
-/

namespace Binder

/-- The struct, connector or service that a type names. -/
def Ty.subject? : Ty → Option SymbolId
  | .struct st => some st.symbol
  | .connector x | .service x => some x
  | _ => none

theorem Ty.subject?_outline (ty : Ty) : ty.outline.subject? = ty.subject? := by
  cases ty <;> rfl

/-- Mapping a list comes to something if mapping each element does. -/
theorem isSome_mapM {α β : Type} {f : α → Option β} {xs : List α}
    (h : ∀ x ∈ xs, (f x).isSome) : (xs.mapM f).isSome := by
  induction xs with
  | nil => rfl
  | cons x xs ih =>
    obtain ⟨y, hy⟩ := Option.isSome_iff_exists.1 (h x List.mem_cons_self)
    obtain ⟨ys, hys⟩ := Option.isSome_iff_exists.1 (ih fun z hz => h z (List.mem_cons_of_mem _ hz))
    simp [List.mapM_cons, hy, hys]

namespace Table

/-- The callable `x` has the type `id`. -/
def IsCallableOf (t : Table) (x : SymbolId) (id : TypeId) : Prop :=
  ∃ sym, t.symbol? x = some sym ∧ sym.kind.isCallable ∧ sym.ty = some id

/-- The type `ty` at `id` is made of types that are there, and of older ones if it is not that of a
    struct. If it names a symbol, it is the type of that one, and if it is the type of a callable,
    there is the callable. -/
structure StratifiedType (t : Table) (id : TypeId) (ty : Ty) : Prop where
  part : ∀ e ∈ ty.parts, (t.types.get? e).isSome
  older : ty.struct? = none → ∀ e ∈ ty.parts, e.index < id.index
  subject : ∀ x, ty.subject? = some x →
    ∃ sym, t.symbol? x = some sym ∧ sym.kind.isType ∧ sym.ty = some id
  callable : ∀ g, ty.signature? = some g → ∃ x, t.IsCallableOf x id

/-- The types of a table are made of older ones, and each type of a callable is that of one callable,
    which is a method exactly if there is a receiver. -/
structure Stratified (t : Table) : Prop where
  type : ∀ id ty, t.types.get? id = some ty → t.StratifiedType id ty
  signature : ∀ x sym id, t.symbol? x = some sym → sym.kind.isCallable → sym.ty = some id →
    ∃ g, t.types.get? id = some (.callable g) ∧ (g.receiver.isSome ↔ sym.kind = .method)
  unique : ∀ x y id, t.IsCallableOf x id → t.IsCallableOf y id → x = y

variable {t t' : Table}

/-! ## Moves -/

theorem IsCallableOf.mono {x : SymbolId} {id : TypeId} (h : t.IsCallableOf x id)
    (g : t.Grows t') : t'.IsCallableOf x id := by
  obtain ⟨sym, hsym, hk, hty⟩ := h
  obtain ⟨sym', hsym', hcore, hty'⟩ := g.symbol hsym
  exact ⟨sym', hsym', (Symbol.eq_of_core Symbol.kind (fun _ => rfl) hcore).symm ▸ hk, hty' id hty⟩

theorem StratifiedType.mono {id : TypeId} {ty : Ty} (h : t.StratifiedType id ty)
    (g : t.Grows t') : t'.StratifiedType id ty where
  part e he := g.get?_isSome (h.part e he)
  older := h.older
  subject x hx := by
    obtain ⟨sym, hsym, hk, hty⟩ := h.subject x hx
    obtain ⟨sym', hsym', hcore, hty'⟩ := g.symbol hsym
    exact ⟨sym', hsym', (Symbol.eq_of_core Symbol.kind (fun _ => rfl) hcore).symm ▸ hk,
      hty' id hty⟩
  callable γ hγ :=
    let ⟨x, hx⟩ := h.callable γ hγ
    ⟨x, hx.mono g⟩

/-- The type of a callable stays as it is. -/
theorem Grows.get?_callable (g : t.Grows t') {id : TypeId} {γ : Signature}
    (h : t.types.get? id = some (.callable γ)) : t'.types.get? id = some (.callable γ) := by
  have houtline := g.type (show t.outlineOf id = some (.callable γ) by rw [outlineOf, h]; rfl)
  obtain ⟨ty, hty, heq⟩ := Option.map_eq_some_iff.1 houtline
  cases ty with
  | callable => rw [hty, ← heq]; rfl
  | _ => cases heq

/-- A type that is made of nothing and names the symbol `x`. -/
theorem StratifiedType.of_subject {id : TypeId} {ty : Ty} {x : SymbolId} {sym : Symbol}
    (hparts : ty.parts = []) (hsubject : ty.subject? = some x) (hx : t.symbol? x = some sym)
    (hk : sym.kind.isType) (hty : sym.ty = some id) : t.StratifiedType id ty where
  part e he := absurd he (hparts ▸ List.not_mem_nil)
  older _ e he := absurd he (hparts ▸ List.not_mem_nil)
  subject y hy := by
    cases hsubject.symm.trans hy
    exact ⟨sym, hx, hk, hty⟩
  callable γ hγ := by
    cases ty with
    | callable => cases hsubject
    | _ => cases hγ

theorem parts_ofContainer (kind : SymbolKind) (x : SymbolId) :
    (Ty.ofContainer kind x).parts = [] := by
  unfold Ty.ofContainer
  split <;> rfl

theorem subject?_ofContainer (kind : SymbolKind) (x : SymbolId) :
    (Ty.ofContainer kind x).subject? = some x := by
  unfold Ty.ofContainer
  split <;> rfl

namespace Stratified

variable (h : t.Stratified)
include h

/-- A table with new symbols, none of which is a callable with a type, and new types. -/
theorem of_new (g : t.Grows t')
    (hsymbol : ∀ x sym, t'.symbol? x = some sym → t.symbol? x = some sym ∨
      ¬(sym.kind.isCallable ∧ sym.ty.isSome))
    (htype : ∀ id ty, t'.types.get? id = some ty → t.types.get? id = some ty ∨
      t'.StratifiedType id ty) : t'.Stratified where
  type id ty hid := (htype id ty hid).elim (fun hold => (h.type id ty hold).mono g) fun hnew => hnew
  signature x sym id hx hk hty := by
    rcases hsymbol x sym hx with hold | hnew
    · obtain ⟨γ, hγ, hiff⟩ := h.signature x sym id hold hk hty
      exact ⟨γ, g.get?_callable hγ, hiff⟩
    · exact absurd ⟨hk, hty ▸ rfl⟩ hnew
  unique x y id hx hy := by
    have hold : ∀ {x}, t'.IsCallableOf x id → t.IsCallableOf x id := fun ⟨sym, hsym, hk, hty⟩ =>
      ⟨sym, (hsymbol _ sym hsym).resolve_right fun hnew => hnew ⟨hk, hty ▸ rfl⟩, hk, hty⟩
    exact h.unique x y id (hold hx) (hold hy)

/-- Symbols and types are all that counts. -/
theorem of_eq (hsymbols : t'.symbols = t.symbols) (htypes : t'.types = t.types) :
    t'.Stratified := by
  obtain ⟨symbols, scopes, types, packages⟩ := t
  obtain ⟨symbols', scopes', types', packages'⟩ := t'
  cases hsymbols
  cases htypes
  exact ⟨fun id ty hid => let h' := h.type id ty hid; ⟨h'.part, h'.older, h'.subject, h'.callable⟩,
    h.signature, h.unique⟩

theorem addSymbol {sym : Symbol} (hk : sym.kind = .var) : (t.addSymbol sym).2.Stratified := by
  refine h.of_new (t.grows_addSymbol sym) (fun x sym' hx => ?_) fun _ _ => .inl
  rw [symbol?_addSymbol] at hx
  split at hx
  · cases hx
    exact .inr fun hnew => absurd hk (SymbolKind.of_isCallable hnew.1).2.1
  · exact .inl hx

theorem addOwner {sym : Symbol} (hsym : ¬(sym.kind.isCallable ∧ sym.ty.isSome))
    (parent : Option ScopeId) : (t.addOwner sym parent).Stratified := by
  refine h.of_new (t.grows_addOwner sym parent) (fun x sym' hx => ?_) fun _ _ => .inl
  rw [symbol?_addOwner] at hx
  split at hx
  · cases hx
    exact .inr hsym
  · exact .inl hx

theorem addTypeOwner {sym : Symbol} (hk : sym.kind.isType) (parent : Option ScopeId) :
    (t.addTypeOwner sym parent).Stratified := by
  have hmade := t.symbol?_addTypeOwner sym parent
  refine h.of_new (t.grows_addTypeOwner sym parent) (fun x sym' hx => ?_) fun id ty hid => ?_
  · rw [hmade] at hx
    split at hx
    · cases hx
      exact .inr fun hnew => (SymbolKind.of_isCallable hnew.1).2.2 hk
    · exact .inl hx
  · rw [show (t.addTypeOwner sym parent).types = (t.types.alloc _).2 from rfl,
      Types.get?_alloc] at hid
    split at hid
    · next hnew =>
      cases hid
      rw [hnew]
      exact .inr (.of_subject (parts_ofContainer _ _) (subject?_ofContainer _ _)
        ((hmade _).trans (if_pos rfl)) hk rfl)
    · exact .inl hid

/-- The type of a callable is made of types that are there. -/
theorem complete {x : SymbolId} {sym : Symbol} {signature : Signature} (links : Links)
    (hx : t.symbol? x = some sym) (hk : sym.kind.isCallable) (hty : sym.ty = none)
    (hparts : ∀ e ∈ signature.types, (t.types.get? e).isSome)
    (hreceiver : signature.receiver.isSome ↔ sym.kind = .method) :
    (t.complete x signature links).Stratified := by
  have g := t.grows_complete (x := x) signature links (by rw [hx]; exact hty)
  have hsymbol := t.symbol?_complete x signature links
  have htypes := t.types.get?_alloc (.callable signature)
  have hlt : ∀ {e : TypeId}, (t.types.get? e).isSome → e.index < t.types.size := fun he => by
    obtain ⟨ty, hty⟩ := Option.isSome_iff_exists.1 he
    exact (Array.getElem?_eq_some_iff.1 hty).1
  -- The completed callable is the only one that has the new type.
  have hof : ∀ y id, (t.complete x signature links).IsCallableOf y id →
      y = x ∧ id = ⟨t.types.size⟩ ∨ y ≠ x ∧ t.IsCallableOf y id := by
    rintro y id ⟨ysym, hy, hyk, hyty⟩
    rw [hsymbol] at hy
    split at hy
    · next hyx =>
      obtain ⟨osym, _, rfl⟩ := Option.map_eq_some_iff.1 hy
      exact .inl ⟨hyx, (Option.some.inj hyty).symm⟩
    · next hyx => exact .inr ⟨hyx, ysym, hy, hyk, hyty⟩
  have hxnew : (t.complete x signature links).IsCallableOf x ⟨t.types.size⟩ :=
    ⟨{ sym with ty := some ⟨t.types.size⟩, links := some links },
      by rw [hsymbol, if_pos rfl, hx]; rfl, hk, rfl⟩
  refine ⟨fun id ty hid => ?_, fun y ysym id hy hyk hyty => ?_, fun y z id hy hz => ?_⟩
  · rw [show (t.complete x signature links).types = (t.types.alloc _).2 from rfl, htypes] at hid
    split at hid
    · next hnew =>
      cases hid
      rw [hnew]
      exact ⟨fun e he => g.get?_isSome (hparts e he), fun _ e he => hlt (hparts e he), nofun,
        fun _ _ => ⟨x, hxnew⟩⟩
    · exact (h.type id ty hid).mono g
  · rw [hsymbol] at hy
    split at hy
    · obtain ⟨osym, hosym, rfl⟩ := Option.map_eq_some_iff.1 hy
      next hyx =>
      rw [hyx, hx] at hosym
      cases hosym
      cases hyty
      exact ⟨signature, (htypes _).trans (if_pos rfl), hreceiver⟩
    · obtain ⟨γ, hγ, hiff⟩ := h.signature y ysym id hy hyk hyty
      exact ⟨γ, g.get?_callable hγ, hiff⟩
  · have hfresh : ∀ {y}, ¬t.IsCallableOf y ⟨t.types.size⟩ := fun ⟨ysym, hy, hyk, hyty⟩ => by
      obtain ⟨γ, hγ, _⟩ := h.signature _ ysym _ hy hyk hyty
      exact Nat.lt_irrefl _ (hlt (hγ ▸ rfl))
    rcases hof y id hy with ⟨hyx, hid⟩ | ⟨_, hyold⟩ <;>
      rcases hof z id hz with ⟨hzx, hid'⟩ | ⟨_, hzold⟩
    · exact hyx.trans hzx.symm
    · exact absurd hzold (hid ▸ hfresh)
    · exact absurd hyold (hid' ▸ hfresh)
    · exact h.unique y z id hyold hzold

theorem arrayOf {element : TypeId} (helement : (t.types.get? element).isSome) :
    Stratified { t with types := (t.types.arrayOf element).2 } := by
  refine h.of_new (t.grows_arrayOf element) (fun _ _ => .inl) fun id ty hid => ?_
  unfold Types.arrayOf at hid
  split at hid
  · exact .inl hid
  · next hnone =>
    have hget : (t.types.alloc (.array element)).2.get? id = some ty := hid
    rw [Types.get?_alloc] at hget
    split at hget
    · next hnew =>
      cases hget
      obtain ⟨ty, hty⟩ := Option.isSome_iff_exists.1 helement
      have hlt := (Array.getElem?_eq_some_iff.1 hty).1
      refine .inr ⟨fun e he => ?_, fun _ e he => ?_, nofun, nofun⟩
      · rw [List.mem_singleton.1 he]
        exact (t.grows_arrayOf element).get?_isSome helement
      · rw [List.mem_singleton.1 he, hnew]
        exact hlt
    · exact .inl hget

theorem setFields? {id : TypeId} {fields : List Field} {types : Types}
    (hset : t.types.setFields? id fields = some types)
    (hfields : ∀ f ∈ fields, (t.types.get? f.ty).isSome) : Stratified { t with types } := by
  have g := t.grows_setFields? hset
  obtain ⟨x, hx, _, hget⟩ := t.types.get?_setFields? hset
  refine h.of_new g (fun _ _ => .inl) fun j ty hj => ?_
  rw [show Types.get? _ j = _ from hget j] at hj
  split at hj
  · next hji =>
    cases hj
    refine .inr ⟨fun e he => ?_, nofun, ?_, nofun⟩
    · obtain ⟨f, hf, rfl⟩ := List.mem_map.1 he
      exact g.get?_isSome (hfields f hf)
    · rw [hji]
      exact (h.type id _ hx).subject
  · exact .inl hj

/-- Going down from a type comes to an end: every type has a text, for which it is enough to go as
    deep as there are older types. -/
theorem isSome_typeTextWithin (names : Names) {bound : Nat} {id : TypeId} (hlt : id.index < bound)
    (hid : (t.types.get? id).isSome) : (t.typeTextWithin names bound id).isSome := by
  induction bound generalizing id with
  | zero => exact absurd hlt (Nat.not_lt_zero _)
  | succ bound ih =>
    obtain ⟨ty, hty⟩ := Option.isSome_iff_exists.1 hid
    have hstrata := h.type id ty hty
    have hpart : ty.struct? = none → ∀ e ∈ ty.parts, (t.typeTextWithin names bound e).isSome :=
      fun hst e he => ih (Nat.lt_of_lt_of_le (hstrata.older hst e he) (Nat.le_of_lt_succ hlt))
        (hstrata.part e he)
    have hsubject : ∀ x, ty.subject? = some x →
        ((t.symbol? x).map fun sym => names.text sym.name).isSome := fun x hx => by
      obtain ⟨sym, hsym, _⟩ := hstrata.subject x hx
      rw [hsym]
      rfl
    rw [typeTextWithin, hty]
    cases ty with
    | struct st => exact hsubject st.symbol rfl
    | connector x | service x => exact hsubject x rfl
    | array element => simpa using hpart rfl element (List.mem_singleton_self _)
    | callable g =>
      obtain ⟨params, hparams⟩ := Option.isSome_iff_exists.1 (isSome_mapM fun e he =>
        hpart rfl e (List.mem_append_left _ (List.mem_append_left _ he)))
      obtain ⟨returns, hreturns⟩ := Option.isSome_iff_exists.1 (isSome_mapM fun e he =>
        hpart rfl e (List.mem_append_left _ (List.mem_append_right _ he)))
      simp only [hparams, hreturns, Option.isSome_some]
    | _ => rfl

theorem isSome_typeText? (names : Names) {id : TypeId} (hid : (t.types.get? id).isSome) :
    (t.typeText? names id).isSome := by
  obtain ⟨ty, hty⟩ := Option.isSome_iff_exists.1 hid
  have hlt : id.index < t.types.size := (Array.getElem?_eq_some_iff.1 hty).1
  exact h.isSome_typeTextWithin names (Nat.lt_succ_of_lt hlt) hid

end Stratified

end Table

/-! ## Runs and courses -/

namespace Store

variable {s s' : Store}

/-- A symbol is offered to a scope. -/
theorem stratified_offerNext {table : Table} (h : table.Stratified) (sym : Symbol)
    (scope : ScopeId) : (s.offerNext sym scope table).table.Stratified :=
  let ⟨hsymbols, htypes⟩ := symbols_types_offerNext sym scope table s
  h.of_eq hsymbols htypes

/-- A callable begins to be entered: its symbol has no type yet. -/
theorem stratified_callable (hs : s.table.Stratified) {o : Offer} (hty : o.ty = none)
    {name : Name} {pkg : PackageId} {scope : ScopeId} :
    (s.offerNext (o.toSymbol name pkg) scope
      (s.table.addOwner (o.toSymbol name pkg) (some scope))).table.Stratified := by
  refine stratified_offerNext (hs.addOwner ?_ (some scope)) _ _
  rintro ⟨_, hsome⟩
  rw [show (o.toSymbol name pkg).ty = none from hty] at hsome
  cases hsome

/-- A run keeps the order of types. -/
theorem Run.stratified {m : Mark} {os : List Offer} (h : Run m s os s')
    (hs : s.table.Stratified) : s'.table.Stratified := by
  induction h with
  | refl | intern | report => exact hs
  | trans _ _ ih ih' => exact ih' (ih hs)
  | array hu => exact hs.arrayOf hu.1
  | @setFields s id fields _ hfields =>
    simp only [Store.setFields]
    cases hset : s.table.types.setFields? id fields with
    | none => exact hs
    | some types => exact hs.setFields? hset fun f hf => (hfields f hf).1
  | var _ hk => exact stratified_offerNext (hs.addSymbol hk) _ _
  | container _ hk => exact stratified_offerNext (hs.addTypeOwner hk _) _ _
  | @callable s s₁ o os c scope name pkg signature links _ hk hty hrun hu hreceiver ih =>
    have hinside := ih (stratified_callable hs hty)
    -- What is entered in the callable leaves the symbol of the callable alone.
    have hmade := s.symbol?_offerNext_addOwner (o.toSymbol name pkg) scope (some scope)
    exact hinside.complete links (hrun.retains.symbol hmade) hk hty (fun e he => (hu e he).1)
      hreceiver

/-- A struct type is that of a struct. -/
theorem Sound.exists_struct (hs : s.Sound) (h : s.table.Stratified) {id : TypeId} {st : StructTy}
    (hid : s.table.types.get? id = some (.struct st)) :
    ∃ sym, s.table.symbol? st.symbol = some sym ∧ sym.kind = .struct ∧ sym.ty = some id := by
  obtain ⟨sym, hsym, hk, hty⟩ := (h.type id _ hid).subject st.symbol rfl
  obtain ⟨id', hty', houtline⟩ := (hs.linked.symbol st.symbol sym hsym).isType hk
  cases hty.symm.trans hty'
  rw [Table.outlineOf, hid] at houtline
  refine ⟨sym, hsym, ?_, hty⟩
  cases hkind : sym.kind with
  | struct => rfl
  | connector | service => rw [hkind] at houtline; cases houtline
  | _ => rw [hkind] at hk; cases hk

end Store

namespace Session

variable {s s' : Session}

/-- Whatever a session goes through, its types stay in order. -/
theorem Course.stratified (h : s.Course s') (hs : s.store.table.Stratified) :
    s'.store.table.Stratified := by
  induction h with
  | refl | report | setState | publish => exact hs
  | trans _ _ ih ih' => exact ih' (ih hs)
  | run hrun => exact hrun.stratified hs
  | @declare s name p _ =>
    obtain ⟨packages, pkg, _, heq⟩ := p.declare_eq name s.store
    rw [run_onStore, heq]
    let sym := (Package.rootOffer (name.text s.store.names) p.span s.store.table.nextSymbol).toSymbol
      (Store.intern (name.text s.store.names) s.store).1 pkg
    have hsym : ¬(sym.kind.isCallable ∧ sym.ty.isSome) := fun h => nomatch h.1
    exact (hs.addOwner hsym none).of_eq rfl rfl
  | offer s span scope name x =>
    obtain ⟨hsymbols, htypes⟩ := Store.symbols_types_define span scope name x s.store
    exact hs.of_eq hsymbols htypes

theorem stratified_start (names : Names) (config : Config) (library : Library) :
    (start names config library).store.table.Stratified := by
  have hbuiltins : ∀ ty ∈ Ty.builtins, ty.parts = [] ∧ ty.subject? = none ∧ ty.signature? = none := by
    decide
  have hroot : ∀ x sym, (start names config library).store.table.symbol? x = some sym →
      ¬sym.kind.isCallable := fun x sym hx => by
    rw [Array.mem_singleton.1 (Array.mem_of_getElem? hx)]
    nofun
  refine ⟨fun id ty hid => ?_, fun x sym id hx hk => absurd hk (hroot x sym hx),
    fun x y id ⟨sym, hx, hk, _⟩ => absurd hk (hroot x sym hx)⟩
  have hmem : ty ∈ Ty.builtins.toArray := Array.mem_of_getElem? hid
  obtain ⟨hparts, hsubject, hsignature⟩ := hbuiltins ty (List.mem_toArray.1 hmem)
  exact ⟨by simp [hparts], by simp [hparts], by simp [hsubject], by simp [hsignature]⟩

theorem Reachable.stratified (h : s.Reachable) : s.store.table.Stratified := by
  obtain ⟨names, config, library, hcourse⟩ := h.course
  exact hcourse.stratified (stratified_start names config library)

end Session

end Binder
