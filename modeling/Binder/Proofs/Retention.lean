import Binder.Proofs.Entry.Course

/-!
# What a course retains

Whatever a session goes through, a symbol that is there is not changed any more once the run that
makes it is over, a type is changed only while it is a struct type without fields, and a name keeps
its text. All of this can be read off the moves alone, for sound sessions and others.

* `Ty.Complete`: a type that cannot change any more.
* `Store.Retains`: symbols, complete types and names are kept.
* `Store.Run.retains`, `Session.Course.retains`: runs and courses do that.
* `Store.Run.get?_of_older`: a run leaves the types alone that are older than its mark, complete or
  not.
* `Store.Run.mem_of_made`: the symbols that a run makes are those it offers.
-/

namespace Binder

/-- The type is no struct type that lacks its fields. -/
def Ty.Complete (ty : Ty) : Prop := ∀ x, ty ≠ .struct ⟨x, none⟩

namespace Store

/-- The symbols, the complete types and the names in `s` are in `s'`, unchanged. -/
structure Retains (s s' : Store) : Prop where
  symbol : ∀ {x : SymbolId} {sym : Symbol}, s.table.symbol? x = some sym →
    s'.table.symbol? x = some sym
  type : ∀ {id : TypeId} {ty : Ty}, s.table.types.get? id = some ty → ty.Complete →
    s'.table.types.get? id = some ty
  names : s.names.texts <+: s'.names.texts

namespace Retains

variable {s s' s'' : Store}

theorem refl (s : Store) : s.Retains s := ⟨id, fun h _ => h, List.prefix_rfl⟩

theorem trans (h : s.Retains s') (h' : s'.Retains s'') : s.Retains s'' :=
  ⟨fun hx => h'.symbol (h.symbol hx), fun hid hty => h'.type (h.type hid hty) hty,
    h.names.trans h'.names⟩

end Retains

theorem Keeps.retains {s s' : Store} (h : s.Keeps s') : s.Retains s' :=
  ⟨h.symbol, fun hid _ => h.type hid, h.names⟩

/-! ## Names -/

variable {s s' : Store}

/-- Binding a name keeps all texts. -/
theorem prefix_names_define (span : Span) (scope : ScopeId) (name : Name) (x : SymbolId)
    (s : Store) : s.names.texts <+: (define span scope name x s).2.names.texts :=
  (names_define span scope name x s).symm ▸ List.prefix_rfl

theorem prefix_names_offerNext (sym : Symbol) (scope : ScopeId) (table : Table) (s : Store) :
    s.names.texts <+: (s.offerNext sym scope table).names.texts :=
  prefix_names_define sym.span scope sym.name s.table.nextSymbol { s with table }

/-! ## Symbols and types that are there -/

/-- Offering a symbol concerns neither symbols nor types. -/
theorem symbols_types_define (span : Span) (scope : ScopeId) (name : Name) (x : SymbolId)
    (s : Store) : (define span scope name x s).2.table.symbols = s.table.symbols ∧
      (define span scope name x s).2.table.types = s.table.types := by
  obtain ⟨scopes, log, heq⟩ := define_scopes span scope name x s
  rw [heq]
  exact ⟨rfl, rfl⟩

theorem symbols_types_offerNext (sym : Symbol) (scope : ScopeId) (table : Table) (s : Store) :
    (s.offerNext sym scope table).table.symbols = table.symbols ∧
      (s.offerNext sym scope table).table.types = table.types :=
  symbols_types_define sym.span scope sym.name s.table.nextSymbol { s with table }

theorem symbol?_define (span : Span) (scope : ScopeId) (name : Name) (x : SymbolId) (s : Store)
    (y : SymbolId) : (define span scope name x s).2.table.symbol? y = s.table.symbol? y := by
  rw [Table.symbol?, (symbols_types_define span scope name x s).1, Table.symbol?]

theorem symbol?_offerNext (sym : Symbol) (scope : ScopeId) (table : Table) (s : Store)
    (y : SymbolId) : (s.offerNext sym scope table).table.symbol? y = table.symbol? y :=
  symbol?_define sym.span scope sym.name s.table.nextSymbol { s with table } y

theorem types_offerNext (sym : Symbol) (scope : ScopeId) (table : Table) (s : Store) :
    (s.offerNext sym scope table).table.types = table.types :=
  (symbols_types_offerNext sym scope table s).2

theorem Retains.define (span : Span) (scope : ScopeId) (name : Name) (x : SymbolId) (s : Store) :
    s.Retains (Store.define span scope name x s).2 where
  symbol hy := (symbol?_define span scope name x s _).trans hy
  type hid _ := by
    rw [(symbols_types_define span scope name x s).2]
    exact hid
  names := prefix_names_define span scope name x s

/-- A symbol is made and offered. -/
theorem Retains.offerNext {table : Table} {sym sym' : Symbol} (scope : ScopeId)
    (hsymbol : ∀ y, table.symbol? y =
      if y = s.table.nextSymbol then some sym' else s.table.symbol? y)
    (htypes : ∀ id, (s.table.types.get? id).isSome → table.types.get? id = s.table.types.get? id) :
    s.Retains (s.offerNext sym scope table) where
  symbol hy := by
    rw [symbol?_offerNext, hsymbol, if_neg (s.table.ne_nextSymbol hy)]
    exact hy
  type hid _ := by
    rw [types_offerNext, htypes _ (Option.isSome_iff_exists.2 ⟨_, hid⟩)]
    exact hid
  names := prefix_names_offerNext sym scope table s

/-- A callable is completed that was made since. -/
theorem Retains.complete {s₁ : Store} (h : s.Retains s₁) {x : SymbolId}
    (hx : s.table.symbol? x = none) (signature : Signature) (links : Links) :
    s.Retains { s₁ with table := s₁.table.complete x signature links } where
  symbol {y sym} hy := by
    have hne : y ≠ x := by
      rintro rfl
      cases hx.symm.trans hy
    rw [Table.symbol?_complete, if_neg hne]
    exact h.symbol hy
  type hid hty := by
    have hold := h.type hid hty
    exact (s₁.table.types.get?_alloc_of_isSome _ (Option.isSome_iff_exists.2 ⟨_, hold⟩)).trans hold
  names := h.names

theorem symbol?_nextSymbol (s : Store) : s.table.symbol? s.table.nextSymbol = none :=
  Array.getElem?_eq_none (Nat.le_refl _)

/-- The symbol of a callable that begins to be entered. -/
theorem symbol?_offerNext_addOwner (s : Store) (sym : Symbol) (scope : ScopeId)
    (parent : Option ScopeId) :
    (s.offerNext sym scope (s.table.addOwner sym parent)).table.symbol? s.table.nextSymbol =
      some { sym with scope := some s.table.nextScope } :=
  (symbol?_offerNext _ _ _ _ _).trans ((s.table.symbol?_addOwner sym parent _).trans (if_pos rfl))

/-! ## Runs -/

namespace Run

variable {m : Mark} {os : List Offer}

/-- A run retains what is there when it begins. -/
theorem retains (h : Run m s os s') : s.Retains s' := by
  induction h with
  | refl s => exact .refl s
  | trans _ _ ih ih' => exact ih.trans ih'
  | intern s text => exact ⟨id, fun h _ => h, s.names.prefix_intern text⟩
  | report s => exact ⟨id, fun h _ => h, List.prefix_rfl⟩
  | @array s element =>
    refine ⟨id, fun {id ty} hid _ => ?_, List.prefix_rfl⟩
    exact (s.table.types.get?_arrayOf_of_isSome element
      (Option.isSome_iff_exists.2 ⟨ty, hid⟩)).trans hid
  | @setFields s id fields =>
    simp only [Store.setFields]
    cases hset : s.table.types.setFields? id fields with
    | none => exact .refl s
    | some types =>
      obtain ⟨x, hx, _, hget⟩ := s.table.types.get?_setFields? hset
      refine ⟨(fun h => h), fun {j ty} hj hty => ?_, List.prefix_rfl⟩
      have hne : j ≠ id := by
        rintro rfl
        exact hty x (Option.some.inj (hj.symm.trans hx))
      exact (hget j).trans ((if_neg hne).trans hj)
  | @var s o c scope name pkg ty =>
    exact .offerNext scope (s.table.symbol?_addSymbol _) fun _ _ => rfl
  | @container s o c scope name pkg =>
    exact .offerNext scope (s.table.symbol?_addTypeOwner _ _) fun _ hid =>
      s.table.types.get?_alloc_of_isSome _ hid
  | @callable s s₁ o os c scope name pkg signature links _ _ _ _ _ _ ih =>
    have hmade : s.Retains (s.offerNext (o.toSymbol name pkg) scope
        (s.table.addOwner (o.toSymbol name pkg) (some scope))) :=
      .offerNext scope (s.table.symbol?_addOwner _ _) fun _ _ => rfl
    exact (hmade.trans ih).complete s.symbol?_nextSymbol signature links

/-- Runs keep all texts. -/
theorem names (h : Run m s os s') : s.names.texts <+: s'.names.texts := h.retains.names

/-- A run leaves the types alone that are older than its mark. -/
theorem get?_of_older (h : Run m s os s') {id : TypeId} (hold : id.index < m.types) {ty : Ty}
    (hid : s.table.types.get? id = some ty) : s'.table.types.get? id = some ty := by
  induction h with
  | trans _ _ ih ih' => exact ih' (ih hid)
  | @array s element =>
    exact (s.table.types.get?_arrayOf_of_isSome element
      (Option.isSome_iff_exists.2 ⟨ty, hid⟩)).trans hid
  | @setFields s j fields hj =>
    simp only [Store.setFields]
    cases hset : s.table.types.setFields? j fields with
    | none => exact hid
    | some types =>
      obtain ⟨x, hx, _, hget⟩ := s.table.types.get?_setFields? hset
      have hne : id ≠ j := by
        rintro rfl
        exact absurd hold (Nat.not_lt.2 hj)
      exact (hget id).trans ((if_neg hne).trans hid)
  | var =>
    rw [types_offerNext]
    exact hid
  | @container s o c scope name pkg =>
    rw [types_offerNext]
    exact (s.table.types.get?_alloc_of_isSome _ (Option.isSome_iff_exists.2 ⟨ty, hid⟩)).trans hid
  | @callable s s₁ o os c scope name pkg signature links _ _ _ _ _ _ ih =>
    have hinside := ih (by rw [types_offerNext]; exact hid)
    exact (s₁.table.types.get?_alloc_of_isSome _
      (Option.isSome_iff_exists.2 ⟨ty, hinside⟩)).trans hinside
  | _ => exact hid

/-- A symbol that is there after one was made next is that one, or was there before. -/
theorem eq_nextSymbol_of_made {table : Table} {sym sym' : Symbol} {scope : ScopeId}
    (hsymbol : ∀ y, table.symbol? y =
      if y = s.table.nextSymbol then some sym' else s.table.symbol? y) {x : SymbolId}
    (hold : s.table.symbol? x = none)
    (hnew : ((s.offerNext sym scope table).table.symbol? x).isSome) : x = s.table.nextSymbol := by
  rw [symbol?_offerNext, hsymbol] at hnew
  by_contra hne
  rw [if_neg hne, hold] at hnew
  cases hnew

/-- What a run makes it also offers. -/
theorem mem_of_made (h : Run m s os s') {x : SymbolId} (hold : s.table.symbol? x = none)
    (hnew : (s'.table.symbol? x).isSome) : ∃ o ∈ os, o.symbol = some x := by
  induction h with
  | @trans s s₁ s₂ os os' _ _ ih ih' =>
    cases hx : s₁.table.symbol? x with
    | none =>
      obtain ⟨o, ho, hsymbol⟩ := ih' hx hnew
      exact ⟨o, List.mem_append_right _ ho, hsymbol⟩
    | some sym =>
      obtain ⟨o, ho, hsymbol⟩ := ih hold (hx ▸ rfl)
      exact ⟨o, List.mem_append_left _ ho, hsymbol⟩
  | @setFields s id fields =>
    obtain ⟨sym, hsym⟩ := Option.isSome_iff_exists.1 hnew
    simp only [Store.setFields] at hsym
    split at hsym <;> cases hold.symm.trans hsym
  | var ha =>
    have hx := eq_nextSymbol_of_made (Table.symbol?_addSymbol _ _) hold hnew
    exact ⟨_, List.mem_singleton_self _, hx ▸ ha.symbol⟩
  | container ha =>
    have hx := eq_nextSymbol_of_made (Table.symbol?_addTypeOwner _ _ _) hold hnew
    exact ⟨_, List.mem_singleton_self _, hx ▸ ha.symbol⟩
  | @callable s s₁ o os c scope name pkg signature links ha _ _ _ _ _ ih =>
    have hmade := s.table.symbol?_addOwner (o.toSymbol name pkg) (some scope)
    by_cases hx : x = s.table.nextSymbol
    · exact ⟨o, List.mem_cons_self, hx ▸ ha.symbol⟩
    · -- Completing the callable makes no symbol, so `x` is made inside of it.
      rw [Table.symbol?_complete, if_neg hx] at hnew
      obtain ⟨o', ho', hsymbol⟩ := ih
        (by rw [symbol?_offerNext, hmade, if_neg hx, hold]) hnew
      exact ⟨o', List.mem_cons_of_mem _ ho', hsymbol⟩
  | _ =>
    obtain ⟨sym, hsym⟩ := Option.isSome_iff_exists.1 hnew
    cases hold.symm.trans hsym

end Run

end Store

/-! ## Courses -/

namespace Session

variable {s s' : Session}

/-- Whatever a session goes through, it retains what is there. -/
theorem Course.retains (h : s.Course s') : s.store.Retains s'.store := by
  induction h with
  | trans _ _ ih ih' => exact ih.trans ih'
  | run hrun => exact hrun.retains
  | @declare s name p _ =>
    obtain ⟨packages, pkg, _, heq⟩ := p.declare_eq name s.store
    rw [run_onStore, heq]
    refine ⟨fun {x sym} hx => ?_, fun h _ => h, s.store.names.prefix_intern _⟩
    have hmade := s.store.table.symbol?_addOwner
      ((Package.rootOffer (name.text s.store.names) p.span s.store.table.nextSymbol).toSymbol
        (Store.intern (name.text s.store.names) s.store).1 pkg) none x
    exact hmade.trans ((if_neg (s.store.table.ne_nextSymbol hx)).trans hx)
  | offer => exact .define _ _ _ _ _
  | report => exact ⟨id, fun h _ => h, List.prefix_rfl⟩
  | _ => exact .refl _

end Session

end Binder
