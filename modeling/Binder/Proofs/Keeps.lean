import Binder.Proofs.Meaning

/-!
# What is left alone

Entering a package leaves alone whatever was there before: symbols, scopes and types are not merely
still there, they are the same. A run keeps everything that is older than its mark, and what is kept
means what it meant.

* `Store.Keeps`: everything in a store is in another one, unchanged.
* `Store.Run.keeps`: a run keeps what is older than its mark.
* `Store.Keeps.bindings_eq`, `TypeRef.ResolvedIn.of_keeps`: bindings and meanings are kept.
-/

namespace Binder

namespace Store

/-- Everything in `s` is in `s'`, unchanged. -/
structure Keeps (s s' : Store) : Prop where
  symbol : ∀ {x : SymbolId} {sym : Symbol}, s.table.symbol? x = some sym →
    s'.table.symbol? x = some sym
  scope : ∀ {i : ScopeId} {sc : Scope}, s.table.scope? i = some sc → s'.table.scope? i = some sc
  type : ∀ {id : TypeId} {ty : Ty}, s.table.types.get? id = some ty →
    s'.table.types.get? id = some ty
  names : s.names.texts <+: s'.names.texts
  log : s.log <+: s'.log
  arrays : s.table.types.arrays <+: s'.table.types.arrays

namespace Keeps

variable {s s' s'' : Store}

theorem refl (s : Store) : s.Keeps s :=
  ⟨id, id, id, List.prefix_rfl, List.prefix_rfl, List.prefix_rfl⟩

variable (h : s.Keeps s')
include h

theorem trans (h' : s'.Keeps s'') : s.Keeps s'' :=
  ⟨h'.symbol ∘ h.symbol, h'.scope ∘ h.scope, h'.type ∘ h.type, h.names.trans h'.names,
    h.log.trans h'.log, h.arrays.trans h'.arrays⟩

theorem grows : s.Grows s' where
  table :=
    { symbol := fun hx => ⟨_, h.symbol hx, rfl, fun _ => id⟩
      scope := fun hi => ⟨_, h.scope hi, rfl, rfl, List.prefix_rfl⟩
      type := fun hid => by
        obtain ⟨ty, hty, rfl⟩ := Option.map_eq_some_iff.1 hid
        rw [Table.outlineOf, h.type hty, Option.map_some] }
  names := h.names
  log := h.log
  arrays := h.arrays

end Keeps

/-! ## Runs -/

section

variable {s₀ s : Store} {o : Offer} {c : SymbolId} {scope : ScopeId} {name : Name} {pkg : PackageId}

/-- What is offered after the mark goes to no scope that is older. -/
theorem Admits.scope?_eq_none (ha : s.Admits s₀.mark o c scope name pkg) (hs₀ : s₀.Sound)
    (hs : s.Sound) (h₀ : s₀.Keeps s) : s₀.table.scope? scope = none := by
  cases hi : s₀.table.scope? scope with
  | none => rfl
  | some sc =>
    exfalso
    obtain ⟨sc', hsc', howner⟩ := hs.linked.scope?_of_scopeOf ha.scopeOf
    cases hsc'.symm.trans (h₀.scope hi)
    obtain ⟨sym, hsym⟩ := Table.symbol?_of_scopeOf (hs₀.linked.scope scope sc hi).owner
    have hlt : sc.owner.index < s₀.table.symbols.size := Table.lt_nextSymbol hsym
    rw [howner] at hlt
    exact Nat.lt_irrefl _ (Nat.lt_of_lt_of_le hlt ha.fresh)

/-- A symbol is made. -/
theorem Made.keeps {table : Table} {sym : Symbol} (h : s.Made o name pkg table sym)
    (htypes : ∀ id, (s.table.types.get? id).isSome → table.types.get? id = s.table.types.get? id) :
    s.Keeps { s with table } where
  symbol {x xsym} hx := by rw [h.symbol, if_neg (s.table.ne_nextSymbol hx), hx]
  scope {i sc} hi := by
    obtain ⟨sc', hsc', _⟩ := h.grows.table.scope hi
    rcases h.scope i sc' hsc' with hsame | ⟨hnone, _⟩
    · cases hi.symm.trans hsame
      exact hsc'
    · exact absurd (hnone.symm.trans hi) nofun
  type {id ty} hid := (htypes id (Option.isSome_iff_exists.2 ⟨ty, hid⟩)).trans hid
  names := List.prefix_rfl
  log := List.prefix_rfl
  arrays := h.grows.arrays

/-- A symbol is offered to a scope that is not older. -/
theorem Keeps.define {span : Span} {x : SymbolId} {sym : Symbol} (h : s₀.Keeps s)
    (hi : s₀.table.scope? scope = none) (hx : s.table.symbol? x = some sym) :
    s₀.Keeps (Store.define span scope name x s).2 := by
  rw [define_eq hx]
  refine ⟨h.symbol, fun {j sc} hj => ?_, h.type, h.names, h.log.trans (List.prefix_append _ _),
    h.arrays⟩
  have hne : j ≠ scope := fun he => by
    rw [he, hi] at hj
    cases hj
  rw [Table.scope?_bind, if_neg hne]
  exact h.scope hj

/-- A symbol is made after the mark and offered. -/
theorem Made.keeps_offerNext {table : Table} {sym : Symbol} (h : s.Made o name pkg table sym)
    (ha : s.Admits s₀.mark o c scope name pkg) (hs₀ : s₀.Sound) (hs : s.Sound) (h₀ : s₀.Keeps s)
    (htypes : ∀ id, (s.table.types.get? id).isSome → table.types.get? id = s.table.types.get? id) :
    s₀.Keeps (s.offerNext (o.toSymbol name pkg) scope table) :=
  (h₀.trans (h.keeps htypes)).define (ha.scope?_eq_none hs₀ hs h₀) h.symbol?_next

namespace Run

variable {os : List Offer} {s' : Store}

/-- A run keeps what is older than its mark. -/
theorem keeps (h : Run s₀.mark s os s') (hs₀ : s₀.Sound) (hs : s.Sound) (h₀ : s₀.Keeps s) :
    s₀.Keeps s' := by
  induction h with
  | refl => exact h₀
  | trans h _ ih ih' => exact ih' (h.sound hs) (ih hs h₀)
  | intern s text =>
    exact ⟨h₀.symbol, h₀.scope, h₀.type, h₀.names.trans (s.names.prefix_intern text), h₀.log,
      h₀.arrays⟩
  | report =>
    exact ⟨h₀.symbol, h₀.scope, h₀.type, h₀.names, h₀.log.trans (List.prefix_append _ _), h₀.arrays⟩
  | @array s element hu he =>
    have harrays := ((Run.array (m := s₀.mark) hu he).grows hs).arrays
    refine ⟨h₀.symbol, h₀.scope, fun {id ty} hid => ?_, h₀.names, h₀.log, h₀.arrays.trans harrays⟩
    have hold := h₀.type hid
    exact (s.table.types.get?_arrayOf_of_isSome element
      (Option.isSome_iff_exists.2 ⟨ty, hold⟩)).trans hold
  | @setFields s id fields hid _ =>
    simp only [Store.setFields]
    cases hset : s.table.types.setFields? id fields with
    | none => exact h₀
    | some types =>
      obtain ⟨_, _, harrays, hget⟩ := s.table.types.get?_setFields? hset
      refine ⟨h₀.symbol, h₀.scope, fun {j ty} hj => ?_, h₀.names, h₀.log, harrays ▸ h₀.arrays⟩
      -- The struct type is not older than the mark.
      have hlt : j.index < s₀.table.types.size := (Array.getElem?_eq_some_iff.1 hj).1
      have hne : j ≠ id := fun he => Nat.lt_irrefl _ (Nat.lt_of_lt_of_le (he ▸ hlt) hid)
      exact ((hget j).trans (if_neg hne)).trans (h₀.type hj)
  | var ha hk hty hu =>
    exact (ha.made_var hs hk hty hu).keeps_offerNext ha hs₀ hs h₀ fun _ _ => rfl
  | @container s _ _ _ _ _ ha hk hty hc =>
    exact (ha.made_container hs hk hty hc).keeps_offerNext ha hs₀ hs h₀
      fun _ hid => s.table.types.get?_alloc_of_isSome _ hid
  | @callable s s₁ o os c scope name pkg signature links ha hk hty hrun _ _ ih =>
    have h₁ := ih (ha.follows_callable hs hk hty).sound
      ((ha.made_callable hs hk hty).keeps_offerNext ha hs₀ hs h₀ fun _ _ => rfl)
    refine ⟨fun {x sym} hx => ?_, h₁.scope, fun {id ty} hid => ?_, h₁.names, h₁.log, h₁.arrays⟩
    · rw [Table.symbol?_complete, if_neg (s.table.ne_nextSymbol (h₀.symbol hx))]
      exact h₁.symbol hx
    · have hold := h₁.type hid
      exact (s₁.table.types.get?_alloc_of_isSome _
        (Option.isSome_iff_exists.2 ⟨ty, hold⟩)).trans hold

end Run

end

/-! ## Bindings and meanings -/

namespace Keeps

variable {s s' : Store} (h : s.Keeps s') (hs : s.Sound) {c : SymbolId} {sym : Symbol}
include h hs

/-- What is bound in the scope of a symbol stays as it is. -/
theorem bindings_eq (hc : s.table.symbol? c = some sym) : s'.bindings c = s.bindings c := by
  refine hs.bindings_eq h.names ?_
  have hscope : s.table.scopeOf c = sym.scope := by rw [Table.scopeOf, hc, Option.bind_some]
  have hscope' : s'.table.scopeOf c = sym.scope := by
    rw [Table.scopeOf, h.symbol hc, Option.bind_some]
  cases hi : sym.scope with
  | none => rw [entries_eq_nil (hscope.trans hi), entries_eq_nil (hscope'.trans hi)]
  | some i =>
    obtain ⟨sc, hsc, _⟩ := hs.linked.scope?_of_scopeOf (hscope.trans hi)
    rw [entries_of_scopeOf (hscope.trans hi) hsc,
      entries_of_scopeOf (hscope'.trans hi) (h.scope hsc)]

theorem member?_eq (hc : s.table.symbol? c = some sym) (text : String) (mask : KindMask) :
    s'.member? c text mask = s.member? c text mask := by
  rw [member?, member?, bound?, h.bindings_eq hs hc, ← bound?]
  cases hb : s.bound? c text with
  | none => rfl
  | some x =>
    obtain ⟨xsym, hx⟩ := hs.symbol?_of_bound? hb
    rw [Option.filter_some, Option.filter_some, hx, h.symbol hx]

theorem typeIn_eq (hc : s.table.symbol? c = some sym) (text : String) :
    s'.typeIn c text = s.typeIn c text := by
  rw [typeIn, typeIn, h.member?_eq hs hc]
  cases hm : s.member? c text .type with
  | none => rfl
  | some x =>
    obtain ⟨xsym, hx, _⟩ := symbol?_of_member? hm
    rw [Option.map_some, Option.map_some, Table.typeOf, Table.typeOf, hx, h.symbol hx]

theorem meaning_eq (hc : s.table.symbol? c = some sym) (qualifier : Option Ident) (name : Ident) :
    s'.meaning c qualifier name = s.meaning c qualifier name := by
  cases qualifier with
  | none => exact h.typeIn_eq hs hc name.text
  | some q =>
    simp only [meaning, h.member?_eq hs hc]
    cases hm : s.member? c q.text .package with
    | none => rfl
    | some x =>
      obtain ⟨xsym, hx, _⟩ := symbol?_of_member? hm
      exact h.typeIn_eq hs hx name.text

end Keeps

end Store

/-- A written type that is resolved stays resolved. -/
theorem TypeRef.ResolvedIn.of_keeps {s s' : Store} {p : SymbolId} {sym : Symbol} {r : TypeRef}
    (hr : r.ResolvedIn s p) (h : s.Keeps s') (hs : s.Sound) (hp : s.table.symbol? p = some sym) :
    r.ResolvedIn s' p :=
  hr.of_meaning h.grows fun b _ => h.meaning_eq hs hp b.1 b.2

end Binder
