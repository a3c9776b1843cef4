import Binder.Proofs.Entry.Seal
import Binder.Proofs.Scopes
import Binder.Proofs.Strata

/-!
# What the members of a package leave untouched

While the members of a package are entered, what is offered goes to the scope of the package and to
the scopes of what is made on the way. So of all scopes that are there when the members begin, that
of the package is the only one that changes, and this holds at every point on the way: a point of a
run is where a run ends that makes part of the offers, perhaps in the middle of a callable. When the
members are done, no struct type is left without its fields.

* `Store.Reaches`: the points of a run.
* `Store.KeepsScopes`: all scopes but one are kept.
* `Package.container_of_mem_memberOffers`: where the offers of members go.
* `Store.BindsOnly`: which packages are bound in scopes.
* `Store.Complete`, `Store.Seals.complete`: all struct types have their fields.
-/

namespace Binder

namespace Store

variable {m : Mark} {s₀ s s' u : Store} {os : List Offer}

/-! ## Points -/

/-- The store `u` comes up in a run from the first store, when the offers listed are made. Some
    callables may have their symbols, but not all that is in them. -/
inductive Reaches (m : Mark) : Store → List Offer → Store → Prop
  | run {s u : Store} {os : List Offer} : Run m s os u → Reaches m s os u
  | inside {s s₁ u : Store} {os os' : List Offer} {o : Offer} {c : SymbolId} {scope : ScopeId}
      {name : Name} {pkg : PackageId} :
    Run m s os s₁ → s₁.Admits m o c scope name pkg → o.kind.isCallable → o.ty = none →
    Reaches m (s₁.offerNext (o.toSymbol name pkg) scope
      (s₁.table.addOwner (o.toSymbol name pkg) (some scope))) os' u →
    Reaches m s (os ++ o :: os') u

theorem Reaches.retains (h : Reaches m s os u) : s.Retains u := by
  induction h with
  | run h => exact h.retains
  | inside h _ _ _ _ ih =>
    refine h.retains.trans (.trans ?_ ih)
    exact .offerNext _ (Table.symbol?_addOwner _ _ _) fun _ _ => rfl

/-- A point has the effects of the offers that are made before it. -/
theorem Reaches.follows (h : Reaches m s os u) (hs : s.Sound) : s.Follows os u := by
  induction h with
  | run h => exact h.follows hs
  | inside h ha hk hty _ ih =>
    have hf := h.follows hs
    have hcallable := ha.follows_callable hf.sound hk hty
    exact hf.trans (hcallable.trans (ih hcallable.sound))

/-- A run offers no packages. -/
theorem Run.kind_ne_package (h : Run m s os s') : ∀ o ∈ os, o.kind ≠ .package := by
  induction h with
  | trans _ _ ih ih' =>
    intro o ho
    exact (List.mem_append.1 ho).elim (ih o) (ih' o)
  | var ha hk =>
    intro o ho
    cases List.mem_singleton.1 ho
    exact fun hp => nomatch hk.symm.trans hp
  | container ha hk =>
    intro o ho
    cases List.mem_singleton.1 ho
    exact (SymbolKind.of_isType hk).1
  | callable ha hk _ _ _ _ ih =>
    intro o ho
    rcases List.mem_cons.1 ho with rfl | ho
    · exact (SymbolKind.of_isCallable hk).1
    · exact ih o ho
  | _ => nofun

theorem Reaches.kind_ne_package (h : Reaches m s os u) : ∀ o ∈ os, o.kind ≠ .package := by
  induction h with
  | run h => exact h.kind_ne_package
  | inside h _ hk _ _ ih =>
    intro o ho
    rcases List.mem_append.1 ho with ho | ho
    · exact h.kind_ne_package o ho
    · rcases List.mem_cons.1 ho with rfl | ho
      · exact (SymbolKind.of_isCallable hk).1
      · exact ih o ho

/-! ## Scopes -/

/-- Every scope in `s` but `j` is in `s'`, unchanged. -/
def KeepsScopes (j : ScopeId) (s s' : Store) : Prop :=
  ∀ i sc, s.table.scope? i = some sc → i ≠ j → s'.table.scope? i = some sc

/-- The offer goes to the scope of `p`, or to that of a symbol that is not in the store. -/
def OffersTo (s : Store) (p : SymbolId) (o : Offer) : Prop :=
  ∃ c, o.container = some c ∧ (c = p ∨ s.table.symbol? c = none)

section

variable {p c : SymbolId} {i j scope : ScopeId} {o : Offer} {name : Name} {pkg : PackageId}

/-- What is offered goes to the scope `j` of `p`, or to a scope that is new. -/
theorem Admits.scope_eq_or (ha : s.Admits m o c scope name pkg) (hs₀ : s₀.Sound) (hs : s.Sound)
    (g : s₀.Grows s) (hp : s₀.table.scopeOf p = some j) (ho : s₀.OffersTo p o) :
    scope = j ∨ s₀.table.scope? scope = none := by
  obtain ⟨c', hc', h⟩ := ho
  cases ha.container.symm.trans hc'
  rcases h with rfl | hnew
  · exact .inl (Option.some.inj (ha.scopeOf.symm.trans (g.table.scopeOf hp)))
  · refine .inr (Option.eq_none_iff_forall_ne_some.2 fun sc hi => ?_)
    -- The owner of a scope that was there before was there, too.
    obtain ⟨sym, hsym⟩ := Table.symbol?_of_scopeOf (hs₀.linked.scope scope sc hi).owner
    obtain ⟨sc', hsc', howner⟩ := hs.linked.scope?_of_scopeOf ha.scopeOf
    have howner₀ : s₀.table.ownerOf scope = some sc.owner := by
      rw [Table.ownerOf, hi, Option.map_some]
    have howner' := g.table.ownerOf howner₀
    rw [Table.ownerOf, hsc', Option.map_some, howner] at howner'
    cases howner'
    cases hnew.symm.trans hsym

/-- A symbol is offered to a scope that may change, or to a new one. -/
theorem KeepsScopes.define (h : KeepsScopes j s₀ s)
    (hscope : scope = j ∨ s₀.table.scope? scope = none) (span : Span) {x : SymbolId} {sym : Symbol}
    (hx : s.table.symbol? x = some sym) :
    KeepsScopes j s₀ (Store.define span scope name x s).2 := fun k sc hk hne => by
  rw [define_eq hx]
  have hk' : k ≠ scope := fun he => by
    rcases hscope with rfl | hnone
    · exact hne he
    · rw [he, hnone] at hk
      cases hk
  exact (Table.scope?_bind _ _ _ _ _).trans ((if_neg hk').trans (h k sc hk hne))

theorem Made.keepsScopes_offerNext {table : Table} {sym : Symbol} (hm : s.Made o name pkg table sym)
    (h : KeepsScopes j s₀ s) (hscope : scope = j ∨ s₀.table.scope? scope = none) :
    KeepsScopes j s₀ (s.offerNext (o.toSymbol name pkg) scope table) :=
  have htable : KeepsScopes j s₀ { s with table } := fun k sc hk hne => by
    have hold := h k sc hk hne
    obtain ⟨sc', hsc', _⟩ := hm.grows.table.scope hold
    rcases hm.scope k sc' hsc' with hsame | ⟨hnone, _⟩
    · cases hold.symm.trans hsame
      exact hsc'
    · cases hnone.symm.trans hold
  htable.define hscope _ hm.symbol?_next

variable (hs₀ : s₀.Sound) (hp : s₀.table.scopeOf p = some j)
include hs₀ hp

/-- A run that offers nothing to other scopes than that of `p` and new ones. -/
theorem Run.keepsScopes (h : Run m s os s') (hos : ∀ o ∈ os, s₀.OffersTo p o) (hs : s.Sound)
    (g : s₀.Grows s) (h₀ : KeepsScopes j s₀ s) : KeepsScopes j s₀ s' := by
  induction h with
  | trans hrun _ ih ih' =>
    refine ih' (fun o ho => hos o (List.mem_append_right _ ho)) (hrun.sound hs)
      (g.trans (hrun.grows hs)) (ih (fun o ho => hos o (List.mem_append_left _ ho)) hs g h₀)
  | @setFields s id fields =>
    simp only [Store.setFields]
    cases s.table.types.setFields? id fields <;> exact h₀
  | var ha hk hty hu =>
    exact (ha.made_var hs hk hty hu).keepsScopes_offerNext h₀
      (ha.scope_eq_or hs₀ hs g hp (hos _ (List.mem_singleton_self _)))
  | container ha hk hty hc =>
    exact (ha.made_container hs hk hty hc).keepsScopes_offerNext h₀
      (ha.scope_eq_or hs₀ hs g hp (hos _ (List.mem_singleton_self _)))
  | callable ha hk hty _ _ _ ih =>
    have hf := ha.follows_callable hs hk hty
    exact ih (fun o ho => hos o (List.mem_cons_of_mem _ ho)) hf.sound (g.trans hf.grows)
      ((ha.made_callable hs hk hty).keepsScopes_offerNext h₀
        (ha.scope_eq_or hs₀ hs g hp (hos _ List.mem_cons_self)))
  | _ => exact h₀

/-- So do the points of the run. -/
theorem Reaches.keepsScopes (h : Reaches m s os u) (hos : ∀ o ∈ os, s₀.OffersTo p o) (hs : s.Sound)
    (g : s₀.Grows s) (h₀ : KeepsScopes j s₀ s) : KeepsScopes j s₀ u := by
  induction h with
  | run h => exact h.keepsScopes hs₀ hp hos hs g h₀
  | inside h ha hk hty _ ih =>
    have hf := ha.follows_callable (h.sound hs) hk hty
    have ho := hos _ (List.mem_append_right _ List.mem_cons_self)
    have g₁ := g.trans (h.grows hs)
    refine ih (fun o ho => hos o (List.mem_append_right _ (List.mem_cons_of_mem _ ho))) hf.sound
      (g₁.trans hf.grows) ?_
    exact (ha.made_callable (h.sound hs) hk hty).keepsScopes_offerNext
      (h.keepsScopes hs₀ hp (fun o ho => hos o (List.mem_append_left _ ho)) hs g h₀)
      (ha.scope_eq_or hs₀ (h.sound hs) g₁ hp ho)

end

/-! ## Packages in scopes -/

/-- The packages that are bound in scopes are among those of `P`. -/
def BindsOnly (s : Store) (P : SymbolId → Prop) : Prop :=
  ∀ c b x, b ∈ s.bindings c → b.2 = some x → s.table.kindOf x = some .package → P x

/-- What is bound is an entry of a scope. -/
theorem exists_entry_of_mem_bindings {c : SymbolId} {b : String × Option SymbolId}
    (hb : b ∈ s.bindings c) :
    ∃ i sc, s.table.scope? i = some sc ∧ ∃ e ∈ sc.entries, b = (s.names.text e.1, some e.2) := by
  obtain ⟨e, he, rfl⟩ := List.mem_map.1 hb
  unfold entries at he
  cases hsc : (s.table.scopeOf c).bind s.table.scope? with
  | none =>
    rw [hsc] at he
    cases he
  | some sc =>
    rw [hsc] at he
    obtain ⟨i, _, hi⟩ := Option.bind_eq_some_iff.1 hsc
    exact ⟨i, sc, hi, e, he, rfl⟩

section

variable {P : SymbolId → Prop}

/-- What was bound before was a package before. -/
theorem BindsOnly.of_mem (h : s.BindsOnly P) (hs : s.Sound) (hr : s.Retains s') {c x : SymbolId}
    {b : String × Option SymbolId} (hb : b ∈ s.bindings c) (hx : b.2 = some x)
    (hk : s'.table.kindOf x = some .package) : P x := by
  obtain ⟨i, sc, hi, e, he, rfl⟩ := exists_entry_of_mem_bindings hb
  cases hx
  obtain ⟨sym, hsym, _⟩ := (hs.linked.scope i sc hi).entry e he
  rw [Table.kindOf, hr.symbol hsym] at hk
  refine h c _ e.2 hb rfl ?_
  rw [Table.kindOf, hsym, hk]

theorem BindsOnly.of_bindings (h : s.BindsOnly P) (hs : s.Sound) (hr : s.Retains s')
    (hb : ∀ c, s'.bindings c = s.bindings c) : s'.BindsOnly P :=
  fun c _ _ hmem => h.of_mem hs hr (hb c ▸ hmem)

/-- What is bound anew is what is offered. -/
theorem BindsOnly.of_effect (h : s.BindsOnly P) (hs : s.Sound) (hr : s.Retains s')
    (he : s.Effect os s')
    (hos : ∀ o ∈ os, ∀ x, o.symbol = some x → s'.table.kindOf x = some .package → P x) :
    s'.BindsOnly P := fun c b x hb hx hk => by
  rw [he.bindings] at hb
  rcases List.mem_append.1 hb with hb | hb
  · exact h.of_mem hs hr hb hx hk
  · obtain ⟨o, ho, rfl⟩ := List.mem_map.1 hb
    exact hos o (mem_of_mem_firsts (List.mem_filter.1 ho).1) x hx hk

/-- Members that are entered bind no packages. -/
theorem Reaches.bindsOnly (hreaches : Reaches m s os u) (hs : s.Sound) (h : s.BindsOnly P) :
    u.BindsOnly P :=
  have hf := hreaches.follows hs
  h.of_effect hs hreaches.retains hf.effect fun o ho x hx hk => by
    obtain ⟨y, hy, hkind⟩ := (hf.has o ho).kindOf
    cases hx.symm.trans hy
    exact absurd (Option.some.inj (hkind.symm.trans hk)) (hreaches.kind_ne_package o ho)

end

/-! ## Types -/

/-- All struct types have their fields. -/
def Complete (s : Store) : Prop := ∀ id ty, s.table.types.get? id = some ty → ty.Complete

/-- Where structs are sealed when they are made, no type is left without its fields. -/
theorem Seals.complete {ds : List Struct} (h : s.Seals ds s') (hs : s.Sound) (hs' : s'.Sound)
    (hstratified : s'.table.Stratified) (hcomplete : s.Complete) : s'.Complete := by
  rintro id _ hid x rfl
  obtain ⟨sym, hsym, hkind, hty⟩ := hs'.exists_struct hstratified hid
  cases hold : s.table.symbol? x with
  | some sym₀ =>
    -- The symbol was there before, and so was its type.
    cases (h.retains.symbol hold).symm.trans hsym
    obtain ⟨ty, hty⟩ := Option.isSome_iff_exists.1 ((hs.linked.symbol x sym hold).ty id hty)
    have hsealed := hcomplete id ty hty
    cases (h.retains.type hty hsealed).symm.trans hid
    exact hsealed x rfl
  | none =>
    obtain ⟨d, hd, hsymbol⟩ := h.made x sym hold hsym hkind
    obtain ⟨fields, ⟨x', sym', id', hx, hsym', _, hty', hid'⟩, _⟩ := h.sealed d hd
    cases hsymbol.symm.trans hx
    cases hsym.symm.trans hsym'
    cases hty.symm.trans hty'
    cases hid.symm.trans hid'

end Store

/-! ## The offers of members -/

namespace Package

variable {c : SymbolId} {p : Package} {o : Offer}

/-- What the members of a package offer goes to the scope of the package or to that of another
    member. -/
theorem container_of_mem_memberOffers (ho : o ∈ p.memberOffers (some c)) :
    o.container = some c ∨ ∃ o' ∈ p.memberOffers (some c), o.container = o'.symbol := by
  rcases mem_offers_iff.1 (List.mem_append_right _ ho) with h | ⟨e, he, hoe⟩ | h
  · exact .inl (container_of_mem_scopeOffers h)
  · have hmem := List.mem_map_of_mem (f := (·.1)) he
    rw [map_containers c] at hmem
    obtain ⟨o', ho', hsymbol⟩ := List.mem_map.1 hmem
    exact .inr ⟨o', (typeOffers_sublist c p).subset ho',
      (container_of_mem_containers he hoe).trans hsymbol.symm⟩
  · obtain ⟨o', ho', hk, hc⟩ := container_of_mem_innerOffers c h
    exact .inr ⟨o', mem_memberOffers ho' (SymbolKind.of_isCallable hk).1, hc⟩

/-- The members of a package are offered to the package and to what they make. -/
theorem offersTo_of_run {m : Mark} {s s' : Store} (h : Store.Run m s (p.memberOffers (some c)) s')
    (hs : s.Sound) : ∀ o ∈ p.memberOffers (some c), s.OffersTo c o := fun o ho => by
  rcases container_of_mem_memberOffers ho with hc | ⟨o', ho', hc⟩
  · exact ⟨c, hc, .inl rfl⟩
  · obtain ⟨x, _, hx, _⟩ := (h.follows hs).has o' ho'
    exact ⟨x, hc.trans hx, .inr ((h.fresh hs).2 o' ho' x hx)⟩

end Package

end Binder
