import Binder.Proofs.Binding

/-!
# Look-up

A look-up finds symbols of the kinds that are asked for. Types and imported packages are bound in the
scopes of packages only, so seen from anywhere inside a package, a look-up for them is a look-up in
the scope of the package, and nothing in between hides what is bound there.

* `Table.Inside`: a scope is inside a package.
* `Store.member?`: what a text means among the members of a symbol, by the bindings.
* `Store.Sound.symbol?_lookup`: a look-up from the inside of a package, for types or packages.
-/

namespace Binder

/-! ## Kinds -/

namespace KindMask

/-- Only packages have members of the kind. -/
def isGlobal (mask : KindMask) : Bool := mask == type || mask == package

theorem isGlobal_type : type.isGlobal := rfl

theorem isGlobal_package : package.isGlobal := rfl

end KindMask

namespace SymbolKind

/-- The kinds that a look-up for types finds are those that are types. -/
theorem meets_type_eq_isType (k : SymbolKind) : k.mask.meets .type = k.isType := by
  cases k <;> decide

theorem eq_package_or_isType {k : SymbolKind} {mask : KindMask} (hmask : mask.isGlobal)
    (h : k.mask.meets mask) : k = .package ∨ k.isType := by
  rcases Bool.or_eq_true_iff.1 hmask with hm | hm <;> rw [beq_iff_eq.1 hm] at h
  · exact .inr (k.meets_type_eq_isType ▸ h)
  · exact .inl (mask_meets_package.1 h)

end SymbolKind

namespace Table

variable {t t' : Table} {name : Name} {mask : KindMask}

/-! ## Inside a package -/

/-- The scope is that of the package, or is enclosed by a scope inside the package. -/
inductive Inside (t : Table) : ScopeId → SymbolId → Prop
  | here {i : ScopeId} {p : SymbolId} :
    t.scopeOf p = some i → t.kindOf p = some .package → Inside t i p
  | up {i j : ScopeId} {o p : SymbolId} : t.ownerOf i = some o →
    (∀ k, t.kindOf o = some k → k ≠ .package) → t.parentOf i = some (some j) → Inside t j p →
    Inside t i p

/-- A scope whose owner is no package binds neither types nor packages. -/
theorem Linked.kind_of_entry (h : t.Linked) {i : ScopeId} {sc : Scope} (hsc : t.scope? i = some sc)
    (hk : ∀ k, t.kindOf sc.owner = some k → k ≠ .package) {e : Name × SymbolId}
    (he : e ∈ sc.entries) {sym : Symbol} (hx : t.symbol? e.2 = some sym) :
    sym.kind ≠ .package ∧ ¬sym.kind.isType := by
  obtain ⟨sym', hsym, hpackage, hother⟩ := (h.scope i sc hsc).entry e he
  cases hx.symm.trans hsym
  have hnp : sym.kind ≠ .package := fun hp => hk _ (hpackage hp) rfl
  refine ⟨hnp, fun ht => ?_⟩
  -- A type belongs to a package.
  have hroot : e.2 ≠ Table.root := fun hr => hnp (((h.symbol e.2 sym hx).atRoot hr).1)
  obtain ⟨o, k, ho, _, hko, _, hpk⟩ := (h.symbol e.2 sym hx).owner hroot
  cases (hother hnp).2.symm.trans ho
  exact hk k hko (hpk ht)

theorem Linked.lookupMember_eq_absent (h : t.Linked) (hmask : mask.isGlobal) {i : ScopeId}
    {o : SymbolId} (ho : t.ownerOf i = some o) (hk : ∀ k, t.kindOf o = some k → k ≠ .package) :
    t.lookupMember i name mask = .absent := by
  obtain ⟨sc, hsc, rfl⟩ := Option.map_eq_some_iff.1 ho
  rw [lookupMember, hsc]
  cases hget : sc.get? name with
  | none => simp only [hget]
  | some x =>
    obtain ⟨sym, hsym, _⟩ := (h.scope i sc hsc).entry (name, x) (mem_of_lookup hget)
    have hx : t.symbol? x = some sym := hsym
    obtain ⟨hpackage, htype⟩ := h.kind_of_entry hsc hk (mem_of_lookup hget) hx
    simp only [hget, hx]
    exact if_neg fun hmeets =>
      (SymbolKind.eq_package_or_isType hmask hmeets).elim hpackage htype

/-- From the inside of a package, types and packages are looked up in the scope of the package. -/
theorem Inside.lookupIn_chainWithin {i : ScopeId} {p : SymbolId} (hi : t.Inside i p)
    (h : t.Linked) (hmask : mask.isGlobal) {bound : Nat} (hbound : i.index < bound) :
    ∃ j, t.scopeOf p = some j ∧ (t.lookupIn name mask (t.chainWithin bound i)).symbol? =
      (t.lookupMember j name mask).symbol? := by
  induction hi generalizing bound with
  | @here i p hp hk =>
    obtain ⟨n, rfl⟩ : ∃ n, bound = n + 1 := ⟨bound - 1, by omega⟩
    obtain ⟨sym, hsym, hkind⟩ := Option.map_eq_some_iff.1 hk
    -- The scope of a package is not enclosed by another one.
    obtain ⟨i', q, hi', _, hq, hpackage, _⟩ := (h.symbol p sym hsym).withScope (by
      rw [hkind]
      nofun)
    cases hpackage hkind
    have heq : i' = i := by
      rw [scopeOf, hsym, Option.bind_some, hi'] at hp
      exact Option.some.inj hp
    subst heq
    obtain ⟨sc, hsc, hparent⟩ := Option.map_eq_some_iff.1 hq
    refine ⟨i', hp, ?_⟩
    rw [chainWithin, hsc, Option.bind_some, hparent, lookupIn]
    cases t.lookupMember i' name mask <;> rfl
  | @up i j o p ho hk hparent hj ih =>
    obtain ⟨n, rfl⟩ : ∃ n, bound = n + 1 := ⟨bound - 1, by omega⟩
    obtain ⟨sc, hsc, hscp⟩ := Option.map_eq_some_iff.1 hparent
    have hlt : j.index < i.index := h.lt_of_parentOf hparent
    obtain ⟨l, hl, heq⟩ := @ih n (by omega)
    refine ⟨l, hl, ?_⟩
    rw [chainWithin, hsc, Option.bind_some, hscp, lookupIn, h.lookupMember_eq_absent hmask ho hk]
    exact heq

theorem Inside.lt_nextScope {i : ScopeId} {p : SymbolId} (hi : t.Inside i p) (h : t.Linked) :
    i.index < t.nextScope.index := by
  cases hi with
  | here hp => exact h.lt_nextScope hp
  | up _ _ hparent =>
    obtain ⟨sc, hsc, _⟩ := Option.map_eq_some_iff.1 hparent
    exact (Array.getElem?_eq_some_iff.1 hsc).1

theorem Inside.symbol?_lookup {i : ScopeId} {p : SymbolId} (hi : t.Inside i p) (h : t.Linked)
    (hmask : mask.isGlobal) : ∃ j, t.scopeOf p = some j ∧
      (t.lookup i name mask).symbol? = (t.lookupMember j name mask).symbol? :=
  hi.lookupIn_chainWithin h hmask (Nat.lt_succ_of_lt (hi.lt_nextScope h))

/-- The scope of a symbol is inside the package that its owner is inside of. -/
theorem Linked.inside_of_owner (h : t.Linked) {x c p : SymbolId} {sym : Symbol} {i j : ScopeId}
    (hx : t.symbol? x = some sym) (hk : sym.kind ≠ .package) (ho : sym.owner = some c)
    (hi : sym.scope = some i) (hj : t.scopeOf c = some j) (hp : t.Inside j p) : t.Inside i p := by
  have hs := h.symbol x sym hx
  have hv : sym.kind ≠ .var := fun hv => by
    rw [hs.withoutScope hv] at hi
    cases hi
  obtain ⟨i', q, hi', howner, hparent, _, hother⟩ := hs.withScope hv
  cases hi.symm.trans hi'
  obtain ⟨c', j', ho', hj', rfl, _⟩ := hother hk
  cases ho.symm.trans ho'
  cases hj.symm.trans hj'
  refine .up howner (fun k hk' => ?_) hparent hp
  rw [kindOf, hx] at hk'
  cases hk'
  exact hk

/-- Every scope is inside a package. -/
theorem Linked.exists_inside (h : t.Linked) {i : ScopeId} {sc : Scope} (hi : t.scope? i = some sc) :
    ∃ p, t.Inside i p := by
  -- The enclosing scope is older.
  induction hn : i.index using Nat.strongRecOn generalizing i sc with
  | ind n ih =>
    have howner : t.ownerOf i = some sc.owner := by rw [ownerOf, hi, Option.map_some]
    obtain ⟨sym, hsym⟩ := symbol?_of_scopeOf (h.scopeOf_of_ownerOf howner)
    have hkind : t.kindOf sc.owner = some sym.kind := Option.map_eq_some_iff.2 ⟨sym, hsym, rfl⟩
    by_cases hp : sym.kind = .package
    · exact ⟨sc.owner, .here (h.scopeOf_of_ownerOf howner) (hkind.trans (congrArg some hp))⟩
    · have hs := h.symbol sc.owner sym hsym
      have hscope := h.scopeOf_of_ownerOf howner
      rw [scopeOf, hsym, Option.bind_some] at hscope
      have hv : sym.kind ≠ .var := fun hv => by
        cases hscope.symm.trans (hs.withoutScope hv)
      obtain ⟨i', q, hi', _, hparent, _, hother⟩ := hs.withScope hv
      cases hscope.symm.trans hi'
      obtain ⟨o, j, _, hj, rfl, hlt⟩ := hother hp
      obtain ⟨sc', hsc', _⟩ := h.scope?_of_scopeOf hj
      obtain ⟨p, hinside⟩ := ih j.index (hn ▸ hlt) hsc' rfl
      refine ⟨p, .up howner (fun k hk => ?_) hparent hinside⟩
      rw [← Option.some.inj (hkind.symm.trans hk)]
      exact hp

theorem Inside.mono {i : ScopeId} {p : SymbolId} (hi : t.Inside i p) (h : t.Linked)
    (g : t.Grows t') : t'.Inside i p := by
  induction hi with
  | here hp hk => exact .here (g.scopeOf hp) (g.kindOf hk)
  | @up i j o p ho hk hparent _ ih =>
    refine .up (g.ownerOf ho) (fun k hk' => ?_) (g.parentOf hparent) ih
    obtain ⟨sc, hsc, rfl⟩ := Option.map_eq_some_iff.1 ho
    obtain ⟨sym, hsym⟩ := symbol?_of_scopeOf (h.scope i sc hsc).owner
    have hkind : t.kindOf sc.owner = some sym.kind := Option.map_eq_some_iff.2 ⟨sym, hsym, rfl⟩
    rw [← Option.some.inj ((g.kindOf hkind).symm.trans hk')]
    exact hk _ hkind

end Table

/-! ## Look-up by text -/

namespace Store

variable {s s' : Store} {c : SymbolId} {text : String} {mask : KindMask}

/-- The symbol bound to `text` in the scope of `c`. -/
def bound? (s : Store) (c : SymbolId) (text : String) : Option SymbolId :=
  ((s.bindings c).lookup text).join

/-- The symbol bound to `text` in the scope of `c`, if it is of a kind wanted. -/
def member? (s : Store) (c : SymbolId) (text : String) (mask : KindMask) : Option SymbolId :=
  (s.bound? c text).filter fun x => (s.table.symbol? x).any (·.kind.mask.meets mask)

theorem symbol?_of_member? {x : SymbolId} (h : s.member? c text mask = some x) :
    ∃ sym, s.table.symbol? x = some sym ∧ sym.kind.mask.meets mask := by
  rw [member?, Option.filter_eq_some_iff, Option.any_eq_true] at h
  exact h.2

/-- What is bound is bound to a symbol. -/
theorem isSome_bound?_iff : (s.bound? c text).isSome ↔ s.binds c text = true := by
  rw [binds, List.contains_iff_mem, bound?]
  constructor
  · intro h
    obtain ⟨x, hx⟩ := Option.isSome_iff_exists.1 h
    exact List.mem_map.2 ⟨_, mem_of_lookup (Option.join_eq_some_iff.1 hx), rfl⟩
  · intro h
    obtain ⟨e, he, rfl⟩ := List.mem_map.1 h
    have hsome : ((s.bindings c).lookup e.1).isSome :=
      List.lookup_isSome_iff.2 ⟨e, he, beq_self_eq_true _⟩
    obtain ⟨found, hfound⟩ := Option.isSome_iff_exists.1 hsome
    obtain ⟨e', _, heq⟩ := List.mem_map.1 (mem_of_lookup hfound)
    have hsymbol : some e'.2 = found := congrArg Prod.snd heq
    rw [hfound, Option.join_some, ← hsymbol]
    rfl

theorem mem_bindings_of_bound? {x : SymbolId} (h : s.bound? c text = some x) :
    (text, some x) ∈ s.bindings c :=
  mem_of_lookup (Option.join_eq_some_iff.1 h)

/-- What is bound in the scope of a symbol is linked to the symbol. -/
theorem Sound.linkedEntry_of_bound? (hs : s.Sound) {x : SymbolId} (h : s.bound? c text = some x) :
    ∃ name, s.table.LinkedEntry c (name, x) := by
  obtain ⟨e, he, heq⟩ := List.mem_map.1 (mem_bindings_of_bound? h)
  cases Option.some.inj (congrArg Prod.snd heq)
  unfold entries at he
  cases hsc : (s.table.scopeOf c).bind s.table.scope? with
  | none =>
    rw [hsc] at he
    cases he
  | some sc =>
    obtain ⟨i, hi, hsc'⟩ := Option.bind_eq_some_iff.1 hsc
    rw [hsc] at he
    obtain ⟨sc', hsc'', howner⟩ := hs.linked.scope?_of_scopeOf hi
    cases hsc'.symm.trans hsc''
    exact ⟨e.1, howner ▸ (hs.linked.scope i sc hsc').entry e he⟩

/-- What is bound exists. -/
theorem Sound.symbol?_of_bound? (hs : s.Sound) {x : SymbolId} (h : s.bound? c text = some x) :
    ∃ sym, s.table.symbol? x = some sym :=
  let ⟨_, sym, hsym, _⟩ := hs.linkedEntry_of_bound? h
  ⟨sym, hsym⟩

/-- A package that is found has a scope. -/
theorem Sound.exists_scopeOf_package (hs : s.Sound) {x : SymbolId}
    (h : s.member? c text .package = some x) : ∃ i, s.table.scopeOf x = some i := by
  obtain ⟨sym, hsym, hmeets⟩ := symbol?_of_member? h
  obtain ⟨i, _, hi, _⟩ := (hs.linked.symbol x sym hsym).withScope (by
    rw [SymbolKind.mask_meets_package.1 hmeets]
    nofun)
  exact ⟨i, by rw [Table.scopeOf, hsym, Option.bind_some, hi]⟩

/-- A name is looked up by its text. -/
theorem Sound.bound?_eq_get? (hs : s.Sound) {i : ScopeId} {sc : Scope}
    (h : s.table.scopeOf c = some i) (hi : s.table.scope? i = some sc) {name : Name}
    (hname : s.names.text? name = some text) : s.bound? c text = sc.get? name := by
  have hkeys : ∀ e ∈ s.entries c, (text == s.names.text e.1) = (name == e.1) := fun e he => by
    have htext := hs.text?_of_mem_entries he
    rw [Bool.eq_iff_iff, beq_iff_eq, beq_iff_eq]
    refine ⟨fun ht => s.names.text?_inj hname (ht ▸ htext), fun hn => ?_⟩
    exact Option.some.inj (hname.symm.trans (hn ▸ htext))
  rw [bound?, bindings, Scope.get?, ← entries_of_scopeOf h hi]
  generalize s.entries c = entries at hkeys
  induction entries with
  | nil => rfl
  | cons e rest ih =>
    have hrest := ih fun e he => hkeys e (List.mem_cons_of_mem _ he)
    rw [List.map_cons, List.lookup_cons, hkeys e List.mem_cons_self, List.lookup_cons]
    cases name == e.1
    · exact hrest
    · rfl

theorem Sound.symbol?_lookupMember (hs : s.Sound) {i : ScopeId} (h : s.table.scopeOf c = some i)
    {name : Name} (hname : s.names.text? name = some text) :
    (s.table.lookupMember i name mask).symbol? = s.member? c text mask := by
  obtain ⟨sc, hsc, _⟩ := hs.linked.scope?_of_scopeOf h
  rw [member?, hs.bound?_eq_get? h hsc hname, Table.lookupMember, hsc]
  cases hget : sc.get? name with
  | none =>
    simp only [hget]
    rfl
  | some x =>
    simp only [hget, Option.filter_some]
    cases hx : s.table.symbol? x with
    | none =>
      simp only
      rfl
    | some sym =>
      simp only [Option.any_some]
      split <;> rfl

/-- From the inside of a package, a type or package is looked up by its text in the scope of the
    package. -/
theorem Sound.symbol?_lookup (hs : s.Sound) {i : ScopeId} (hi : s.table.Inside i c)
    (hmask : mask.isGlobal) {n : Name} (hn : s.names.text? n = some text) :
    (s.table.lookup i n mask).symbol? = s.member? c text mask := by
  obtain ⟨j, hj, heq⟩ := hi.symbol?_lookup hs.linked hmask
  rw [heq, hs.symbol?_lookupMember hj hn]

end Store

end Binder
