import Binder.Proofs.Growth

/-!
# Linked tables

How the symbols and scopes of a table hang together: a symbol other than the root has an owner made
before it, all but variables have a scope of their own, a scope and its owner know each other, the
scope of a package has no enclosing scope and any other one is enclosed by the scope of the owner of
its owner, and what is bound in a scope is owned by the owner of the scope, unless it is an imported
package.

Whatever is linked in a table stays linked when the table grows (`LinkedSymbol.mono`), so a move of
a run has to care for the symbol or entry that it adds only (`Linked.mono`).

* `Table.Linked`: a table whose symbols and scopes are linked.
* `Table.Linked.addOwner`, `Table.Linked.bind` and the like: each move of a run keeps a table linked.
-/

namespace Binder

namespace Table

/-- The symbol `sym` at `x` is linked to its owner, its scope and its type. A type is declared in a
    package, and its type names it. -/
structure LinkedSymbol (t : Table) (x : SymbolId) (sym : Symbol) : Prop where
  atRoot : x = Table.root → sym.kind = .package ∧ sym.owner = none
  owner : x ≠ Table.root → ∃ o k, sym.owner = some o ∧ o.index < x.index ∧ t.kindOf o = some k ∧
    (sym.kind ≠ .package → t.pkgOf o = some sym.pkg) ∧ (sym.kind.isType → k = .package)
  withoutScope : sym.kind = .var → sym.scope = none
  withScope : sym.kind ≠ .var → ∃ i p, sym.scope = some i ∧ t.ownerOf i = some x ∧
    t.parentOf i = some p ∧ (sym.kind = .package → p = none) ∧
    (sym.kind ≠ .package → ∃ o j, sym.owner = some o ∧ t.scopeOf o = some j ∧ p = some j ∧
      j.index < i.index)
  ty : ∀ id, sym.ty = some id → (t.types.get? id).isSome
  isType : sym.kind.isType → ∃ id, sym.ty = some id ∧
    t.outlineOf id = some (.ofContainer sym.kind x)

/-- The entry `e` of the scope of `o` binds an imported package, or a symbol that `o` owns to the
    name of the symbol. -/
def LinkedEntry (t : Table) (o : SymbolId) (e : Name × SymbolId) : Prop :=
  ∃ sym, t.symbol? e.2 = some sym ∧ (sym.kind = .package → t.kindOf o = some .package) ∧
    (sym.kind ≠ .package → sym.name = e.1 ∧ sym.owner = some o)

/-- The scope `sc` at `i` is linked to its owner and to what is bound in it. -/
structure LinkedScope (t : Table) (i : ScopeId) (sc : Scope) : Prop where
  owner : t.scopeOf sc.owner = some i
  nodup : (sc.entries.map (·.1)).Nodup
  entry : ∀ e ∈ sc.entries, t.LinkedEntry sc.owner e

structure Linked (t : Table) : Prop where
  root : t.kindOf Table.root = some .package
  symbol : ∀ x sym, t.symbol? x = some sym → t.LinkedSymbol x sym
  scope : ∀ i sc, t.scope? i = some sc → t.LinkedScope i sc

variable {t t' : Table}

/-! ## What growth keeps -/

theorem LinkedSymbol.mono {x : SymbolId} {sym sym' : Symbol} (h : t.LinkedSymbol x sym)
    (g : t.Grows t') (hcore : sym'.core = sym.core)
    (hty : ∀ id, sym'.ty = some id → sym.ty = some id ∨ (t'.types.get? id).isSome)
    (hty' : ∀ id, sym.ty = some id → sym'.ty = some id) : t'.LinkedSymbol x sym' := by
  have hkind := Symbol.eq_of_core Symbol.kind (fun _ => rfl) hcore
  have howner := Symbol.eq_of_core Symbol.owner (fun _ => rfl) hcore
  have hpkg := Symbol.eq_of_core Symbol.pkg (fun _ => rfl) hcore
  have hscope := Symbol.eq_of_core Symbol.scope (fun _ => rfl) hcore
  refine ⟨?_, ?_, ?_, ?_, fun id hid => ?_, ?_⟩
  · rw [hkind, howner]
    exact h.atRoot
  · intro hx
    obtain ⟨o, k, ho, hlt, hk, hp, hpk⟩ := h.owner hx
    rw [hkind, howner, hpkg]
    exact ⟨o, k, ho, hlt, g.kindOf hk, fun h => g.pkgOf (hp h), hpk⟩
  · rw [hkind, hscope]
    exact h.withoutScope
  · rw [hkind, howner, hscope]
    intro hv
    obtain ⟨i, p, hi, hx, hp, hpackage, hother⟩ := h.withScope hv
    refine ⟨i, p, hi, g.ownerOf hx, g.parentOf hp, hpackage, fun h => ?_⟩
    obtain ⟨o, j, ho, hj, hpj, hlt⟩ := hother h
    exact ⟨o, j, ho, g.scopeOf hj, hpj, hlt⟩
  · exact (hty id hid).elim (fun h' => g.get?_isSome (h.ty id h')) fun h' => h'
  · rw [hkind]
    intro hk
    obtain ⟨id, hid, ho⟩ := h.isType hk
    exact ⟨id, hty' id hid, g.type ho⟩

theorem LinkedEntry.mono {o : SymbolId} {e : Name × SymbolId} (h : t.LinkedEntry o e)
    (g : t.Grows t') : t'.LinkedEntry o e := by
  obtain ⟨sym, hsym, hpackage, hother⟩ := h
  obtain ⟨sym', hsym', hcore, _⟩ := g.symbol hsym
  have hkind := Symbol.eq_of_core Symbol.kind (fun _ => rfl) hcore
  refine ⟨sym', hsym', ?_, ?_⟩ <;> rw [hkind]
  · exact fun h => g.kindOf (hpackage h)
  · rw [Symbol.eq_of_core Symbol.name (fun _ => rfl) hcore,
      Symbol.eq_of_core Symbol.owner (fun _ => rfl) hcore]
    exact hother

/-- A table that has grown is linked if what is new in it is. -/
theorem Linked.mono (h : t.Linked) (g : t.Grows t')
    (hsymbol : ∀ x sym', t'.symbol? x = some sym' →
      t.symbol? x = some sym' ∨ t'.LinkedSymbol x sym')
    (hscope : ∀ i sc', t'.scope? i = some sc' →
      t.scope? i = some sc' ∨ t'.LinkedScope i sc') : t'.Linked where
  root := g.kindOf h.root
  symbol x sym' h' := by
    rcases hsymbol x sym' h' with hx | hx
    · exact (h.symbol x sym' hx).mono g rfl (fun _ => .inl) fun _ => id
    · exact hx
  scope i sc' h' := by
    rcases hscope i sc' h' with hi | hi
    · have hs := h.scope i sc' hi
      exact ⟨g.scopeOf hs.owner, hs.nodup, fun e he => (hs.entry e he).mono g⟩
    · exact hi

/-! ## Access in a linked table -/

namespace Linked

variable (h : t.Linked)
include h

/-- The scope of a symbol is owned by it. -/
theorem ownerOf_of_scopeOf {x : SymbolId} {i : ScopeId} (hx : t.scopeOf x = some i) :
    t.ownerOf i = some x := by
  obtain ⟨sym, hsym, hi⟩ := Option.bind_eq_some_iff.1 hx
  have hs := h.symbol x sym hsym
  by_cases hv : sym.kind = .var
  · rw [hs.withoutScope hv] at hi
    cases hi
  · obtain ⟨j, _, hj, hown, _⟩ := hs.withScope hv
    cases hi.symm.trans hj
    exact hown

/-- A scope is the scope of its owner. -/
theorem scopeOf_of_ownerOf {x : SymbolId} {i : ScopeId} (hx : t.ownerOf i = some x) :
    t.scopeOf x = some i := by
  obtain ⟨sc, hsc, rfl⟩ := Option.map_eq_some_iff.1 hx
  exact (h.scope i sc hsc).owner

theorem scope?_of_scopeOf {x : SymbolId} {i : ScopeId} (hx : t.scopeOf x = some i) :
    ∃ sc, t.scope? i = some sc ∧ sc.owner = x :=
  Option.map_eq_some_iff.1 (h.ownerOf_of_scopeOf hx)

/-- A scope is enclosed by an older one. -/
theorem lt_of_parentOf {i j : ScopeId} (hi : t.parentOf i = some (some j)) : j.index < i.index := by
  obtain ⟨sc, hsc, hparent⟩ := Option.map_eq_some_iff.1 hi
  obtain ⟨sym, hsym, hscope⟩ := Option.bind_eq_some_iff.1 (h.scope i sc hsc).owner
  have hs := h.symbol sc.owner sym hsym
  have hv : sym.kind ≠ .var := fun hv => by
    rw [hs.withoutScope hv] at hscope
    cases hscope
  obtain ⟨i', p, hi', _, hp, hpackage, hother⟩ := hs.withScope hv
  cases hscope.symm.trans hi'
  cases hi.symm.trans hp
  by_cases hk : sym.kind = .package
  · cases hpackage hk
  · obtain ⟨_, j', _, _, hj, hlt⟩ := hother hk
    cases hj
    exact hlt

theorem lt_nextScope {x : SymbolId} {i : ScopeId} (hx : t.scopeOf x = some i) :
    i.index < t.nextScope.index := by
  obtain ⟨sc, hsc, _⟩ := h.scope?_of_scopeOf hx
  exact (Array.getElem?_eq_some_iff.1 hsc).1

end Linked

theorem lt_nextSymbol {x : SymbolId} {sym : Symbol} (h : t.symbol? x = some sym) :
    x.index < t.nextSymbol.index :=
  (Array.getElem?_eq_some_iff.1 h).1

theorem symbol?_of_scopeOf {x : SymbolId} {i : ScopeId} (h : t.scopeOf x = some i) :
    ∃ sym, t.symbol? x = some sym :=
  let ⟨sym, hsym, _⟩ := Option.bind_eq_some_iff.1 h
  ⟨sym, hsym⟩

/-! ## The moves of a run -/

/-- What a symbol made next must be to be linked, its scope aside. -/
structure Suits (t : Table) (sym : Symbol) (c : SymbolId) : Prop where
  owner : sym.owner = some c
  pkg : sym.kind ≠ .package → t.pkgOf c = some sym.pkg
  exists_kindOf : ∃ k, t.kindOf c = some k ∧ (sym.kind.isType → k = .package)
  ty : ∀ id, sym.ty = some id → (t.types.get? id).isSome

theorem Suits.owner_of_grows {sym : Symbol} {c : SymbolId} (hs : t.Suits sym c)
    (g : t.Grows t') : ∃ o k, sym.owner = some o ∧ o.index < t.nextSymbol.index ∧
      t'.kindOf o = some k ∧ (sym.kind ≠ .package → t'.pkgOf o = some sym.pkg) ∧
      (sym.kind.isType → k = .package) := by
  obtain ⟨k, hk, hpk⟩ := hs.exists_kindOf
  obtain ⟨csym, hcsym, _⟩ := Option.map_eq_some_iff.1 hk
  exact ⟨c, k, hs.owner, lt_nextSymbol hcsym, g.kindOf hk, fun h => g.pkgOf (hs.pkg h), hpk⟩

theorem Linked.nextSymbol_ne_root (h : t.Linked) : t.nextSymbol ≠ Table.root := by
  intro he
  obtain ⟨sym, hsym, _⟩ := Option.map_eq_some_iff.1 h.root
  exact t.ne_nextSymbol hsym he.symm

namespace Linked

variable (h : t.Linked) {sym : Symbol} {c : SymbolId}
include h

/-- A variable gets a symbol. -/
theorem addSymbol (hs : t.Suits sym c) (hkind : sym.kind = .var) (hscope : sym.scope = none) :
    (t.addSymbol sym).2.Linked := by
  have g := t.grows_addSymbol sym
  refine h.mono g (fun x sym' hx => ?_) fun i sc' hi => .inl hi
  rw [symbol?_addSymbol] at hx
  split at hx
  · next hxn =>
    cases hx
    refine .inr ⟨fun hr => absurd (hxn.symm.trans hr) h.nextSymbol_ne_root, fun _ => ?_,
      fun _ => hscope, fun hv => absurd hkind hv, fun id hid => g.get?_isSome (hs.ty id hid),
      fun hk => by rw [hkind] at hk; cases hk⟩
    rw [hxn]
    exact hs.owner_of_grows g
  · exact .inl hx

/-- A symbol with a scope: what remains to be shown is that it is linked to its type. -/
theorem of_owner {t' : Table} {parent : Option ScopeId}
    (g : t.Grows t') (hs : t.Suits sym c) (hkind : sym.kind ≠ .var)
    (hparent : (sym.kind = .package ∧ parent = none) ∨
      (sym.kind ≠ .package ∧ ∃ j, t.scopeOf c = some j ∧ parent = some j))
    {sym' : Symbol} (hcore : sym'.core = { sym with scope := some t.nextScope }.core)
    (hsymbol : ∀ x, t'.symbol? x = if x = t.nextSymbol then some sym' else t.symbol? x)
    (hscope : ∀ i, t'.scope? i =
      if i = t.nextScope then some { owner := t.nextSymbol, parent } else t.scope? i)
    (hty : ∀ id, sym'.ty = some id → (t'.types.get? id).isSome)
    (hisType : sym.kind.isType → ∃ id, sym'.ty = some id ∧
      t'.outlineOf id = some (.ofContainer sym.kind t.nextSymbol)) : t'.Linked := by
  have hnew : t'.symbol? t.nextSymbol = some sym' := (hsymbol _).trans (if_pos rfl)
  have hsc : t'.scope? t.nextScope = some { owner := t.nextSymbol, parent } :=
    (hscope _).trans (if_pos rfl)
  have hk := Symbol.eq_of_core Symbol.kind (fun _ => rfl) hcore
  have ho := Symbol.eq_of_core Symbol.owner (fun _ => rfl) hcore
  have hp := Symbol.eq_of_core Symbol.pkg (fun _ => rfl) hcore
  have hi := Symbol.eq_of_core Symbol.scope (fun _ => rfl) hcore
  refine h.mono g (fun x y hx => ?_) fun j sc' hj => ?_
  · rw [hsymbol] at hx
    split at hx
    · next hxn =>
      cases hx
      subst hxn
      refine .inr ⟨fun hr => absurd hr h.nextSymbol_ne_root, fun _ => ?_, fun hv => ?_, fun _ => ?_,
        hty, ?_⟩
      · rw [hk, ho, hp]
        exact hs.owner_of_grows g
      · exact absurd (hk.symm.trans hv) hkind
      · rw [hk, ho, hi]
        refine ⟨_, parent, rfl, Option.map_eq_some_iff.2 ⟨_, hsc, rfl⟩,
          Option.map_eq_some_iff.2 ⟨_, hsc, rfl⟩, fun hpk => ?_, fun hpk => ?_⟩
        · exact hparent.elim And.right fun h => absurd hpk h.1
        · obtain ⟨j, hj, rfl⟩ := hparent.elim (fun h => absurd h.1 hpk) And.right
          exact ⟨c, j, hs.owner, g.scopeOf hj, rfl, h.lt_nextScope hj⟩
      · rw [hk]
        exact hisType
    · exact .inl hx
  · rw [hscope] at hj
    split at hj
    · next hjn =>
      cases hj
      subst hjn
      exact .inr ⟨Option.bind_eq_some_iff.2 ⟨sym', hnew, hi⟩, List.nodup_nil,
        fun e he => absurd he List.not_mem_nil⟩
    · exact .inl hj

/-- A package or callable gets a symbol and a scope. -/
theorem addOwner {parent : Option ScopeId} (hs : t.Suits sym c) (hkind : sym.kind ≠ .var)
    (htype : ¬sym.kind.isType) (hparent : (sym.kind = .package ∧ parent = none) ∨
      (sym.kind ≠ .package ∧ ∃ j, t.scopeOf c = some j ∧ parent = some j)) :
    (t.addOwner sym parent).Linked :=
  h.of_owner (t.grows_addOwner sym parent) hs hkind hparent rfl (t.symbol?_addOwner sym parent)
    (t.scope?_addOwner sym parent) hs.ty fun hk => absurd hk htype

/-- A struct, connector or service gets a symbol, a type and a scope. -/
theorem addTypeOwner {j : ScopeId} (hs : t.Suits sym c) (htype : sym.kind.isType)
    (hj : t.scopeOf c = some j) : (t.addTypeOwner sym (some j)).Linked := by
  have hnew : (t.addTypeOwner sym (some j)).types.get? ⟨t.types.size⟩ =
      some (.ofContainer sym.kind t.nextSymbol) :=
    (t.types.get?_alloc _ _).trans (if_pos rfl)
  have hkind := SymbolKind.of_isType htype
  have hcore : { sym with ty := some ⟨t.types.size⟩, scope := some t.nextScope }.core =
      { sym with scope := some t.nextScope }.core := rfl
  refine h.of_owner (t.grows_addTypeOwner sym (some j)) hs hkind.2 (.inr ⟨hkind.1, j, hj, rfl⟩) hcore
    (t.symbol?_addTypeOwner sym (some j)) (t.scope?_addTypeOwner sym (some j)) (fun id hid => ?_)
    fun _ => ⟨_, rfl, ?_⟩
  · cases hid
    exact Option.isSome_iff_exists.2 ⟨_, hnew⟩
  · rw [outlineOf, hnew]
    cases hk : sym.kind <;> rfl

/-- A name is bound. -/
theorem bind {i : ScopeId} {name : Name} {x : SymbolId}
    (hx : ∀ o, t.ownerOf i = some o → t.LinkedEntry o (name, x)) : (t.bind i name x).Linked := by
  have g := grows_bind t i name x
  refine h.mono g (fun _ _ hy => .inl hy) fun j sc' hj => ?_
  rw [scope?_bind] at hj
  split at hj
  · next hji =>
    obtain ⟨sc, hsc, rfl⟩ := Option.map_eq_some_iff.1 hj
    subst hji
    have hl := h.scope j sc hsc
    cases hd : sc.define? name x with
    | none => exact .inl hsc
    | some sc' =>
      -- The name was free, so the entry is added at the end and no name is bound twice.
      unfold Scope.define? at hd
      split at hd
      · cases hd
      · next hfree =>
        cases hd
        have hnew : name ∉ sc.entries.map (·.1) := fun hmem => by
          obtain ⟨e, he, rfl⟩ := List.mem_map.1 hmem
          exact bne_iff_ne.1 (List.lookup_eq_none_iff.1 hfree e he) rfl
        refine .inr ⟨g.scopeOf hl.owner, ?_, fun e he => ?_⟩
        · rw [Option.getD_some, List.map_append, List.nodup_append]
          refine ⟨hl.nodup, List.pairwise_singleton _ _, fun a ha b hb hab => hnew ?_⟩
          rw [hab, List.mem_singleton.1 hb] at ha
          exact ha
        · rcases List.mem_append.1 he with he | he
          · exact (hl.entry e he).mono g
          · rw [List.mem_singleton.1 he]
            exact (hx _ (Option.map_eq_some_iff.2 ⟨sc, hsc, rfl⟩)).mono g
  · exact .inl hj

/-- The types grow. -/
theorem of_types {types : Types} (g : t.Grows { t with types }) :
    Table.Linked { t with types } :=
  h.mono g (fun _ _ hx => .inl hx) fun _ _ hi => .inl hi

/-- A callable is complete. -/
theorem complete {x : SymbolId} (signature : Signature) (links : Links)
    (hx : t.symbol? x = some sym) (hty : sym.ty = none) :
    (t.complete x signature links).Linked := by
  have g : t.Grows (t.complete x signature links) :=
    t.grows_complete signature links (by rw [hx]; exact hty)
  refine h.mono g (fun y sym' hy => ?_) fun _ _ hi => .inl hi
  rw [symbol?_complete] at hy
  split at hy
  · next hyx =>
    rw [hyx, hx] at hy
    cases hy
    rw [hyx]
    refine .inr ((h.symbol x sym hx).mono g rfl (fun id hid => .inr ?_) fun id hid => ?_)
    · cases hid
      exact Option.isSome_iff_exists.2 ⟨_, (t.types.get?_alloc _ _).trans (if_pos rfl)⟩
    · rw [hty] at hid
      cases hid
  · exact .inl hy

end Linked

end Table

end Binder
