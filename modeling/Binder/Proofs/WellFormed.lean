import Binder.Proofs.Entry.Load

/-!
# The scope tree

The symbols and scopes of every reachable session make a tree, whatever has been requested and
however it went: each scope is the scope of its owner, owners are older than what they own, and the
scopes around a scope end with that of a package. What is bound in a scope is owned by the owner of
the scope and bound nowhere else, unless it is an imported package.

* `Table.WellFormed`: what holds of the tables of reachable sessions.
* `Table.Nesting`: how scopes enclose one another, and what is bound in them.
* `Table.Nesting.exists_walk`: the scopes around a scope.
* `Session.Reachable.wellFormed`: every reachable session has a well-formed table.
-/

namespace Binder

namespace Table

/-- The scopes of the list enclose one another, and the last one is that of a package. -/
structure EndsAtPackage (t : Table) (chain : List ScopeId) : Prop where
  parent : chain.IsChain fun i j => t.parentOf i = some (some j)
  last : ∃ i p, chain.getLast? = some i ∧ t.parentOf i = some none ∧ t.ownerOf i = some p ∧
    t.kindOf p = some .package

/-- How scopes enclose one another, and what is bound in them. -/
structure Nesting (t : Table) : Prop where
  /-- A scope that is enclosed by none is that of a package. -/
  outermost : ∀ i sc, t.scope? i = some sc → sc.parent = none →
    t.kindOf sc.owner = some .package
  /-- Any other scope is enclosed by an older one. -/
  enclosed : ∀ i sc j, t.scope? i = some sc → sc.parent = some j →
    j.index < i.index ∧ (t.scope? j).isSome
  /-- What is bound exists, and in a scope that is enclosed by one it is no package and no type. -/
  entry : ∀ i sc e, t.scope? i = some sc → e ∈ sc.entries → ∃ k, t.kindOf e.2 = some k ∧
    (sc.parent.isSome → k ≠ .package ∧ ¬k.isType)

structure WellFormed (t : Table) : Prop where
  /-- A scope is the scope of a symbol exactly if the symbol is its owner. -/
  scopeOf_iff : ∀ x i, t.scopeOf x = some i ↔ t.ownerOf i = some x
  /-- The owner of a scope is a symbol, and all symbols but variables have scopes. -/
  symbol?_of_ownerOf : ∀ x i, t.ownerOf i = some x → (t.symbol? x).isSome
  isSome_scopeOf_iff : ∀ x k, t.kindOf x = some k → ((t.scopeOf x).isSome ↔ k ≠ .var)
  /-- A symbol is owned by an older one, and only packages need not be in its package. -/
  owner : ∀ x sym, t.symbol? x = some sym → x ≠ root → ∃ o osym, sym.owner = some o ∧
    o.index < x.index ∧ t.symbol? o = some osym ∧ (sym.kind ≠ .package → sym.pkg = osym.pkg)
  /-- The scope of a package is enclosed by none. -/
  parentOf_package : ∀ x i, t.kindOf x = some .package → t.scopeOf x = some i →
    t.parentOf i = some none
  /-- Any other scope is enclosed by the scope of the owner of its owner, which is older. -/
  parentOf : ∀ x sym i, t.symbol? x = some sym → sym.kind ≠ .package → sym.scope = some i →
    ∃ o j, sym.owner = some o ∧ t.scopeOf o = some j ∧ t.parentOf i = some (some j) ∧
      j.index < i.index
  chain : ∀ i x, t.ownerOf i = some x → t.EndsAtPackage (t.chain i)
  /-- A name is bound once in a scope. -/
  nodup : ∀ i sc, t.scope? i = some sc → (sc.entries.map (·.1)).Nodup
  /-- What is bound exists, and only the scopes of packages bind packages. -/
  entry : ∀ i sc e, t.scope? i = some sc → e ∈ sc.entries → ∃ sym, t.symbol? e.2 = some sym ∧
    (sym.kind = .package → t.kindOf sc.owner = some .package)
  /-- What is bound and no package is bound to its own name in the scope of its owner only. -/
  entry_unique : ∀ i sc e sym, t.scope? i = some sc → e ∈ sc.entries → t.symbol? e.2 = some sym →
    sym.kind ≠ .package → sym.name = e.1 ∧ sym.owner = some sc.owner ∧
      ∀ i' sc' e', t.scope? i' = some sc' → e' ∈ sc'.entries → e'.2 = e.2 → i' = i ∧ e' = e
  typed : ∀ x sym, t.symbol? x = some sym → ∃ ty, sym.ty = some ty ∧ (t.types.get? ty).isSome

variable {t : Table}

/-- The scope of a package is enclosed by none, and any other scope is enclosed by an older one. -/
theorem Linked.parent_spec (h : t.Linked) {i : ScopeId} {sc : Scope} (hi : t.scope? i = some sc) :
    ∃ k, t.kindOf sc.owner = some k ∧ (k = .package → sc.parent = none) ∧
      (k ≠ .package → ∃ j, sc.parent = some j ∧ j.index < i.index ∧ (t.scope? j).isSome) := by
  have hscope := (h.scope i sc hi).owner
  obtain ⟨sym, hsym⟩ := symbol?_of_scopeOf hscope
  rw [scopeOf, hsym, Option.bind_some] at hscope
  have hs := h.symbol sc.owner sym hsym
  have hv : sym.kind ≠ .var := fun hv => by
    cases hscope.symm.trans (hs.withoutScope hv)
  obtain ⟨i', parent, hi', _, hparent, hpackage, hother⟩ := hs.withScope hv
  cases hscope.symm.trans hi'
  obtain rfl : sc.parent = parent := by
    rw [parentOf, hi] at hparent
    exact Option.some.inj hparent
  refine ⟨sym.kind, Option.map_eq_some_iff.2 ⟨sym, hsym, rfl⟩, hpackage, fun hk => ?_⟩
  obtain ⟨o, j, _, hj, hparent', hlt⟩ := hother hk
  obtain ⟨sc', hsc', _⟩ := h.scope?_of_scopeOf hj
  exact ⟨j, hparent', hlt, Option.isSome_iff_exists.2 ⟨sc', hsc'⟩⟩

theorem Linked.nesting (h : t.Linked) : t.Nesting where
  outermost i sc hi hparent := by
    obtain ⟨k, hk, _, hother⟩ := h.parent_spec hi
    by_cases hp : k = .package
    · exact hp ▸ hk
    · obtain ⟨j, hj, _⟩ := hother hp
      cases hj.symm.trans hparent
  enclosed i sc j hi hj := by
    obtain ⟨k, _, hpackage, hother⟩ := h.parent_spec hi
    have hp : k ≠ .package := fun hp => by
      cases hj.symm.trans (hpackage hp)
    obtain ⟨j', hj', hlt, hsome⟩ := hother hp
    cases hj.symm.trans hj'
    exact ⟨hlt, hsome⟩
  entry i sc e hi he := by
    obtain ⟨sym, hsym, _⟩ := (h.scope i sc hi).entry e he
    obtain ⟨k, hk, hpackage, _⟩ := h.parent_spec hi
    refine ⟨sym.kind, Option.map_eq_some_iff.2 ⟨sym, hsym, rfl⟩, fun hparent => ?_⟩
    refine h.kind_of_entry hi (fun k' hk' hp => ?_) he hsym
    cases hk.symm.trans hk'
    rw [hpackage hp] at hparent
    cases hparent

/-- The walk from a scope outwards. -/
theorem Nesting.exists_walk (h : t.Nesting) {i : ScopeId} {sc : Scope}
    (hi : t.scope? i = some sc) : ∃ between j,
      (∀ bound, i.index < bound → t.chainWithin bound i = between ++ [j]) ∧
      t.EndsAtPackage (between ++ [j]) ∧ (t.scope? j).isSome ∧
      ∀ k ∈ between, ∃ sc, t.scope? k = some sc ∧ sc.parent.isSome := by
  -- The enclosing scope is older.
  induction hn : i.index using Nat.strongRecOn generalizing i sc with
  | ind n ih =>
    have hparent : t.parentOf i = some sc.parent := by rw [parentOf, hi, Option.map_some]
    cases hsc : sc.parent with
    | none =>
      rw [hsc] at hparent
      refine ⟨[], i, fun bound hlt => ?_, ⟨.singleton _, i, sc.owner, rfl, hparent, ?_,
        h.outermost i sc hi hsc⟩, hi ▸ rfl, fun k hk => absurd hk List.not_mem_nil⟩
      · obtain ⟨b, rfl⟩ : ∃ b, bound = b + 1 := ⟨bound - 1, by omega⟩
        rw [chainWithin, hi, Option.bind_some, hsc]
        rfl
      · rw [ownerOf, hi, Option.map_some]
    | some p =>
      rw [hsc] at hparent
      obtain ⟨hlt, hsome⟩ := h.enclosed i sc p hi hsc
      obtain ⟨psc, hp⟩ := Option.isSome_iff_exists.1 hsome
      obtain ⟨between, j, hwalk, ⟨hchain, l, x, hlast, hend⟩, hj, hbetween⟩ :=
        ih p.index (hn ▸ hlt) hp rfl
      -- The walk from the enclosing scope begins with that scope.
      obtain ⟨rest, hrest⟩ : ∃ rest, between ++ [j] = p :: rest :=
        ⟨_, (hwalk (p.index + 1) (Nat.lt_succ_self _)).symm⟩
      refine ⟨i :: between, j, fun bound hbound => ?_, ⟨?_, l, x, ?_, hend⟩, hj, ?_⟩
      · obtain ⟨b, rfl⟩ : ∃ b, bound = b + 1 := ⟨bound - 1, by omega⟩
        rw [chainWithin, hi, Option.bind_some, hsc]
        exact congrArg (i :: ·) (hwalk b (by omega))
      · rw [hrest] at hchain
        rw [List.cons_append, hrest]
        exact List.isChain_cons_cons.2 ⟨hparent, hchain⟩
      · rw [hrest] at hlast
        rw [List.cons_append, hrest]
        exact List.getLast?_cons_cons.trans hlast
      · intro k hk
        rcases List.mem_cons.1 hk with rfl | hk
        · exact ⟨sc, hi, by rw [hsc]; rfl⟩
        · exact hbetween k hk

/-- Linked tables are well formed if every symbol has a type. -/
theorem Linked.wellFormed_of_typed (h : t.Linked)
    (htyped : ∀ x sym, t.symbol? x = some sym → sym.ty.isSome) : t.WellFormed where
  scopeOf_iff x i := ⟨h.ownerOf_of_scopeOf, h.scopeOf_of_ownerOf⟩
  symbol?_of_ownerOf x i hx := by
    obtain ⟨sym, hsym⟩ := symbol?_of_scopeOf (h.scopeOf_of_ownerOf hx)
    rw [hsym]
    rfl
  isSome_scopeOf_iff x k hk := by
    obtain ⟨sym, hsym, rfl⟩ := Option.map_eq_some_iff.1 hk
    rw [scopeOf, hsym, Option.bind_some]
    refine ⟨fun hs hv => ?_, fun hv => ?_⟩
    · rw [(h.symbol x sym hsym).withoutScope hv] at hs
      cases hs
    · obtain ⟨i, _, hi, _⟩ := (h.symbol x sym hsym).withScope hv
      rw [hi]
      rfl
  owner x sym hsym hroot := by
    obtain ⟨o, k, ho, hlt, hk, hpkg, _⟩ := (h.symbol x sym hsym).owner hroot
    obtain ⟨osym, hosym, _⟩ := Option.map_eq_some_iff.1 hk
    refine ⟨o, osym, ho, hlt, hosym, fun hp => ?_⟩
    have hsame := hpkg hp
    rw [pkgOf, hosym] at hsame
    exact (Option.some.inj hsame).symm
  parentOf_package x i hk hi := by
    obtain ⟨sym, hsym, hkind⟩ := Option.map_eq_some_iff.1 hk
    obtain ⟨i', p, hi', _, hparent, hpackage, _⟩ := (h.symbol x sym hsym).withScope (by
      rw [hkind]
      decide)
    rw [scopeOf, hsym, Option.bind_some] at hi
    cases hi.symm.trans hi'
    rw [hparent, hpackage hkind]
  parentOf x sym i hsym hk hi := by
    have hl := h.symbol x sym hsym
    have hv : sym.kind ≠ .var := fun hv => by
      rw [hl.withoutScope hv] at hi
      cases hi
    obtain ⟨i', p, hi', _, hparent, _, hother⟩ := hl.withScope hv
    cases hi.symm.trans hi'
    obtain ⟨o, j, ho, hj, rfl, hlt⟩ := hother hk
    exact ⟨o, j, ho, hj, hparent, hlt⟩
  chain i x hx := by
    obtain ⟨sc, hsc, _⟩ := h.scope?_of_scopeOf (h.scopeOf_of_ownerOf hx)
    obtain ⟨_, _, hwalk, hends, _⟩ := h.nesting.exists_walk hsc
    have hlt : i.index < t.scopes.size := h.lt_nextScope (h.scopeOf_of_ownerOf hx)
    rwa [chain, hwalk _ (Nat.lt_succ_of_lt hlt)]
  nodup i sc hi := (h.scope i sc hi).nodup
  entry i sc e hi he := by
    obtain ⟨sym, hsym, hpackage, _⟩ := (h.scope i sc hi).entry e he
    exact ⟨sym, hsym, hpackage⟩
  entry_unique i sc e sym hi he hsym hk := by
    obtain ⟨sym', hsym', _, hother⟩ := (h.scope i sc hi).entry e he
    cases hsym.symm.trans hsym'
    obtain ⟨hname, howner⟩ := hother hk
    refine ⟨hname, howner, fun i' sc' e' hi' he' heq => ?_⟩
    obtain ⟨sym'', hsym'', _, hother'⟩ := (h.scope i' sc' hi').entry e' he'
    rw [heq] at hsym''
    cases hsym.symm.trans hsym''
    obtain ⟨hname', howner'⟩ := hother' hk
    -- The owner has one scope, and the symbol one name.
    have hscope := (h.scope i sc hi).owner
    rw [Option.some.inj (howner.symm.trans howner'), (h.scope i' sc' hi').owner] at hscope
    exact ⟨Option.some.inj hscope, Prod.ext (hname'.symm.trans hname) heq⟩
  typed x sym hsym := by
    obtain ⟨ty, hty⟩ := Option.isSome_iff_exists.1 (htyped x sym hsym)
    exact ⟨ty, hty, (h.symbol x sym hsym).ty ty hty⟩

end Table

namespace Session

/-- Whatever is requested of a new session, its table stays well formed. -/
theorem Reachable.wellFormed {s : Session} (h : s.Reachable) : s.store.table.WellFormed :=
  h.sound.store.linked.wellFormed_of_typed h.sound.typed

/-- A struct is declared twice, and then its package is entered again with an import that fails. -/
theorem wellFormed_after_failure :
    let d : Struct := { span := .origin, name := ⟨"T", .origin⟩ }
    let i : Import := { span := .origin, path := [⟨"a", .origin⟩] }
    let s := (start {} {} {}).after
      [.define { structs := [d, d] }, .define { structs := [d], imports := [i] }]
    s.Reachable ∧ s.store.table.WellFormed :=
  have h := (Reachable.start {} {} {}).after _
  ⟨h, h.wellFormed⟩

end Session

end Binder
