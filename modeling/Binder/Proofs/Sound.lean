import Binder.Proofs.Action
import Binder.Proofs.Linked

/-!
# Sound stores

The invariant of a store: its table is linked, the builtin types and the array types are where they
are looked for, and every name in it has a text. It is kept when a symbol is made and when it is
offered.

* `Store.define_eq`: what offering a symbol to a scope does.
* `Store.Sound`: the invariant.
* `Store.Made`: the symbol of an offer is made, but not offered yet.
-/

namespace Binder

/-! ## Types -/

/-- The builtin types and the array types are where they are looked for. -/
structure Types.Sound (t : Types) : Prop where
  builtin : ∀ {i : Nat} {ty : Ty}, Ty.builtins[i]? = some ty → t.get? ⟨i⟩ = some ty
  array : ∀ e ∈ t.arrays, t.get? e.2 = some (.array e.1)

namespace Types.Sound

variable {t : Types} (h : t.Sound)
include h

theorem alloc (ty : Ty) : (t.alloc ty).2.Sound where
  builtin hi := by
    have := h.builtin hi
    rw [t.get?_alloc_of_isSome _ (by rw [this]; rfl), this]
  array e he := by
    have := h.array e he
    rw [t.get?_alloc_of_isSome _ (by rw [this]; rfl), this]

/-- The array type of `element` is the one that is kept for it. -/
theorem get?_arrayOf (element : TypeId) :
    (t.arrayOf element).2.get? (t.arrayOf element).1 = some (.array element) := by
  unfold Types.arrayOf
  split
  · next id hid => exact h.array (element, id) (mem_of_lookup hid)
  · exact (t.get?_alloc _ _).trans (if_pos rfl)

theorem arrayOf (element : TypeId) : (t.arrayOf element).2.Sound where
  builtin hi := by
    have := h.builtin hi
    rw [t.get?_arrayOf_of_isSome _ (by rw [this]; rfl), this]
  array e he := by
    by_cases hold : e ∈ t.arrays
    · have := h.array e hold
      rw [t.get?_arrayOf_of_isSome _ (by rw [this]; rfl), this]
    · have hnew : e = (element, (t.arrayOf element).1) := by
        unfold Types.arrayOf at he ⊢
        split at he
        · exact absurd he hold
        · exact (List.mem_append.1 he).elim (fun h => absurd h hold) List.mem_singleton.1
      rw [hnew]
      exact h.get?_arrayOf element

theorem setFields? {id : TypeId} {fields : List Field} {t' : Types}
    (hset : t.setFields? id fields = some t') : t'.Sound := by
  obtain ⟨x, hx, harrays, hget⟩ := t.get?_setFields? hset
  refine ⟨fun {i ty} hi => ?_, fun e he => ?_⟩
  · have hty := h.builtin hi
    rw [hget, if_neg, hty]
    rintro rfl
    -- No builtin type is a struct.
    rw [hx] at hty
    have hmem := List.mem_of_getElem? (hi.trans hty.symm)
    simp [Ty.builtins] at hmem
  · have harray := h.array e (harrays ▸ he)
    rw [hget, if_neg, harray]
    rintro rfl
    rw [hx] at harray
    cases harray

end Types.Sound

/-! ## Offering a symbol -/

/-- Binding a name that is bound changes nothing. -/
theorem Table.bind_of_bound {t : Table} {scope : ScopeId} {name : Name} {x y : SymbolId}
    (h : (t.scope? scope).bind (·.get? name) = some y) : t.bind scope name x = t := by
  obtain ⟨sc, hsc, hget⟩ := Option.bind_eq_some_iff.1 h
  have hd : sc.define? name x = none := sc.define?_eq_none_iff.2 (by rw [hget]; rfl)
  have hm : (t.scopes.modify scope.index fun s => (s.define? name x).getD s) = t.scopes := by
    refine Array.ext_getElem? fun i => ?_
    rw [Array.getElem?_modify]
    split
    · next hi =>
      subst hi
      rw [show t.scopes[scope.index]? = some sc from hsc, Option.map_some, hd]
      rfl
    · rfl
  rw [bind, hm]

/-- A name keeps its text when texts are added. -/
theorem Names.text?_mono {t t' : Names} (g : t.texts <+: t'.texts) {n : Name} {u : String}
    (h : t.text? n = some u) : t'.text? n = some u := by
  obtain ⟨r, hr⟩ := g
  rw [text?, ← hr, List.getElem?_append_left (List.getElem?_eq_some_iff.1 h).1]
  exact h

namespace Store

/-- The report of a name that is bound already. -/
def clash (s : Store) (span : Span) (scope : ScopeId) (name : Name) (kind : SymbolKind) : Log :=
  match s.table.bound? scope name with
  | none => []
  | some previous =>
    [(Problem.redeclared kind.word (s.names.text name) previous.span).diagnostic span]

variable {s s' s'' : Store}

/-- A symbol is bound to a name unless the name is bound, which is reported. -/
theorem define_eq {span : Span} {scope : ScopeId} {name : Name} {x : SymbolId} {sym : Symbol}
    (hx : s.table.symbol? x = some sym) :
    (define span scope name x s).2 =
      { s with
        table := s.table.bind scope name x
        log := s.log ++ s.clash span scope name sym.kind } := by
  simp only [define, run_bind, run_get, hx]
  unfold clash
  cases hb : s.table.bound? scope name with
  | none =>
    have hc : claim span scope name sym.kind s = (true, s) := by
      simp only [claim, run_bind, run_get, hb, run_pure]
    simp only [hc, if_true, run_bind, run_modify, run_pure, List.append_nil]
  | some previous =>
    have hc : claim span scope name sym.kind s = (false, { s with log := s.log ++
        [(Problem.redeclared sym.kind.word (s.names.text name) previous.span).diagnostic span] }) :=
      by simp only [claim, run_bind, run_get, hb, run_pure, report]
    obtain ⟨y, hy, _⟩ := Option.bind_eq_some_iff.1 hb
    simp only [hc, Table.bind_of_bound hy, Bool.false_eq_true, if_false, run_pure]

/-- Whether the symbol exists or not, only scopes and the log are concerned. -/
theorem define_scopes (span : Span) (scope : ScopeId) (name : Name) (x : SymbolId) (s : Store) :
    ∃ scopes log, (define span scope name x s).2 =
      { s with table := { s.table with scopes }, log := s.log ++ log } := by
  cases hx : s.table.symbol? x with
  | some sym => exact ⟨_, _, define_eq hx⟩
  | none =>
    refine ⟨s.table.scopes, [], ?_⟩
    simp only [define, run_bind, run_get, hx, List.append_nil]
    rfl

/-- Binding a name makes none. -/
theorem names_define (span : Span) (scope : ScopeId) (name : Name) (x : SymbolId) (s : Store) :
    (define span scope name x s).2.names = s.names := by
  obtain ⟨scopes, log, heq⟩ := define_scopes span scope name x s
  rw [heq]

theorem offerNext_eq {sym sym' : Symbol} {scope : ScopeId} {table : Table}
    (h : table.symbol? s.table.nextSymbol = some sym') :
    s.offerNext sym scope table =
      { s with
        table := table.bind scope sym.name s.table.nextSymbol
        log := s.log ++ clash { s with table } sym.span scope sym.name sym'.kind } :=
  define_eq (s := { s with table }) h

/-- A symbol is made, and then its scope. -/
theorem addScope_addSymbol (s : Store) (sym : Symbol) (parent : Option ScopeId) :
    addScope s.table.nextSymbol parent (addSymbol sym s).2 =
      (s.table.nextScope, { s with table := s.table.addOwner sym parent }) := by
  have hmake := s.table.addScope_addSymbol sym parent
  exact congrArg (fun r : ScopeId × Table => (r.1, { s with table := r.2 })) hmake

/-! ## Growth -/

/-- Everything in `s` is in `s'`, where it may be more complete. -/
structure Grows (s s' : Store) : Prop where
  table : s.table.Grows s'.table
  names : s.names.texts <+: s'.names.texts
  log : s.log <+: s'.log
  arrays : s.table.types.arrays <+: s'.table.types.arrays

namespace Grows

theorem refl (s : Store) : s.Grows s :=
  ⟨.refl _, List.prefix_rfl, List.prefix_rfl, List.prefix_rfl⟩

theorem trans (g : s.Grows s') (g' : s'.Grows s'') : s.Grows s'' :=
  ⟨g.table.trans g'.table, g.names.trans g'.names, g.log.trans g'.log, g.arrays.trans g'.arrays⟩

/-- A name keeps its text. -/
theorem text? (g : s.Grows s') {n : Name} {u : String} (h : s.names.text? n = some u) :
    s'.names.text? n = some u :=
  Names.text?_mono g.names h

theorem text?_isSome (g : s.Grows s') {n : Name} (h : (s.names.text? n).isSome) :
    (s'.names.text? n).isSome := by
  obtain ⟨u, hu⟩ := Option.isSome_iff_exists.1 h
  exact Option.isSome_iff_exists.2 ⟨u, g.text? hu⟩

theorem reported (g : s.Grows s') (h : s.Reported) : s'.Reported :=
  let ⟨d, hd, hcode⟩ := h
  ⟨d, g.log.subset hd, hcode⟩

theorem usable (g : s.Grows s') {id : TypeId} (h : s.Usable id) : s'.Usable id :=
  ⟨g.table.get?_isSome h.1, fun he => g.reported (h.2 he)⟩

end Grows

/-! ## Soundness -/

structure Sound (s : Store) : Prop where
  linked : s.table.Linked
  types : s.table.types.Sound
  symbolText : ∀ x sym, s.table.symbol? x = some sym → (s.names.text? sym.name).isSome
  entryText : ∀ i sc, s.table.scope? i = some sc → ∀ e ∈ sc.entries,
    (s.names.text? e.1).isSome

theorem symbolText_of_symbol? {x : SymbolId} {sym : Symbol} (h : s.table.symbol? x = some sym) :
    s.symbolText x = s.names.text sym.name := by
  rw [Store.symbolText, h]
  rfl

/-- A symbol keeps its name. -/
theorem Sound.symbolText_eq (hs : s.Sound) (g : s.Grows s') {x : SymbolId} {sym : Symbol}
    (h : s.table.symbol? x = some sym) : s'.symbolText x = s.symbolText x := by
  obtain ⟨sym', hsym', hcore, _⟩ := g.table.symbol h
  have hname : sym'.name = sym.name := Symbol.eq_of_core Symbol.name (fun _ => rfl) hcore
  obtain ⟨u, hu⟩ := Option.isSome_iff_exists.1 (hs.symbolText x sym h)
  rw [symbolText_of_symbol? h, symbolText_of_symbol? hsym', hname, Names.text, Names.text, hu,
    g.text? hu]

/-! ## Runs -/

section

variable {m : Mark} {o : Offer} {c : SymbolId} {scope : ScopeId} {name : Name} {pkg : PackageId}

/-- An admitted offer suits the table. -/
theorem Admits.suits (h : s.Admits m o c scope name pkg)
    (htype : o.kind.isType → s.table.kindOf c = some .package)
    (hty : ∀ id, o.ty = some id → s.Usable id) : s.table.Suits (o.toSymbol name pkg) c where
  owner := h.container
  pkg _ := h.pkg
  exists_kindOf := by
    obtain ⟨csym, hcsym⟩ := Table.symbol?_of_scopeOf h.scopeOf
    have hk : s.table.kindOf c = some csym.kind := Option.map_eq_some_iff.2 ⟨csym, hcsym, rfl⟩
    exact ⟨csym.kind, hk, fun ht => Option.some.inj (hk.symm.trans (htype ht))⟩
  ty id hid := (hty id hid).1

/-- A symbol that a scope can have is offered to it. -/
theorem Sound.define (hs : s.Sound) (span : Span) (scope : ScopeId) (name : Name) {x : SymbolId}
    {sym : Symbol} (hx : s.table.symbol? x = some sym) (htext : (s.names.text? name).isSome)
    (hentry : ∀ o, s.table.ownerOf scope = some o → s.table.LinkedEntry o (name, x)) :
    (define span scope name x s).2.Sound ∧ s.Grows (define span scope name x s).2 := by
  rw [define_eq hx]
  refine ⟨⟨hs.linked.bind hentry, hs.types, hs.symbolText, fun i sc hi e he => ?_⟩,
    s.table.grows_bind _ _ _, List.prefix_rfl, List.prefix_append _ _, List.prefix_rfl⟩
  rw [Table.scope?_bind] at hi
  split at hi
  · obtain ⟨sc', hsc', rfl⟩ := Option.map_eq_some_iff.1 hi
    unfold Scope.define? at he
    split at he
    · exact hs.entryText i sc' hsc' e he
    · rcases List.mem_append.1 he with he | he
      · exact hs.entryText i sc' hsc' e he
      · rw [List.mem_singleton.1 he]
        exact htext
  · exact hs.entryText i sc hi e he

/-- The store with another table, in which new scopes are empty. -/
theorem Sound.of_table (hs : s.Sound) {table : Table} (hlinked : table.Linked)
    (htypes : table.types.Sound)
    (hsymbol : ∀ x sym, table.symbol? x = some sym →
      s.table.symbol? x = some sym ∨ (s.names.text? sym.name).isSome)
    (hscope : ∀ i sc, table.scope? i = some sc → s.table.scope? i = some sc ∨ sc.entries = []) :
    Sound { s with table } where
  linked := hlinked
  types := htypes
  symbolText x sym hx := (hsymbol x sym hx).elim (hs.symbolText x sym) id
  entryText i sc hi e he := (hscope i sc hi).elim (fun h => hs.entryText i sc h e he) fun h => by
    rw [h] at he
    cases he

/-- With the table `table`, the store has the symbol `sym` of the offer `o`, which is not offered
    yet. -/
structure Made (s : Store) (o : Offer) (name : Name) (pkg : PackageId) (table : Table)
    (sym : Symbol) : Prop where
  sound : Sound { s with table }
  grows : s.Grows { s with table }
  core : { sym with scope := none }.core = (o.toSymbol name pkg).core
  symbol : ∀ x, table.symbol? x = if x = s.table.nextSymbol then some sym else s.table.symbol? x
  scope : ∀ i sc, table.scope? i = some sc →
    s.table.scope? i = some sc ∨ s.table.scope? i = none ∧ sc.entries = []

theorem Admits.made (h : s.Admits m o c scope name pkg) (hs : s.Sound) {table : Table}
    {sym : Symbol} (hlinked : table.Linked) (htypes : table.types.Sound)
    (harrays : table.types.arrays = s.table.types.arrays) (g : s.table.Grows table)
    (hcore : { sym with scope := none }.core = (o.toSymbol name pkg).core)
    (hsymbol : ∀ x, table.symbol? x =
      if x = s.table.nextSymbol then some sym else s.table.symbol? x)
    (hscope : ∀ i sc, table.scope? i = some sc →
      s.table.scope? i = some sc ∨ s.table.scope? i = none ∧ sc.entries = []) :
    s.Made o name pkg table sym where
  sound := hs.of_table hlinked htypes (fun x sym' hx => by
    rw [hsymbol] at hx
    split at hx
    · cases hx
      rw [show sym.name = name from congrArg Symbol.name hcore, h.text]
      exact .inr rfl
    · exact .inl hx) fun i sc hi => (hscope i sc hi).imp_right And.right
  grows := ⟨g, List.prefix_rfl, List.prefix_rfl, harrays ▸ List.prefix_rfl⟩
  core := hcore
  symbol := hsymbol
  scope := hscope

/-- A new scope is empty, and the others are as they were. -/
theorem made_scope {t t' : Table} {x : SymbolId} {parent : Option ScopeId}
    (h : ∀ i, t'.scope? i = if i = t.nextScope then some { owner := x, parent } else t.scope? i)
    (i : ScopeId) (sc : Scope) (hi : t'.scope? i = some sc) :
    t.scope? i = some sc ∨ t.scope? i = none ∧ sc.entries = [] := by
  rw [h] at hi
  split at hi
  · next hn =>
    cases hi
    refine .inr ⟨?_, rfl⟩
    rw [hn]
    exact Array.getElem?_eq_none (Nat.le_refl _)
  · exact .inl hi

/-- The symbol of a variable is made. -/
theorem Admits.made_var (h : s.Admits m o c scope name pkg) (hs : s.Sound) (hk : o.kind = .var)
    {ty : TypeId} (hty : o.ty = some ty) (hu : s.Usable ty) :
    s.Made o name pkg (s.table.addSymbol (o.toSymbol name pkg)).2 (o.toSymbol name pkg) := by
  have hsuits := h.suits (fun ht => by rw [hk] at ht; cases ht) fun id hid => by
    cases hty.symm.trans hid
    exact hu
  exact h.made hs (hs.linked.addSymbol hsuits hk rfl) hs.types rfl (s.table.grows_addSymbol _) rfl
    (s.table.symbol?_addSymbol _) fun i sc hi => .inl hi

/-- The symbol of a struct, connector or service is made. -/
theorem Admits.made_container (h : s.Admits m o c scope name pkg) (hs : s.Sound)
    (hk : o.kind.isType) (hty : o.ty = none)
    (hc : (s.table.symbol? c).map (·.kind) = some .package) :
    s.Made o name pkg (s.table.addTypeOwner (o.toSymbol name pkg) (some scope))
      { o.toSymbol name pkg with
        ty := some ⟨s.table.types.size⟩, scope := some s.table.nextScope } := by
  have hsuits := h.suits (fun _ => hc) fun id hid => by
    rw [hty] at hid
    cases hid
  exact h.made hs (hs.linked.addTypeOwner hsuits hk h.scopeOf) (hs.types.alloc _) rfl
    (s.table.grows_addTypeOwner _ _) rfl (s.table.symbol?_addTypeOwner _ _)
    (made_scope (s.table.scope?_addTypeOwner (o.toSymbol name pkg) _))

/-- The symbol of a callable is made. -/
theorem Admits.made_callable (h : s.Admits m o c scope name pkg) (hs : s.Sound)
    (hk : o.kind.isCallable) (hty : o.ty = none) :
    s.Made o name pkg (s.table.addOwner (o.toSymbol name pkg) (some scope))
      { o.toSymbol name pkg with scope := some s.table.nextScope } := by
  obtain ⟨hpackage, hvar, htype⟩ := SymbolKind.of_isCallable hk
  have hsuits := h.suits (fun ht => absurd ht htype) fun id hid => by
    rw [hty] at hid
    cases hid
  exact h.made hs
    (hs.linked.addOwner hsuits hvar htype (.inr ⟨hpackage, scope, h.scopeOf, rfl⟩)) hs.types rfl
    (s.table.grows_addOwner _ _) rfl (s.table.symbol?_addOwner _ _)
    (made_scope (s.table.scope?_addOwner (o.toSymbol name pkg) _))

namespace Made

variable {table : Table} {sym : Symbol} (h : s.Made o name pkg table sym)
include h

theorem symbol?_next : table.symbol? s.table.nextSymbol = some sym :=
  (h.symbol _).trans (if_pos rfl)

theorem symbol?_offerNext {sym' : Symbol} (x : SymbolId) :
    (s.offerNext sym' scope table).table.symbol? x = table.symbol? x := by
  rw [offerNext_eq h.symbol?_next]
  rfl

theorem symbol?_offerNext_of_some {sym' : Symbol} {x : SymbolId} {y : Symbol}
    (hx : s.table.symbol? x = some y) :
    (s.offerNext sym' scope table).table.symbol? x = some y := by
  rw [h.symbol?_offerNext, h.symbol, if_neg (s.table.ne_nextSymbol hx), hx]

/-- The offer is linked to the scope that it is made to. -/
theorem sound_offerNext (hs : s.Sound) (ha : s.Admits m o c scope name pkg)
    (hkind : o.kind ≠ .package) : (s.offerNext (o.toSymbol name pkg) scope table).Sound ∧
      s.Grows (s.offerNext (o.toSymbol name pkg) scope table) := by
  have hk : sym.kind = o.kind := congrArg Symbol.kind h.core
  have ho : sym.owner = some c := (congrArg Symbol.owner h.core).trans ha.container
  obtain ⟨hs', g'⟩ := h.sound.define o.span scope name h.symbol?_next (by rw [ha.text]; rfl)
    fun o' ho' => by
      -- The scope is that of the owner of the new symbol.
      have hown := h.grows.table.ownerOf (hs.linked.ownerOf_of_scopeOf ha.scopeOf)
      cases hown.symm.trans ho'
      exact ⟨sym, h.symbol?_next, fun hp => absurd (hk.symm.trans hp) hkind,
        fun _ => ⟨congrArg Symbol.name h.core, ho⟩⟩
  exact ⟨hs', h.grows.trans g'⟩

end Made

end

end Store

end Binder
