import Binder.Proofs.Run

/-!
# Growth of tables

A table only grows: a handle keeps what it stands for, up to the type and the links that a callable
gets when it is complete, the entries added to a scope, and the fields a struct type gets.

* `Table.Grows`: a table is an earlier state of another one.
* `Table.grows_addOwner`, `Table.grows_bind`, `Table.grows_complete`: the moves of a run are growth.
-/

namespace Binder

/-- A symbol without what it may get later. -/
def Symbol.core (sym : Symbol) : Symbol := { sym with ty := none, links := none }

/-- What cannot change is the same for symbols with the same core. -/
theorem Symbol.eq_of_core {α : Type} (f : Symbol → α) (hf : ∀ sym, f sym.core = f sym)
    {sym sym' : Symbol} (h : sym'.core = sym.core) : f sym' = f sym := by
  rw [← hf sym', h, hf]

/-- A type without what it may get later. -/
def Ty.outline : Ty → Ty
  | .struct st => .struct { st with fields := none }
  | ty => ty

theorem mem_of_lookup {κ ν : Type} [BEq κ] [LawfulBEq κ] {l : List (κ × ν)} {k : κ} {v : ν}
    (h : l.lookup k = some v) : (k, v) ∈ l := by
  obtain ⟨l₁, l₂, rfl, _⟩ := List.lookup_eq_some_iff.1 h
  exact List.mem_append_right l₁ List.mem_cons_self

/-! ## Tables of types -/

namespace Types

variable (t : Types)

theorem get?_alloc_of_isSome (ty : Ty) {id : TypeId} (h : (t.get? id).isSome) :
    (t.alloc ty).2.get? id = t.get? id := by
  have hne : id ≠ (t.alloc ty).1 := by
    rintro rfl
    simp [get?, alloc, size] at h
  rw [get?_alloc, if_neg hne]

theorem get?_arrayOf_of_isSome (element : TypeId) {id : TypeId} (h : (t.get? id).isSome) :
    (t.arrayOf element).2.get? id = t.get? id := by
  unfold arrayOf
  split
  · rfl
  · exact t.get?_alloc_of_isSome _ h

/-- Setting the fields of a struct changes that type only, which had none before. -/
theorem get?_setFields? {id : TypeId} {fields : List Field} {t' : Types}
    (h : t.setFields? id fields = some t') : ∃ x, t.get? id = some (.struct ⟨x, none⟩) ∧
      t'.arrays = t.arrays ∧
      ∀ j, t'.get? j = if j = id then some (.struct ⟨x, some fields⟩) else t.get? j := by
  unfold setFields? at h
  split at h
  · rename_i x hx
    cases h
    obtain ⟨ty, hty, hst⟩ := Option.bind_eq_some_iff.1 hx
    have htx : t.get? id = some (.struct ⟨x, none⟩) := by
      cases ty with
      | struct st => rw [hty, ← Option.some.inj hst]
      | _ => cases hst
    refine ⟨x, htx, rfl, fun j => ?_⟩
    have hj : (id.index = j.index) = (j = id) :=
      propext ⟨fun h => by cases j; cases id; exact congrArg TypeId.mk h.symm, fun h => h ▸ rfl⟩
    simp only [get?, Array.getElem?_modify, hj]
    split
    · next h => subst h; rw [show t.types[j.index]? = _ from htx]; rfl
    · rfl
  · cases h

end Types

namespace Table

/-! ## Aspects of handles -/

section

variable (t : Table)

def kindOf (x : SymbolId) : Option SymbolKind := (t.symbol? x).map (·.kind)

def pkgOf (x : SymbolId) : Option PackageId := (t.symbol? x).map (·.pkg)

/-- The enclosing scope of a scope, if the scope exists. -/
def parentOf (i : ScopeId) : Option (Option ScopeId) := (t.scope? i).map (·.parent)

/-- The type of a handle, as far as it cannot change. -/
def outlineOf (id : TypeId) : Option Ty := (t.types.get? id).map Ty.outline

end

/-- Everything in `t` is in `t'`, where it may be more complete. -/
structure Grows (t t' : Table) : Prop where
  symbol : ∀ {x : SymbolId} {sym : Symbol}, t.symbol? x = some sym → ∃ sym',
    t'.symbol? x = some sym' ∧ sym'.core = sym.core ∧ ∀ ty, sym.ty = some ty → sym'.ty = some ty
  scope : ∀ {i : ScopeId} {sc : Scope}, t.scope? i = some sc → ∃ sc',
    t'.scope? i = some sc' ∧ sc'.owner = sc.owner ∧ sc'.parent = sc.parent ∧
      sc.entries <+: sc'.entries
  type : ∀ {id : TypeId} {ty : Ty}, t.outlineOf id = some ty → t'.outlineOf id = some ty

namespace Grows

variable {t t' t'' : Table} (g : t.Grows t')

theorem refl (t : Table) : t.Grows t where
  symbol h := ⟨_, h, rfl, fun _ h => h⟩
  scope h := ⟨_, h, rfl, rfl, List.prefix_rfl⟩
  type h := h

include g

theorem trans (g' : t'.Grows t'') : t.Grows t'' where
  symbol h := by
    obtain ⟨sym', h', hcore, hty⟩ := g.symbol h
    obtain ⟨sym'', h'', hcore', hty'⟩ := g'.symbol h'
    exact ⟨sym'', h'', hcore'.trans hcore, fun ty h => hty' ty (hty ty h)⟩
  scope h := by
    obtain ⟨sc', h', howner, hparent, hentries⟩ := g.scope h
    obtain ⟨sc'', h'', howner', hparent', hentries'⟩ := g'.scope h'
    exact ⟨sc'', h'', howner'.trans howner, hparent'.trans hparent, hentries.trans hentries'⟩
  type h := g'.type (g.type h)

theorem kindOf {x : SymbolId} {k : SymbolKind} (h : t.kindOf x = some k) :
    t'.kindOf x = some k := by
  obtain ⟨sym, hsym, rfl⟩ := Option.map_eq_some_iff.1 h
  obtain ⟨sym', h', hcore, _⟩ := g.symbol hsym
  exact Option.map_eq_some_iff.2 ⟨sym', h', Symbol.eq_of_core Symbol.kind (fun _ => rfl) hcore⟩

theorem pkgOf {x : SymbolId} {p : PackageId} (h : t.pkgOf x = some p) : t'.pkgOf x = some p := by
  obtain ⟨sym, hsym, rfl⟩ := Option.map_eq_some_iff.1 h
  obtain ⟨sym', h', hcore, _⟩ := g.symbol hsym
  exact Option.map_eq_some_iff.2 ⟨sym', h', Symbol.eq_of_core Symbol.pkg (fun _ => rfl) hcore⟩

theorem scopeOf {x : SymbolId} {i : ScopeId} (h : t.scopeOf x = some i) :
    t'.scopeOf x = some i := by
  obtain ⟨sym, hsym, hi⟩ := Option.bind_eq_some_iff.1 h
  obtain ⟨sym', h', hcore, _⟩ := g.symbol hsym
  exact Option.bind_eq_some_iff.2
    ⟨sym', h', (Symbol.eq_of_core Symbol.scope (fun _ => rfl) hcore).trans hi⟩

theorem ownerOf {i : ScopeId} {x : SymbolId} (h : t.ownerOf i = some x) :
    t'.ownerOf i = some x := by
  obtain ⟨sc, hsc, rfl⟩ := Option.map_eq_some_iff.1 h
  obtain ⟨sc', h', howner, _⟩ := g.scope hsc
  exact Option.map_eq_some_iff.2 ⟨sc', h', howner⟩

theorem parentOf {i : ScopeId} {p : Option ScopeId} (h : t.parentOf i = some p) :
    t'.parentOf i = some p := by
  obtain ⟨sc, hsc, rfl⟩ := Option.map_eq_some_iff.1 h
  obtain ⟨sc', h', _, hparent, _⟩ := g.scope hsc
  exact Option.map_eq_some_iff.2 ⟨sc', h', hparent⟩

theorem get?_isSome {id : TypeId} (h : (t.types.get? id).isSome) :
    (t'.types.get? id).isSome := by
  obtain ⟨ty, hty⟩ := Option.isSome_iff_exists.1 h
  have h' : t'.outlineOf id = some ty.outline := g.type (by rw [outlineOf, hty]; rfl)
  obtain ⟨ty', hty', _⟩ := Option.map_eq_some_iff.1 h'
  exact Option.isSome_iff_exists.2 ⟨ty', hty'⟩

theorem types_size_le : t.types.size ≤ t'.types.size := by
  refine Nat.le_of_not_lt fun hlt => ?_
  have hold : (t.types.get? ⟨t'.types.size⟩).isSome := t.types.get?_of_lt hlt
  obtain ⟨ty, hty⟩ := Option.isSome_iff_exists.1 (g.get?_isSome hold)
  exact Nat.lt_irrefl _ (Array.getElem?_eq_some_iff.1 hty).1

end Grows

/-! ## The moves of a run -/

section

variable (t : Table)

theorem ne_nextSymbol {x : SymbolId} {sym : Symbol} (h : t.symbol? x = some sym) :
    x ≠ t.nextSymbol := by
  rintro rfl
  exact Nat.lt_irrefl _ (Array.getElem?_eq_some_iff.1 h).1

theorem ne_nextScope {i : ScopeId} {sc : Scope} (h : t.scope? i = some sc) :
    i ≠ t.nextScope := by
  rintro rfl
  exact Nat.lt_irrefl _ (Array.getElem?_eq_some_iff.1 h).1

theorem symbol?_addOwner (sym : Symbol) (parent : Option ScopeId) (x : SymbolId) :
    (t.addOwner sym parent).symbol? x =
      if x = t.nextSymbol then some { sym with scope := some t.nextScope } else t.symbol? x :=
  t.symbol?_addSymbol _ x

theorem scope?_addOwner (sym : Symbol) (parent : Option ScopeId) (i : ScopeId) :
    (t.addOwner sym parent).scope? i =
      if i = t.nextScope then some { owner := t.nextSymbol, parent } else t.scope? i :=
  t.scope?_addScope t.nextSymbol parent i

theorem isSome_symbol?_addOwner (sym : Symbol) (parent : Option ScopeId) (x : SymbolId) :
    ((t.addOwner sym parent).symbol? x).isSome ↔ (t.symbol? x).isSome ∨ x = t.nextSymbol := by
  rw [symbol?_addOwner]
  split
  · next hx => exact ⟨fun _ => .inr hx, fun _ => rfl⟩
  · next hx => exact ⟨.inl, fun h => h.elim id fun heq => absurd heq hx⟩

theorem isSome_scope?_addOwner (sym : Symbol) (parent : Option ScopeId) (i : ScopeId) :
    ((t.addOwner sym parent).scope? i).isSome ↔ (t.scope? i).isSome ∨ i = t.nextScope := by
  rw [scope?_addOwner]
  split
  · next hi => exact ⟨fun _ => .inr hi, fun _ => rfl⟩
  · next hi => exact ⟨.inl, fun h => h.elim id fun heq => absurd heq hi⟩

/-- Changing the last element of an array right after it was added. -/
theorem modify_push_size {α : Type} (a : Array α) (x : α) (f : α → α) :
    (a.push x).modify a.size f = a.push (f x) := by
  refine Array.ext_getElem? fun i => ?_
  rw [Array.getElem?_modify, Array.getElem?_push, Array.getElem?_push]
  by_cases h : i = a.size
  · simp [h]
  · simp [h, Ne.symm h]

/-- A new symbol with a scope is made like a symbol and then its scope. -/
theorem addScope_addSymbol (sym : Symbol) (parent : Option ScopeId) :
    (t.addSymbol sym).2.addScope t.nextSymbol parent = (t.nextScope, t.addOwner sym parent) := by
  simp only [addSymbol, addScope, addOwner, nextSymbol, nextScope, modify_push_size]

/-- A new symbol with a type and a scope is made like a symbol, then its type, and then its scope. -/
theorem addScope_modifySymbol_addSymbol (sym : Symbol) (parent : Option ScopeId) :
    (({ (t.addSymbol sym).2 with
        types := (t.types.alloc (.ofContainer sym.kind t.nextSymbol)).2 } : Table).modifySymbol
      t.nextSymbol ({ · with ty := some ⟨t.types.size⟩ })).addScope t.nextSymbol parent =
      (t.nextScope, t.addTypeOwner sym parent) := by
  simp only [addSymbol, addScope, modifySymbol, addOwner, addTypeOwner, nextSymbol, nextScope,
    modify_push_size]

theorem symbol?_addTypeOwner (sym : Symbol) (parent : Option ScopeId) (x : SymbolId) :
    (t.addTypeOwner sym parent).symbol? x =
      if x = t.nextSymbol then
        some { sym with ty := some ⟨t.types.size⟩, scope := some t.nextScope }
      else t.symbol? x :=
  t.symbol?_addSymbol _ x

theorem scope?_addTypeOwner (sym : Symbol) (parent : Option ScopeId) (i : ScopeId) :
    (t.addTypeOwner sym parent).scope? i =
      if i = t.nextScope then some { owner := t.nextSymbol, parent } else t.scope? i :=
  t.scope?_addScope t.nextSymbol parent i

theorem symbol?_complete (y : SymbolId) (g : Signature) (links : Links) (x : SymbolId) :
    (t.complete y g links).symbol? x =
      if x = y then
        (t.symbol? x).map ({ · with ty := some ⟨t.types.size⟩, links := some links })
      else t.symbol? x := by
  have h : (y.index = x.index) = (x = y) :=
    propext ⟨fun h => by cases x; cases y; exact congrArg SymbolId.mk h.symm, fun h => h ▸ rfl⟩
  simp only [complete, symbol?, Array.getElem?_modify, h]

theorem scopeOf_complete (y : SymbolId) (g : Signature) (links : Links) (x : SymbolId) :
    (t.complete y g links).scopeOf x = t.scopeOf x := by
  rw [scopeOf, symbol?_complete]
  split
  · rw [scopeOf, Option.bind_map]
    rfl
  · rfl

theorem scope?_bind (i : ScopeId) (name : Name) (x : SymbolId) (j : ScopeId) :
    (t.bind i name x).scope? j =
      if j = i then (t.scope? j).map fun sc => (sc.define? name x).getD sc else t.scope? j := by
  have h : (i.index = j.index) = (j = i) :=
    propext ⟨fun h => by cases i; cases j; exact congrArg ScopeId.mk h.symm, fun h => h ▸ rfl⟩
  simp only [bind, scope?, Array.getElem?_modify, h]

/-! ### Each move is growth -/

/-- A table with one more symbol and possibly more scopes and types. -/
theorem grows_of_next {t t' : Table} (hsym : ∀ x, x ≠ t.nextSymbol → t'.symbol? x = t.symbol? x)
    (hscope : ∀ i, i ≠ t.nextScope → t'.scope? i = t.scope? i)
    (htype : ∀ id, (t.types.get? id).isSome → t'.types.get? id = t.types.get? id) :
    t.Grows t' where
  symbol h := ⟨_, (hsym _ (t.ne_nextSymbol h)).trans h, rfl, fun _ h => h⟩
  scope h := ⟨_, (hscope _ (t.ne_nextScope h)).trans h, rfl, rfl, List.prefix_rfl⟩
  type {id ty} h := by
    obtain ⟨ty', hty', _⟩ := Option.map_eq_some_iff.1 h
    rw [outlineOf, htype id (Option.isSome_iff_exists.2 ⟨ty', hty'⟩)]
    exact h

theorem grows_addSymbol (sym : Symbol) : t.Grows (t.addSymbol sym).2 :=
  grows_of_next (fun x hx => (t.symbol?_addSymbol sym x).trans (if_neg hx)) (fun _ _ => rfl)
    fun _ _ => rfl

theorem grows_addOwner (sym : Symbol) (parent : Option ScopeId) :
    t.Grows (t.addOwner sym parent) :=
  grows_of_next (fun x hx => (t.symbol?_addOwner sym parent x).trans (if_neg hx))
    (fun i hi => (t.scope?_addOwner sym parent i).trans (if_neg hi)) fun _ _ => rfl

theorem grows_addTypeOwner (sym : Symbol) (parent : Option ScopeId) :
    t.Grows (t.addTypeOwner sym parent) :=
  grows_of_next (fun x hx => (t.symbol?_addTypeOwner sym parent x).trans (if_neg hx))
    (fun i hi => (t.scope?_addTypeOwner sym parent i).trans (if_neg hi))
    fun _ h => t.types.get?_alloc_of_isSome _ h

/-- A callable is complete only once. -/
theorem grows_complete {x : SymbolId} (g : Signature) (links : Links)
    (hx : (t.symbol? x).bind (·.ty) = none) : t.Grows (t.complete x g links) where
  symbol {y sym} h := by
    rw [symbol?_complete]
    by_cases hyx : y = x
    · subst hyx
      rw [h] at hx ⊢
      exact ⟨_, if_pos rfl, rfl, fun ty hty => absurd (hx.symm.trans hty) nofun⟩
    · exact ⟨sym, by rw [if_neg hyx, h], rfl, fun _ h => h⟩
  scope h := ⟨_, h, rfl, rfl, List.prefix_rfl⟩
  type {id ty} h := by
    obtain ⟨ty', hty', _⟩ := Option.map_eq_some_iff.1 h
    rw [outlineOf, complete, t.types.get?_alloc_of_isSome _ (Option.isSome_iff_exists.2 ⟨ty', hty'⟩)]
    exact h

theorem grows_arrayOf (element : TypeId) :
    t.Grows { t with types := (t.types.arrayOf element).2 } :=
  grows_of_next (fun _ _ => rfl) (fun _ _ => rfl) fun _ h => t.types.get?_arrayOf_of_isSome _ h

theorem grows_setFields? {id : TypeId} {fields : List Field} {types : Types}
    (h : t.types.setFields? id fields = some types) : t.Grows { t with types } where
  symbol h := ⟨_, h, rfl, fun _ h => h⟩
  scope h := ⟨_, h, rfl, rfl, List.prefix_rfl⟩
  type {j ty} hj := by
    obtain ⟨x, hx, _, hget⟩ := t.types.get?_setFields? h
    rw [outlineOf, hget]
    split
    · next hji => rw [← hj, outlineOf, hji, hx]; rfl
    · exact hj

end

/-- A definition adds at most one entry to a scope. -/
theorem prefix_define? (sc : Scope) (name : Name) (x : SymbolId) :
    ((sc.define? name x).getD sc).owner = sc.owner ∧
      ((sc.define? name x).getD sc).parent = sc.parent ∧
      sc.entries <+: ((sc.define? name x).getD sc).entries := by
  unfold Scope.define?
  split
  · exact ⟨rfl, rfl, List.prefix_rfl⟩
  · exact ⟨rfl, rfl, List.prefix_append _ _⟩

theorem grows_bind (t : Table) (i : ScopeId) (name : Name) (x : SymbolId) :
    t.Grows (t.bind i name x) where
  symbol h := ⟨_, h, rfl, fun _ h => h⟩
  scope {j sc} h := by
    rw [scope?_bind, h]
    by_cases hji : j = i
    · exact ⟨_, if_pos hji, prefix_define? sc name x⟩
    · exact ⟨_, if_neg hji, rfl, rfl, List.prefix_rfl⟩
  type h := h

end Table

end Binder
