import Mathlib.Logic.Relation
import Binder.Proofs.Resolution
import Binder.Proofs.WellFormed

/-!
# Nothing hides types and imports

The scopes around a scope end with that of a package, and only there types and imported packages are
bound. Whatever is bound on the way out, by whatever name, is a variable or a callable, which a
look-up for types or packages passes by. So types and imports mean the same at every depth: what
they mean in the scope of the package. This does not even wait for a declaration to be complete. It
holds while symbols and scopes are being made that are not bound yet.

* `Table.Allocates`: the tables that come up while something is made that is not bound yet.
* `Table.Nesting.of_allocates`: scopes stay nested meanwhile.
* `Table.Unhidden`: what is bound on the way from a scope to that of the package hides nothing.
* `Session.Arises.unhidden`: all scopes of all sessions that come up.
-/

namespace Binder

theorem SymbolKind.var_or_isCallable {k : SymbolKind} (hpackage : k ≠ .package)
    (htype : ¬k.isType) : k = .var ∨ k.isCallable := by
  revert hpackage htype
  cases k <;> decide

namespace Table

/-! ## Symbols and scopes that are made -/

/-- Something is made in the table. No name is bound, and a symbol that is there keeps its kind. A
    new scope is that of a package, or is enclosed by one that is there. -/
inductive Allocation (t : Table) : Table → Prop
  | symbol (sym : Symbol) : Allocation t (t.addSymbol sym).2
  | change (x : SymbolId) {f : Symbol → Symbol} :
    (∀ sym, (f sym).kind = sym.kind) → Allocation t (t.modifySymbol x f)
  | packageScope {owner : SymbolId} : t.kindOf owner = some .package →
    Allocation t (t.addScope owner none).2
  | scope (owner : SymbolId) {parent : ScopeId} : (t.scope? parent).isSome →
    Allocation t (t.addScope owner (some parent)).2
  | types (types : Types) : Allocation t { t with types }
  | packages (packages : List PackageName) : Allocation t { t with packages }

/-- The table comes up while something is made. -/
def Allocates : Table → Table → Prop := Relation.ReflTransGen Allocation

variable {t t' : Table}

/-- The scope `sc`, which is new in the table as `i`, is nested among those that are there. -/
structure NewScope (t : Table) (i : ScopeId) (sc : Scope) : Prop where
  entries : sc.entries = []
  outermost : sc.parent = none → t.kindOf sc.owner = some .package
  enclosed : ∀ j, sc.parent = some j → j.index < i.index ∧ (t.scope? j).isSome

/-- A table stays nested if symbols keep their kinds and scopes stay what they are. -/
theorem Nesting.mono (h : t.Nesting)
    (hkind : ∀ x k, t.kindOf x = some k → t'.kindOf x = some k)
    (hold : ∀ i sc, t.scope? i = some sc → t'.scope? i = some sc)
    (hscope : ∀ i sc, t'.scope? i = some sc → t.scope? i = some sc ∨ t'.NewScope i sc) :
    t'.Nesting where
  outermost i sc hi hparent := by
    rcases hscope i sc hi with hi | hnew
    · exact hkind _ _ (h.outermost i sc hi hparent)
    · exact hnew.outermost hparent
  enclosed i sc j hi hj := by
    rcases hscope i sc hi with hi | hnew
    · obtain ⟨hlt, hsome⟩ := h.enclosed i sc j hi hj
      obtain ⟨sc', hsc'⟩ := Option.isSome_iff_exists.1 hsome
      exact ⟨hlt, Option.isSome_iff_exists.2 ⟨sc', hold j sc' hsc'⟩⟩
    · exact hnew.enclosed j hj
  entry i sc e hi he := by
    rcases hscope i sc hi with hi | hnew
    · obtain ⟨k, hk, hother⟩ := h.entry i sc e hi he
      exact ⟨k, hkind _ _ hk, hother⟩
    · rw [hnew.entries] at he
      cases he

theorem kindOf_modifySymbol {f : Symbol → Symbol} (hf : ∀ sym, (f sym).kind = sym.kind)
    (x y : SymbolId) : (t.modifySymbol x f).kindOf y = t.kindOf y := by
  rw [kindOf, kindOf, symbol?, symbol?, modifySymbol, Array.getElem?_modify]
  split
  · rw [Option.map_map]
    exact congrFun (congrArg Option.map (funext hf)) _
  · rfl

/-- A scope is added. -/
theorem Nesting.addScope (h : t.Nesting) {owner : SymbolId} {parent : Option ScopeId}
    (houter : parent = none → t.kindOf owner = some .package)
    (hinner : ∀ j, parent = some j → (t.scope? j).isSome) :
    (t.addScope owner parent).2.Nesting := by
  have hkind : ∀ x, (t.addScope owner parent).2.kindOf x = t.kindOf x :=
    kindOf_modifySymbol (f := ({ · with scope := some t.nextScope })) (fun _ => rfl) owner
  have hne : ∀ j, (t.scope? j).isSome → j.index < t.nextScope.index := fun j hj => by
    obtain ⟨sc, hsc⟩ := Option.isSome_iff_exists.1 hj
    exact (Array.getElem?_eq_some_iff.1 hsc).1
  have hold : ∀ j sc, t.scope? j = some sc → (t.addScope owner parent).2.scope? j = some sc := by
    intro j sc hj
    have hlt := hne j (Option.isSome_iff_exists.2 ⟨sc, hj⟩)
    rw [scope?_addScope, if_neg, hj]
    rintro rfl
    exact absurd hlt (Nat.lt_irrefl _)
  refine h.mono (fun x k hk => (hkind x).trans hk) hold fun i sc hi => ?_
  rw [scope?_addScope] at hi
  split at hi
  · next hin =>
    cases hi
    subst hin
    refine .inr ⟨rfl, fun hp => (hkind owner).trans (houter hp), fun j hj => ?_⟩
    obtain ⟨sc', hsc'⟩ := Option.isSome_iff_exists.1 (hinner j hj)
    exact ⟨hne j (hinner j hj), Option.isSome_iff_exists.2 ⟨sc', hold j sc' hsc'⟩⟩
  · exact .inl hi

/-- Whatever is made, scopes stay nested. -/
theorem Nesting.of_allocation (h : t.Nesting) (ha : t.Allocation t') : t'.Nesting := by
  cases ha with
  | symbol sym =>
    exact h.mono (fun _ _ hk => (t.grows_addSymbol sym).kindOf hk) (fun _ _ hi => hi)
      fun _ _ hi => .inl hi
  | change x hf =>
    exact h.mono (fun y k hk => (kindOf_modifySymbol hf x y).trans hk) (fun _ _ hi => hi)
      fun _ _ hi => .inl hi
  | packageScope hk => exact h.addScope (fun _ => hk) nofun
  | scope owner hparent => exact h.addScope nofun fun j hj => Option.some.inj hj ▸ hparent
  | types | packages => exact ⟨h.outermost, h.enclosed, h.entry⟩

theorem Nesting.of_allocates (h : t.Nesting) (ha : t.Allocates t') : t'.Nesting := by
  induction ha with
  | refl => exact h
  | tail _ ha ih => exact ih.of_allocation ha

/-! ## Look-ups from within -/

/-- From the scope `i` outwards, past the scopes `between`, the walk ends with the scope `j` of a
    package. What is bound on the way hides no type and no import. -/
structure Unhidden (t : Table) (i : ScopeId) (between : List ScopeId) (j : ScopeId) : Prop where
  /-- However far the walk may go, it ends there. -/
  walk : ∀ bound, i.index < bound → t.chainWithin bound i = between ++ [j]
  ends : t.EndsAtPackage (t.chain i)
  /-- What is bound on the way is a variable or a callable. -/
  bound : ∀ k ∈ between, ∀ name sym, t.bound? k name = some sym →
    sym.kind = .var ∨ sym.kind.isCallable
  /-- Types and packages are not found on the way, whatever is bound there. -/
  absent : ∀ k ∈ between, ∀ name mask, mask = .type ∨ mask = .package →
    t.lookupMember k name mask = .absent
  /-- They are looked up in the scope of the package. -/
  lookup_eq : ∀ name mask, mask = .type ∨ mask = .package →
    t.lookup i name mask = t.lookupMember j name mask
  /-- That there are any such scopes and symbols is not in question. -/
  lookupMember_ne : ∀ name mask, t.lookupMember j name mask ≠ .dangling

theorem lookupIn_eq_of_absent {name : Name} {mask : KindMask} {between : List ScopeId}
    {j : ScopeId} (h : ∀ k ∈ between, t.lookupMember k name mask = .absent) :
    t.lookupIn name mask (between ++ [j]) = t.lookupMember j name mask := by
  induction between with
  | nil =>
    rw [List.nil_append, lookupIn]
    cases t.lookupMember j name mask <;> rfl
  | cons k rest ih =>
    rw [List.cons_append, lookupIn, h k List.mem_cons_self]
    exact ih fun k hk => h k (List.mem_cons_of_mem _ hk)

/-- What is found in a scope of a nested table. -/
theorem Nesting.lookupMember_eq (h : t.Nesting) {i : ScopeId} {sc : Scope}
    (hi : t.scope? i = some sc) (name : Name) (mask : KindMask) : t.lookupMember i name mask =
      match sc.get? name with
      | none => .absent
      | some x => if (t.kindOf x).any (·.mask.meets mask) then .found x else .absent := by
  rw [lookupMember, hi]
  cases hget : sc.get? name with
  | none => simp only [hget]
  | some x =>
    obtain ⟨k, hk, _⟩ := h.entry i sc (name, x) hi (mem_of_lookup hget)
    obtain ⟨sym, hsym, rfl⟩ := Option.map_eq_some_iff.1 hk
    have hx : t.symbol? x = some sym := hsym
    simp only [hget, hx, kindOf, Option.map_some, Option.any_some]

/-- In a nested table, nothing is hidden from any scope. -/
theorem Nesting.exists_unhidden (h : t.Nesting) {i : ScopeId} (hi : (t.scope? i).isSome) :
    ∃ between j, t.Unhidden i between j := by
  obtain ⟨sc, hsc⟩ := Option.isSome_iff_exists.1 hi
  obtain ⟨between, j, hwalk, hends, hj, hbetween⟩ := h.exists_walk hsc
  have hlt : i.index < t.scopes.size := (Array.getElem?_eq_some_iff.1 hsc).1
  have hchain : t.chain i = between ++ [j] := hwalk _ (Nat.lt_succ_of_lt hlt)
  have habsent : ∀ k ∈ between, ∀ name mask, mask = .type ∨ mask = .package →
      t.lookupMember k name mask = .absent := fun k hk name mask hmask => by
    obtain ⟨sc, hsc, hparent⟩ := hbetween k hk
    rw [h.lookupMember_eq hsc]
    cases hget : sc.get? name with
    | none => rfl
    | some x =>
      -- The name may well be bound there, but neither to a type nor to a package.
      obtain ⟨kind, hkind, hother⟩ := h.entry k sc (name, x) hsc (mem_of_lookup hget)
      obtain ⟨hpackage, htype⟩ := hother hparent
      simp only [show t.kindOf x = some kind from hkind, Option.any_some]
      refine if_neg fun hmeets => ?_
      rcases hmask with rfl | rfl
      · exact htype (kind.meets_type_eq_isType ▸ hmeets)
      · exact hpackage (SymbolKind.mask_meets_package.1 hmeets)
  refine ⟨between, j, hwalk, hchain ▸ hends, fun k hk name sym hbound => ?_, habsent,
    fun name mask hmask => ?_, fun name mask => ?_⟩
  · obtain ⟨sc, hsc, hparent⟩ := hbetween k hk
    rw [bound?, hsc, Option.bind_some] at hbound
    obtain ⟨x, hget, hx⟩ := Option.bind_eq_some_iff.1 hbound
    obtain ⟨kind, hkind, hother⟩ := h.entry k sc (name, x) hsc (mem_of_lookup hget)
    have hsame : t.kindOf x = some sym.kind := Option.map_eq_some_iff.2 ⟨sym, hx, rfl⟩
    cases hsame.symm.trans hkind
    obtain ⟨hpackage, htype⟩ := hother hparent
    exact SymbolKind.var_or_isCallable hpackage htype
  · rw [lookup, hchain, lookupIn_eq_of_absent fun k hk => habsent k hk name mask hmask]
  · obtain ⟨sc, hsc⟩ := Option.isSome_iff_exists.1 hj
    rw [h.lookupMember_eq hsc]
    split
    · exact Lookup.noConfusion
    · split <;> exact Lookup.noConfusion

end Table

namespace Session

/-- In every session that comes up, also while something is being made, types and imported packages
    mean the same from every scope as from that of the package around it. -/
theorem Arises.unhidden {s : Session} (h : s.Arises) {t : Table} (ht : s.store.table.Allocates t)
    {i : ScopeId} (hi : (t.scope? i).isSome) : ∃ between j, t.Unhidden i between j :=
  (h.sound.linked.nesting.of_allocates ht).exists_unhidden hi

/-- A parameter and a return that are called like a struct, a worker that is called like an import,
    and a scope that is being made inside of the worker. -/
theorem unhidden_by_parts :
    let word (text : String) : Ident := ⟨text, .origin⟩
    let T : VarDecl :=
      { span := .origin, name := word "T", type := .primitive .int .origin none }
    let a : Callable := .mk { span := .origin, name := word "a", returns := [T] } []
    let p : Package :=
      { imports := [{ span := .origin, path := [word "a"] }]
        structs := [{ span := .origin, name := word "T" }]
        functions := [.mk { span := .origin, name := word "f", params := [T] } [a]] }
    let s := (start {} {} (Library.insert {} "a" none {})).after [.define p]
    let made : Symbol := { kind := .worker, name := .unnamed, pkg := ⟨1⟩, span := .origin }
    let t := ((s.store.table.addSymbol made).2.addScope s.store.table.nextSymbol (some ⟨6⟩)).2
    s.Arises ∧ s.store.table.Allocates t ∧ t.chain ⟨8⟩ = [⟨8⟩, ⟨6⟩, ⟨5⟩, ⟨1⟩] ∧
      (∃ between j, t.Unhidden ⟨8⟩ between j) ∧
      [Name.mk 4, Name.mk 2].map s.store.names.text = ["T", "a"] ∧
      (t.lookup ⟨8⟩ ⟨4⟩ .type, t.lookup ⟨8⟩ ⟨4⟩ .var) = (.found ⟨4⟩, .found ⟨8⟩) ∧
      (t.lookup ⟨8⟩ ⟨2⟩ .package, t.lookup ⟨8⟩ ⟨2⟩ .callable) = (.found ⟨2⟩, .found ⟨7⟩) := by
  intro word T a p s made t
  have h : s.Arises := .between ((Reachable.start {} {} _).after [.define p])
  have hscope : ((s.store.table.addSymbol made).2.scope? ⟨6⟩).isSome := by decide +kernel
  have hsymbol : s.store.table.Allocation (s.store.table.addSymbol made).2 := .symbol made
  have hmade : (s.store.table.addSymbol made).2.Allocation t := .scope _ hscope
  have ht : s.store.table.Allocates t := .tail (.tail .refl hsymbol) hmade
  exact ⟨h, ht, by decide +kernel, h.unhidden ht (by decide +kernel), by decide +kernel,
    by decide +kernel, by decide +kernel⟩

end Session

end Binder
