import Binder.Proofs.ForwardReference
import Binder.Proofs.HandedOut
import Binder.Proofs.Misnaming

/-!
# Resolution of written types

What resolving a written type does to a session, wherever it comes up: between requests, in the
middle of one, or after other written types were resolved. The type is had or one problem is
reported, and nothing else happens but that array types are made. Resolving the written type once
more makes none.

* `Session.Arises`: the sessions that come up.
* `Store.visible?`: what a text means, seen from a scope.
* `TypeRef.base?`: the type under the brackets of a written type.
* `TypeRef.resolve_of_resolvedIn`: what is resolved already is left as it is.
* `Session.Arises.resolves`: what resolving a written type comes to.
-/

namespace Binder

open Store

/-! ## Sessions -/

namespace Session

/-- The sessions that come up: between requests, at a moment of a history or on the way to the next
    one, and when a written type was resolved in such a session. -/
inductive Arises : Session → Prop
  | between {s : Session} : Reachable s → Arises s
  | during {names : Names} {config : Config} {library : Library} {requests : List Request}
      {m : Moment} {u : Store} : m ∈ (start names config library).moments requests →
    m.Reaches u → Arises { m.session with store := u }
  | resolving {s : Session} {scope : ScopeId} (r : TypeRef) : Arises s →
    (s.store.table.scope? scope).isSome → Arises (onStore (r.resolve scope) s).2

theorem Arises.sound {s : Session} (h : s.Arises) : s.store.Sound := by
  induction h with
  | between h => exact h.sound.store
  | @during names config library requests m u hm hu =>
    obtain ⟨k, hk⟩ := List.mem_iff_getElem?.1 hm
    have hfair := (segment_moments requests (ready_start names config library)).honest.fair hk
    rcases hu with rfl | ⟨_, _, _, _, _, hreaches⟩
    · exact hfair.ready.sound.store
    · exact (hreaches.follows hfair.ready.sound.store).sound
  | @resolving s scope r _ hscope ih =>
    obtain ⟨sc, hsc⟩ := Option.isSome_iff_exists.1 hscope
    obtain ⟨p, hi⟩ := ih.linked.exists_inside hsc
    exact (r.run_resolve (m := s.store.mark) ih hi).1.sound ih

end Session

/-! ## What is visible -/

namespace Store

/-- The symbol that `text` means, seen from a scope: of the enclosing scopes, the innermost one counts
    in which a symbol of a kind wanted is bound to the text. -/
def visible? (s : Store) (scope : ScopeId) (text : String) (mask : KindMask) : Option SymbolId :=
  (s.table.chain scope).findSome? fun i => (s.table.ownerOf i).bind (s.member? · text mask)

/-- The type that a name means, seen from a scope. -/
def visibleType? (s : Store) (scope : ScopeId) (qualifier : Option Ident) (name : Ident) :
    Option SymbolId :=
  match qualifier with
  | none => s.visible? scope name.text .type
  | some q => (s.visible? scope q.text .package).bind (s.member? · name.text .type)

variable {s s' : Store} {scope : ScopeId} {p c : SymbolId} {text : String} {mask : KindMask}

/-- Only packages have types and packages among their members. -/
theorem Sound.member?_eq_none (hs : s.Sound) (hmask : mask.isGlobal)
    (hk : ∀ k, s.table.kindOf c = some k → k ≠ .package) : s.member? c text mask = none := by
  rw [Option.eq_none_iff_forall_ne_some]
  intro x hx
  obtain ⟨e, he, heq⟩ := List.mem_map.1
    (mem_bindings_of_bound? (Option.filter_eq_some_iff.1 hx).1)
  have hname : s.names.text? e.1 = some text :=
    (hs.text?_of_mem_entries he).trans (congrArg some (congrArg Prod.fst heq))
  cases hi : s.table.scopeOf c with
  | none =>
    rw [entries_eq_nil hi] at he
    cases he
  | some i =>
    have habsent : s.table.lookupMember i e.1 mask = .absent :=
      hs.linked.lookupMember_eq_absent hmask (hs.linked.ownerOf_of_scopeOf hi) hk
    have hfound : (s.table.lookupMember i e.1 mask).symbol? = s.member? c text mask :=
      hs.symbol?_lookupMember hi hname
    rw [habsent, hx] at hfound
    cases hfound

/-- From the inside of a package, the members of the package are visible, as far as types and
    packages are concerned. -/
theorem Sound.findSome?_chainWithin (hs : s.Sound) (hi : s.table.Inside scope p)
    (hmask : mask.isGlobal) {bound : Nat} (hbound : scope.index < bound) :
    (s.table.chainWithin bound scope).findSome?
      (fun i => (s.table.ownerOf i).bind (s.member? · text mask)) = s.member? p text mask := by
  induction hi generalizing bound with
  | @here i p hp hk =>
    obtain ⟨n, rfl⟩ : ∃ n, bound = n + 1 := ⟨bound - 1, by omega⟩
    obtain ⟨sym, hsym, hkind⟩ := Option.map_eq_some_iff.1 hk
    -- The scope of a package is not enclosed by another one.
    obtain ⟨i', q, hi', _, hq, hpackage, _⟩ := (hs.linked.symbol p sym hsym).withScope (by
      rw [hkind]
      nofun)
    cases hpackage hkind
    obtain rfl : i' = i := by
      rw [Table.scopeOf, hsym, Option.bind_some, hi'] at hp
      exact Option.some.inj hp
    obtain ⟨sc, hsc, hparent⟩ := Option.map_eq_some_iff.1 hq
    rw [Table.chainWithin, hsc, Option.bind_some, hparent, List.findSome?_cons,
      hs.linked.ownerOf_of_scopeOf hp, Option.bind_some]
    cases s.member? p text mask <;> rfl
  | @up i j o p ho hk hparent _ ih =>
    obtain ⟨n, rfl⟩ : ∃ n, bound = n + 1 := ⟨bound - 1, by omega⟩
    obtain ⟨sc, hsc, hscp⟩ := Option.map_eq_some_iff.1 hparent
    have hlt : j.index < i.index := hs.linked.lt_of_parentOf hparent
    rw [Table.chainWithin, hsc, Option.bind_some, hscp, List.findSome?_cons, ho,
      Option.bind_some, hs.member?_eq_none hmask hk]
    exact ih (by omega)

theorem Sound.visible?_eq (hs : s.Sound) (hi : s.table.Inside scope p) (hmask : mask.isGlobal) :
    s.visible? scope text mask = s.member? p text mask :=
  hs.findSome?_chainWithin hi hmask (Nat.lt_succ_of_lt (hi.lt_nextScope hs.linked))

theorem Sound.visibleType?_eq (hs : s.Sound) (hi : s.table.Inside scope p)
    (qualifier : Option Ident) (name : Ident) : s.visibleType? scope qualifier name =
      (s.packageMeant? p qualifier).bind (s.member? · name.text .type) := by
  cases qualifier with
  | none => exact hs.visible?_eq hi KindMask.isGlobal_type
  | some q => rw [visibleType?, packageMeant?, hs.visible?_eq hi KindMask.isGlobal_package]

end Store

/-! ## The type under the brackets -/

namespace TypeRef

/-- The type that is named under the brackets of a written type, if it names one from the scope. -/
def base? (s : Store) (scope : ScopeId) : TypeRef → Option TypeId
  | primitive k _ _ => some k.typeId
  | named qualifier name _ _ => (s.visibleType? scope qualifier name).map s.table.typeOf
  | array element _ _ => element.base? s scope

/-- What each level of a written type is resolved to, from what is under the brackets outwards. -/
def annotations : TypeRef → List (Option TypeId)
  | primitive _ _ ty | named _ _ _ ty => [ty]
  | array element _ ty => element.annotations ++ [ty]

variable {s s' : Store} {scope : ScopeId} {p : SymbolId}

theorem base?_bare (s : Store) (scope : ScopeId) (r : TypeRef) :
    r.bare.base? s scope = r.base? s scope := by
  induction r with
  | primitive | named => rfl
  | array element _ _ ih => exact ih

/-- A name is that of a type just if it does not mean the error type. -/
theorem base?_named (hs : s.Sound) (hi : s.table.Inside scope p) (qualifier : Option Ident)
    (name : Ident) (span : Span) (ty : Option TypeId) :
    (named qualifier name span ty).base? s scope =
      if s.meaning p qualifier name = .error then none else some (s.meaning p qualifier name) := by
  rw [base?, hs.visibleType?_eq hi, meaning_eq_typeIn]
  cases s.packageMeant? p qualifier with
  | none => rfl
  | some c =>
    rw [Option.bind_some, Option.map_some, Option.getD_some, typeIn]
    cases hx : s.member? c name.text .type with
    | none => rfl
    | some x =>
      obtain ⟨sym, hsym, hmeets⟩ := symbol?_of_member? hx
      rw [Option.map_some, Option.getD_some, if_neg]
      exact hs.typeOf_ne_error hsym (sym.kind.meets_type_eq_isType ▸ hmeets)

/-- While variables and callables are entered, the type under the brackets stays the same. -/
theorem base?_of_follows {os : List Offer} (h : s.Follows os s') (hs : s.Sound)
    (hos : ∀ o ∈ os, o.Inner) (hi : s.table.Inside scope p) (r : TypeRef) :
    r.base? s' scope = r.base? s scope := by
  induction r with
  | primitive => rfl
  | named qualifier name span ty =>
    rw [base?_named hs hi, base?_named h.sound (hi.mono hs.linked h.grows.table),
      h.meaning_eq hs hos]
  | array element _ _ ih => exact ih

end TypeRef

/-- The type is the `k`-fold array type of `base`. -/
def Types.IsFold (t : Types) (base : TypeId) : Nat → TypeId → Prop
  | 0, ty => ty = base
  | k + 1, ty => ∃ inner, t.IsFold base k inner ∧ t.get? ty = some (.array inner)

namespace TypeRef

variable {s : Store} {scope : ScopeId} {p : SymbolId}

/-- If the whole has the error type, so has every level. -/
theorem ResolvedIn.eq_error_of_mem {r : TypeRef} (h : r.ResolvedIn s p) (hs : s.Sound)
    (hty : r.ty = some .error) : ∀ a ∈ r.annotations, a = some .error := by
  induction r with
  | primitive | named => exact fun a ha => (List.mem_singleton.1 ha).trans hty
  | array element span ty ih =>
    obtain ⟨helement, ty', hty', inner, hinner, harray⟩ := h
    cases hty.symm.trans hty'
    have hinnerTy : inner = .error := by
      by_contra he
      rw [IsArrayOf, if_neg he] at harray
      have herror : s.table.types.get? .error = some .error := hs.types.builtin (by decide)
      cases herror.symm.trans harray.2
    subst hinnerTy
    intro a ha
    rcases List.mem_append.1 ha with ha | ha
    · refine ih helement ?_ a ha
      obtain ⟨ty'', hty'', hmeans⟩ := helement.means
      rw [hty'', (hmeans.eq_error_iff hs).2 ((hinner.eq_error_iff hs).1 rfl)]
    · exact (List.mem_singleton.1 ha).trans hty

/-- If the whole has a type, each level has the array type of the one under it. -/
theorem ResolvedIn.isFold {r : TypeRef} (h : r.ResolvedIn s p) (hs : s.Sound)
    (hi : s.table.Inside scope p) {ty : TypeId} (hty : r.ty = some ty) (hne : ty ≠ .error) :
    ∃ base k, r.base? s scope = some base ∧ s.table.types.IsFold base k ty ∧
      r.annotations.length = k + 1 ∧ ∀ (i : Nat) (a : Option TypeId), r.annotations[i]? = some a →
        ∃ id, a = some id ∧ s.table.types.IsFold base i id := by
  induction r generalizing ty with
  | primitive k span ty' =>
    obtain ⟨ty'', hty'', hmeans⟩ := h
    cases hty.symm.trans hty''
    cases (show ty = k.typeId from hmeans)
    refine ⟨_, 0, rfl, rfl, rfl, fun i a ha => ?_⟩
    obtain ⟨rfl, rfl⟩ : i = 0 ∧ ty' = a := by simpa [annotations, List.getElem?_singleton] using ha
    exact ⟨_, hty, rfl⟩
  | named qualifier name span ty' =>
    obtain ⟨ty'', hty'', hmeans⟩ := h
    cases hty.symm.trans hty''
    have hmeaning : ty = s.meaning p qualifier name := hmeans
    refine ⟨ty, 0, ?_, rfl, rfl, fun i a ha => ?_⟩
    · rw [base?_named hs hi, ← hmeaning, if_neg hne]
    · obtain ⟨rfl, rfl⟩ : i = 0 ∧ ty' = a := by
        simpa [annotations, List.getElem?_singleton] using ha
      exact ⟨_, hty, rfl⟩
  | array element span ty' ih =>
    obtain ⟨helement, ty'', hty'', inner, hinner, harray⟩ := h
    cases hty.symm.trans hty''
    have hinnerNe : inner ≠ .error := fun he => hne (by rwa [IsArrayOf, if_pos he] at harray)
    rw [IsArrayOf, if_neg hinnerNe] at harray
    obtain ⟨inner', hinnerTy, hinner'⟩ := helement.means
    cases hinner.eq_of_shape hinner' rfl
    obtain ⟨base, k, hbase, hfold, hlength, hlevels⟩ := ih helement hinnerTy hinnerNe
    have hfold' : s.table.types.IsFold base (k + 1) ty := ⟨inner, hfold, harray.2⟩
    refine ⟨base, k + 1, hbase, hfold', by simp [annotations, hlength], fun i a ha => ?_⟩
    by_cases hlt : i < k + 1
    · rw [annotations, List.getElem?_append_left (hlength ▸ hlt)] at ha
      exact hlevels i a ha
    · -- Beyond the levels of the element, there is the outermost one.
      rw [annotations, List.getElem?_append_right (by omega), List.getElem?_singleton,
        Option.ite_none_right_eq_some] at ha
      obtain ⟨hi, rfl⟩ : i - element.annotations.length = 0 ∧ ty' = a :=
        ⟨ha.1, Option.some.inj ha.2⟩
      obtain rfl : i = k + 1 := by omega
      exact ⟨ty, hty, hfold'⟩

end TypeRef

/-! ## What resolution changes -/

/-- An array type is made on first use. -/
theorem Types.toList_arrayOf (t : Types) (element : TypeId) : ∃ elements : List TypeId,
    (t.arrayOf element).2.types.toList = t.types.toList ++ elements.map .array := by
  unfold arrayOf
  cases t.arrays.lookup element with
  | some id => exact ⟨[], (List.append_nil _).symm⟩
  | none => exact ⟨[element], Array.toList_push⟩

namespace TypeRef

variable {s : Store} {scope : ScopeId} {p : SymbolId}

/-- Resolving a written type makes array types only, and none for the error type. -/
theorem table_resolve (hs : s.Sound) (hi : s.table.Inside scope p) (r : TypeRef) :
    ∃ (types : Types) (elements : List TypeId),
      (r.resolve scope s).2.table = { s.table with types } ∧
      types.types.toList = s.table.types.types.toList ++ elements.map .array ∧
      ((r.resolve scope s).1.2 = .error → types = s.table.types) := by
  induction r with
  | primitive => exact ⟨s.table.types, [], rfl, (List.append_nil _).symm, fun _ => rfl⟩
  | named qualifier name =>
    obtain ⟨names, heq⟩ := hs.resolveName_eq hi qualifier name
    have htable : (resolveName scope qualifier name s).2.table = s.table := by rw [heq]
    exact ⟨s.table.types, [], htable, (List.append_nil _).symm, fun _ => rfl⟩
  | array element _ _ ih =>
    obtain ⟨types, elements, htable, hlist, herror⟩ := ih
    have hs₁ := (element.run_resolve (m := s.mark) hs hi).1.sound hs
    rw [resolve, run_bind]
    simp only [run_bind, arrayOrError]
    split
    · next he => exact ⟨types, elements, htable, hlist, fun _ => herror he⟩
    · next he =>
      obtain ⟨elements', hlist'⟩ := types.toList_arrayOf (element.resolve scope s).1.2
      refine ⟨(types.arrayOf (element.resolve scope s).1.2).2, elements ++ elements', ?_, ?_,
        fun h => absurd h (hs₁.arrayOf_ne_error _)⟩
      · simp only [run_pure, arrayOf, htable]
      · rw [hlist', hlist, List.map_append, List.append_assoc]

/-- What is resolved already is left as it is. -/
theorem resolve_of_resolvedIn {r : TypeRef} (hs : s.Sound) (hi : s.table.Inside scope p)
    (h : r.ResolvedIn s p) :
    (r.resolve scope s).1.1 = r ∧ (r.resolve scope s).2.table = s.table := by
  induction r with
  | primitive k span ty =>
    obtain ⟨ty', hty, hmeans⟩ := h
    cases (show ty' = k.typeId from hmeans)
    exact ⟨congrArg (primitive k span) hty.symm, rfl⟩
  | named qualifier name span ty =>
    obtain ⟨ty', hty, hmeans⟩ := h
    obtain ⟨names, heq⟩ := hs.resolveName_eq hi qualifier name
    obtain ⟨_, _, hmeaning⟩ := hs.run_resolveName (m := s.mark) hi qualifier name
    have htable : (resolveName scope qualifier name s).2.table = s.table := by rw [heq]
    refine ⟨congrArg (named qualifier name span) ?_, htable⟩
    exact (congrArg some (hmeaning.trans hmeans.symm)).trans hty.symm
  | array element span ty ih =>
    obtain ⟨helement, ty', hty, inner, hinner, harray⟩ := h
    obtain ⟨hsame, htable⟩ := ih helement
    obtain ⟨inner', hinnerTy, hinner'⟩ := helement.means
    cases hinner.eq_of_shape hinner' rfl
    have hresolved := element.resolve_fst_ty scope s
    rw [hsame, hinnerTy] at hresolved
    rw [resolve, run_bind]
    simp only [run_bind, run_pure, ← Option.some.inj hresolved, hsame, arrayOrError]
    split
    · next he =>
      rw [IsArrayOf, if_pos he] at harray
      exact ⟨congrArg (array element span) ((congrArg some harray.symm).trans hty.symm), htable⟩
    · next he =>
      rw [IsArrayOf, if_neg he] at harray
      -- The array type is there already.
      have harrayOf : (element.resolve scope s).2.table.types.arrayOf inner =
          (ty', s.table.types) := by
        rw [htable, Types.arrayOf, harray.1]
      rw [arrayOf, harrayOf]
      exact ⟨congrArg (array element span) hty.symm, by rw [htable]⟩

end TypeRef

/-! ## What resolution comes to -/

/-- What is reported of a written type, if anything is, is its qualifier if that names no visible
    package, and else the name. -/
theorem Store.Sound.reports_eq {s : Store} (hs : s.Sound) {scope : ScopeId} {p : SymbolId}
    (hi : s.table.Inside scope p) {r : TypeRef} (hr : r.reports s p ≠ []) :
    ∃ qualifier name, r.baseName? = some (qualifier, name) ∧
      s.visibleType? scope qualifier name = none ∧
      ((∃ q, qualifier = some q ∧ s.visible? scope q.text .package = none ∧
          r.reports s p = [(Problem.unknownPackage q.text).diagnostic q.span]) ∨
        (∀ q, qualifier = some q → (s.visible? scope q.text .package).isSome) ∧
          r.reports s p = [(Problem.unknownType (TypeRef.qualifiedText qualifier name)).diagnostic
            name.span]) := by
  unfold TypeRef.reports at hr ⊢
  cases hb : r.baseName? with
  | none =>
    rw [hb] at hr
    exact absurd rfl hr
  | some b =>
    obtain ⟨qualifier, name⟩ := b
    rw [hb] at hr
    refine ⟨qualifier, name, rfl, ?_⟩
    rw [hs.visibleType?_eq hi]
    simp only [Option.bind_some, misnaming?] at hr ⊢
    cases hp : s.packageMeant? p qualifier with
    | none =>
      cases qualifier with
      | none => cases hp
      | some q =>
        exact ⟨rfl, .inl ⟨q, rfl, (hs.visible?_eq hi KindMask.isGlobal_package).trans hp, rfl⟩⟩
    | some c =>
      rw [hp] at hr
      simp only [Option.bind_some] at hr ⊢
      cases hx : s.member? c name.text .type with
      | some x =>
        simp only [hx] at hr
        exact absurd rfl hr
      | none =>
        refine ⟨rfl, .inr ⟨fun q hq => ?_, rfl⟩⟩
        rw [hs.visible?_eq hi KindMask.isGlobal_package]
        exact Option.isSome_iff_exists.2 ⟨c, by rw [← hp, hq, packageMeant?]⟩

namespace Session

/-- From the session `s`, the written type `r` is resolved to `r'` in the session `s'`, seen from
    `scope`, and gets the type `ty`. -/
structure Resolves (s : Session) (scope : ScopeId) (r r' : TypeRef) (ty : TypeId) (s' : Session) :
    Prop where
  /-- The written type is as it was, but for what its levels are resolved to. -/
  written : r'.bare = r.bare
  outermost : r'.ty = some ty
  /-- The type is the error type just if exactly one problem is reported. -/
  reported : ty = .error ↔ ∃ d, s'.store.log = s.store.log ++ [d]
  quiet : ty ≠ .error → s'.store.log = s.store.log
  /-- What is reported is the qualifier if it names no visible package, and else the name. -/
  failure : ty = .error → ∃ qualifier name, r.baseName? = some (qualifier, name) ∧
    s.store.visibleType? scope qualifier name = none ∧
    ((∃ q, qualifier = some q ∧ s.store.visible? scope q.text .package = none ∧
        s'.store.log = s.store.log ++ [(Problem.unknownPackage q.text).diagnostic q.span]) ∨
      (∀ q, qualifier = some q → (s.store.visible? scope q.text .package).isSome) ∧
        s'.store.log = s.store.log ++
          [(Problem.unknownType (TypeRef.qualifiedText qualifier name)).diagnostic name.span])
  /-- If the whole has the error type, so has every level, and no type is made. -/
  failed : ty = .error → (∀ a ∈ r'.annotations, a = some .error) ∧
    s'.store.table.types = s.store.table.types
  /-- If not, a type is named under the brackets, and each level has its array type. -/
  levels : ty ≠ .error → ∃ base, r.base? s.store scope = some base ∧
    ∀ (k : Nat) (a : Option TypeId), r'.annotations[k]? = some a →
      ∃ id, a = some id ∧ s'.store.table.types.IsFold base k id
  registry : s'.registry = s.registry
  config : s'.config = s.config
  symbols : s'.store.table.symbols = s.store.table.symbols
  scopes : s'.store.table.scopes = s.store.table.scopes
  packages : s'.store.table.packages = s.store.table.packages
  /-- The types that are made are array types. -/
  types : ∃ elements : List TypeId, s'.store.table.types.types.toList =
    s.store.table.types.types.toList ++ elements.map .array
  /-- Resolving what came out once more yields the same and makes no type. -/
  again : (onStore (r'.resolve scope) s').1 = (r', ty) ∧
    (onStore (r'.resolve scope) s').2.store.table = s'.store.table

/-- From every scope of a session that comes up, resolving a written type yields the type that it
    names, or the error type with one report, and touches nothing but the array types. -/
theorem Arises.resolves {s : Session} (h : s.Arises) {scope : ScopeId}
    (hscope : (s.store.table.scope? scope).isSome) (r : TypeRef) :
    let out := onStore (r.resolve scope) s
    s.Resolves scope r out.1.1 out.1.2 out.2 := by
  have hs := h.sound
  obtain ⟨sc, hsc⟩ := Option.isSome_iff_exists.1 hscope
  obtain ⟨p, hi⟩ := hs.linked.exists_inside hsc
  obtain ⟨hrun, _, hr⟩ := r.run_resolve (m := s.store.mark) hs hi
  have hf := hrun.follows hs
  have hi' := hi.mono hs.linked hf.grows.table
  have hty := r.resolve_fst_ty scope s.store
  have hlog := r.log_resolve hs hi
  have herror := r.resolve_eq_error_iff hs hi
  obtain ⟨types, elements, htable, hlist, hfailed⟩ := r.table_resolve hs hi
  have hone : r.reports s.store p ≠ [] ↔ ∃ d, r.reports s.store p = [d] := by
    rw [TypeRef.reports]
    cases r.baseName?.bind fun b => s.store.misnaming? p b.1 b.2 <;> simp
  intro out
  replace htable : out.2.store.table = { s.store.table with types } := htable
  exact {
    written := r.bare_resolve scope s.store
    outermost := hty
    reported := by
      refine herror.trans (hone.trans (exists_congr fun d => ?_))
      rw [show out.2.store.log = _ from hlog, List.append_cancel_left_eq]
    quiet := fun hne => by
      have hnil := not_not.1 (mt herror.2 hne)
      exact hlog.trans (by rw [hnil, List.append_nil])
    failure := fun he => by
      obtain ⟨qualifier, name, hb, hnone, hreports⟩ := hs.reports_eq hi (herror.1 he)
      refine ⟨qualifier, name, hb, hnone, ?_⟩
      rcases hreports with ⟨q, hq, hp, hd⟩ | ⟨hq, hd⟩
      · exact .inl ⟨q, hq, hp, hlog.trans (by rw [hd])⟩
      · exact .inr ⟨hq, hlog.trans (by rw [hd])⟩
    failed := fun he => by
      refine ⟨hr.eq_error_of_mem hf.sound (hty.trans (congrArg some he)), ?_⟩
      rw [htable, hfailed he]
    levels := fun hne => by
      obtain ⟨base, _, hbase, _, _, hlevels⟩ := hr.isFold hf.sound hi' hty hne
      refine ⟨base, ?_, hlevels⟩
      have hnone : ∀ o ∈ ([] : List Offer), o.Inner := fun _ ho => absurd ho List.not_mem_nil
      rw [← TypeRef.base?_of_follows hf hs hnone hi r, ← hbase, ← TypeRef.base?_bare,
        ← TypeRef.base?_bare _ scope (r.resolve scope s.store).1.1, r.bare_resolve]
    registry := rfl
    config := rfl
    symbols := by rw [htable]
    scopes := by rw [htable]
    packages := by rw [htable]
    types := ⟨elements, by rw [htable, hlist]⟩
    again := by
      obtain ⟨hsame, hkept⟩ := TypeRef.resolve_of_resolvedIn hf.sound hi' hr
      have hty' := TypeRef.resolve_fst_ty scope (r.resolve scope s.store).1.1
        (r.resolve scope s.store).2
      rw [hsame, hty] at hty'
      exact ⟨Prod.ext hsame (Option.some.inj hty').symm, hkept⟩ }

/-- An array of arrays of a struct, and one of a struct of a package that is not imported, seen from
    the scope of a function. -/
theorem resolves_arrays :
    let name (text : String) : Ident := ⟨text, .origin⟩
    let twice (r : TypeRef) : TypeRef := .array (.array r .origin none) .origin none
    let p : Package :=
      { structs := [{ span := .origin, name := name "S" }]
        functions := [.mk { span := .origin, name := name "f" } []] }
    let s := (start {} {} {}).after [.define p]
    let r := twice (.named none (name "S") .origin none)
    let r' := twice (.named (some (name "x")) (name "S") .origin none)
    let out := onStore (r.resolve ⟨3⟩) s
    let out' := onStore (r'.resolve ⟨3⟩) s
    s.Resolves ⟨3⟩ r out.1.1 out.1.2 out.2 ∧ s.Resolves ⟨3⟩ r' out'.1.1 out'.1.2 out'.2 ∧
      out.1.1.annotations = [some ⟨12⟩, some ⟨15⟩, some ⟨16⟩] ∧
      out'.2.store.log.map (·.code) = ["E0104"] := by
  intro name twice p s r r'
  have h : s.Arises := .between ((Reachable.start {} {} {}).after [.define p])
  have hscope : (s.store.table.scope? ⟨3⟩).isSome := by decide +kernel
  refine ⟨h.resolves hscope r, h.resolves hscope r', ?_, ?_⟩
  · decide +kernel
  · decide +kernel

end Session

end Binder
