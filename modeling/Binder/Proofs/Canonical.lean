import Binder.Proofs.Entry.Ending
import Binder.Proofs.Resolution
import Binder.Proofs.TypeTable

/-!
# Handles of types are canonical

A type has one handle in a session. Take two written types that were resolved in the same session,
whenever that was and from wherever: in the course of requests, in packages of the caller or of the
library, or between requests from any scope. They have the same handle exactly if they have as many
brackets, and what is named under these is the same primitive type or the same symbol, be it by its
own name or through one import or another.

* `TypeRef.Subject`: what a written type names under its brackets.
* `Store.IsFoldOf`: the array types of a subject.
* `Store.Sound.eq_iff_of_isFoldOf`: no two of them are the same, and none is made twice.
* `Session.Resolved`: the written types that have been resolved in a session.
* `Session.Resolved.ty_eq_iff`: when two of them have the same handle.
-/

namespace Binder

open Store

/-! ## Subjects -/

namespace TypeRef

/-- What a written type names under its brackets: a primitive type, or a struct, connector or
    service. -/
inductive Subject
  | primitive (p : Primitive)
  | symbol (x : SymbolId)
deriving DecidableEq

/-- The subject of a written type, if it names one from the scope. -/
def subject? (s : Store) (scope : ScopeId) : TypeRef → Option Subject
  | primitive p _ _ => some (.primitive p)
  | named qualifier name _ _ => (s.visibleType? scope qualifier name).map .symbol
  | array element _ _ => element.subject? s scope

/-- How many brackets there are. -/
def depth : TypeRef → Nat
  | primitive .. | named .. => 0
  | array element _ _ => element.depth + 1

theorem subject?_bare (s : Store) (scope : ScopeId) (r : TypeRef) :
    r.bare.subject? s scope = r.subject? s scope := by
  induction r with
  | primitive | named => rfl
  | array element _ _ ih => exact ih

/-- While variables and callables are entered, the subject stays the same. -/
theorem subject?_of_follows {s s' : Store} {scope : ScopeId} {p : SymbolId} {os : List Offer}
    (h : s.Follows os s') (hs : s.Sound) (hos : ∀ o ∈ os, o.Inner) (hi : s.table.Inside scope p)
    (r : TypeRef) : r.subject? s' scope = r.subject? s scope := by
  induction r with
  | primitive => rfl
  | named qualifier name =>
    have hmember : ∀ c, s'.member? c name.text .type = s.member? c name.text .type := fun c =>
      h.member?_eq hs (fun o ho => (hos o ho).not_meets KindMask.isGlobal_type) c name.text
    rw [subject?, subject?, hs.visibleType?_eq hi,
      h.sound.visibleType?_eq (hi.mono hs.linked h.grows.table), h.packageMeant?_eq hs hos,
      funext hmember]
  | array element _ _ ih => exact ih

end TypeRef

open TypeRef (Subject)

/-- The subject that a type names itself. -/
def Ty.names? : Ty → Option Subject
  | .primitive p => some (.primitive p)
  | ty => ty.subject?.map .symbol

theorem Ty.names?_of_subject? {ty : Ty} {x : SymbolId} (h : ty.subject? = some x) :
    ty.names? = some (.symbol x) := by
  cases ty with
  | primitive => cases h
  | _ => exact congrArg (Option.map Subject.symbol) h

/-- The subject has the type `id`. -/
def Table.IsTypeFor (t : Table) : Subject → TypeId → Prop
  | .primitive p, id => id = p.typeId
  | .symbol x, id => t.IsTypeOf x id

namespace Store

variable {s s' : Store} {a b : Subject} {ty ty' : TypeId}

/-- The type of a subject names it. -/
theorem Sound.names?_of_isTypeFor (hs : s.Sound) (h : s.table.IsTypeFor a ty) :
    (s.table.types.get? ty).bind Ty.names? = some a := by
  cases a with
  | primitive p =>
    cases (show ty = p.typeId from h)
    rw [show s.table.types.get? p.typeId = _ from hs.types.builtin (Ty.builtins_primitive p)]
    rfl
  | symbol x =>
    obtain ⟨ty', hget, hsubject⟩ := hs.linked.subject?_of_isTypeOf h
    rw [hget]
    exact Ty.names?_of_subject? hsubject

/-- Every subject has one type, and no two have the same. -/
theorem Sound.eq_iff_of_isTypeFor (hs : s.Sound) (h : s.table.IsTypeFor a ty)
    (h' : s.table.IsTypeFor b ty') : ty = ty' ↔ a = b := by
  constructor
  · rintro rfl
    exact Option.some.inj ((hs.names?_of_isTypeFor h).symm.trans (hs.names?_of_isTypeFor h'))
  · rintro rfl
    cases a with
    | primitive p => exact h.trans h'.symm
    | symbol x =>
      obtain ⟨sym, hsym, _, hty⟩ := h
      obtain ⟨sym', hsym', _, hty'⟩ := h'
      cases hsym.symm.trans hsym'
      exact Option.some.inj (hty.symm.trans hty')

theorem isTypeFor_mono (h : s.table.IsTypeFor a ty) (g : s.Grows s') :
    s'.table.IsTypeFor a ty := by
  cases a with
  | primitive p => exact h
  | symbol x =>
    obtain ⟨sym, hsym, hk, hty⟩ := h
    obtain ⟨sym', hsym', hcore, hty'⟩ := g.table.symbol hsym
    exact ⟨sym', hsym', (Symbol.eq_of_core Symbol.kind (fun _ => rfl) hcore).symm ▸ hk,
      hty' _ hty⟩

/-! ## Array types of subjects -/

/-- The type is the `k`-fold array type of the subject. -/
def IsFoldOf (s : Store) (a : Subject) : Nat → TypeId → Prop
  | 0, ty => s.table.IsTypeFor a ty
  | k + 1, ty => ∃ inner, s.IsFoldOf a k inner ∧ s.IsArrayOf inner ty

variable {j k : Nat}

theorem IsFoldOf.mono (h : s.IsFoldOf a k ty) (g : s.Grows s') : s'.IsFoldOf a k ty := by
  induction k generalizing ty with
  | zero => exact isTypeFor_mono h g
  | succ k ih =>
    obtain ⟨inner, hinner, harray⟩ := h
    exact ⟨inner, ih hinner, harray.mono g⟩

theorem Sound.ne_error_of_isFoldOf (hs : s.Sound) (h : s.IsFoldOf a k ty) : ty ≠ .error := by
  have herror : s.table.types.get? .error = some .error := hs.types.builtin (by decide)
  rintro rfl
  induction k with
  | zero =>
    have hnames := hs.names?_of_isTypeFor h
    rw [herror] at hnames
    cases hnames
  | succ k ih =>
    obtain ⟨inner, hinner, harray⟩ := h
    by_cases he : inner = .error
    · exact ih (he ▸ hinner)
    · rw [IsArrayOf, if_neg he] at harray
      cases herror.symm.trans harray.2

/-- An array type is found by its element type, and says what that is. -/
theorem Sound.array_of_isFoldOf (hs : s.Sound) (h : s.IsFoldOf a (k + 1) ty) :
    ∃ inner, s.IsFoldOf a k inner ∧ s.table.types.arrays.lookup inner = some ty ∧
      s.table.types.get? ty = some (.array inner) := by
  obtain ⟨inner, hinner, harray⟩ := h
  rw [IsArrayOf, if_neg (hs.ne_error_of_isFoldOf hinner)] at harray
  exact ⟨inner, hinner, harray⟩

/-- The type of a subject is no array type. -/
theorem Sound.ne_of_isFoldOf_succ (hs : s.Sound) (h : s.IsFoldOf a 0 ty)
    (h' : s.IsFoldOf b (k + 1) ty') : ty ≠ ty' := by
  rintro rfl
  obtain ⟨_, _, _, hget⟩ := hs.array_of_isFoldOf h'
  have hnames := hs.names?_of_isTypeFor h
  rw [hget] at hnames
  cases hnames

/-- Array types of subjects are the same only if they are as many-fold and those of the same subject,
    and then they are. -/
theorem Sound.eq_iff_of_isFoldOf (hs : s.Sound) (h : s.IsFoldOf a j ty) (h' : s.IsFoldOf b k ty') :
    ty = ty' ↔ j = k ∧ a = b := by
  induction j generalizing k ty ty' with
  | zero =>
    cases k with
    | zero => rw [hs.eq_iff_of_isTypeFor h h', eq_self, true_and]
    | succ k => exact iff_of_false (hs.ne_of_isFoldOf_succ h h') fun heq => nomatch heq.1
  | succ j ih =>
    cases k with
    | zero => exact iff_of_false (hs.ne_of_isFoldOf_succ h' h).symm fun heq => nomatch heq.1
    | succ k =>
      obtain ⟨inner, hinner, hlookup, hget⟩ := hs.array_of_isFoldOf h
      obtain ⟨inner', hinner', hlookup', hget'⟩ := hs.array_of_isFoldOf h'
      rw [Nat.add_right_cancel_iff, ← ih hinner hinner']
      constructor
      · rintro rfl
        exact Ty.array.inj (Option.some.inj (hget.symm.trans hget'))
      · rintro rfl
        exact Option.some.inj (hlookup.symm.trans hlookup')

/-- What a name means, if that is a type, is the type of a struct, connector or service. -/
theorem Sound.isTypeOf_meaning (hs : s.Sound) {scope : ScopeId} {p : SymbolId}
    (hi : s.table.Inside scope p) {qualifier : Option Ident} {name : Ident}
    (hne : s.meaning p qualifier name ≠ .error) :
    ∃ x, s.visibleType? scope qualifier name = some x ∧
      s.table.IsTypeOf x (s.meaning p qualifier name) := by
  have hbase := TypeRef.base?_named hs hi qualifier name .origin none
  rw [if_neg hne, TypeRef.base?, Option.map_eq_some_iff] at hbase
  obtain ⟨x, hx, htype⟩ := hbase
  have hmember := hx
  rw [hs.visibleType?_eq hi, Option.bind_eq_some_iff] at hmember
  obtain ⟨c, _, hmember⟩ := hmember
  obtain ⟨sym, hsym, hmeets⟩ := symbol?_of_member? hmember
  rw [← htype]
  exact ⟨x, hx, hs.linked.isTypeOf_typeOf (congrArg (Option.map Symbol.kind) hsym)
    (sym.kind.meets_type_eq_isType ▸ hmeets)⟩

/-- A written type means an array type of its subject, as many-fold as it has brackets. -/
theorem Means.isFoldOf {scope : ScopeId} {p : SymbolId} {r : TypeRef} (h : s.Means p r ty)
    (hs : s.Sound) (hi : s.table.Inside scope p) (hne : ty ≠ .error) :
    ∃ a, r.subject? s scope = some a ∧ s.IsFoldOf a r.depth ty := by
  induction r generalizing ty with
  | primitive k => exact ⟨_, rfl, h⟩
  | named qualifier name =>
    cases (show ty = s.meaning p qualifier name from h)
    obtain ⟨x, hx, htype⟩ := hs.isTypeOf_meaning hi hne
    exact ⟨.symbol x, congrArg (Option.map Subject.symbol) hx, htype⟩
  | array element _ _ ih =>
    obtain ⟨inner, hinner, harray⟩ := h
    have hinnerNe : inner ≠ .error := fun he => hne (by rwa [IsArrayOf, if_pos he] at harray)
    obtain ⟨a, ha, hfold⟩ := ih hinner hinnerNe
    exact ⟨a, ha, inner, hfold, harray⟩

end Store

/-! ## Written types that have been resolved -/

namespace Session

/-- The sessions that come up when requests are answered and written types are resolved, in any
    order. -/
inductive InUse : Session → Prop
  | start (names : Names) (config : Config) (library : Library) :
    InUse (start names config library)
  | request {s : Session} (r : Request) : InUse s → InUse (respond r s).2
  | resolve {s : Session} {scope : ScopeId} (r : TypeRef) : InUse s →
    (s.store.table.scope? scope).isSome → InUse (onStore (r.resolve scope) s).2

/-- In the course of what led to a session, a written type was resolved, which came out as it is given
    here. The subject is the one it had then, seen from where it was resolved. -/
inductive Resolved : Session → TypeRef → Option Subject → Prop
  /-- It is written in a package that was entered with success, be it for the caller or for an
      import. It can be seen from any scope of the package. -/
  | declared {s : Session} {r : Request} {e : Ending} {v : VarDecl} {scope : ScopeId} : InUse s →
    e ∈ r.endings s → v ∈ e.package.allVars → e.store.table.Inside scope e.symbol →
    Resolved (respond r s).2 v.type (v.type.subject? e.store scope)
  /-- It was resolved for the caller. -/
  | called {s : Session} {scope : ScopeId} (r : TypeRef) : InUse s →
    (s.store.table.scope? scope).isSome →
    Resolved (onStore (r.resolve scope) s).2 (r.resolve scope s.store).1.1 (r.subject? s.store scope)
  /-- It is the element type of one that was resolved. -/
  | element {s : Session} {element : TypeRef} {span : Span} {ty : Option TypeId}
      {a : Option Subject} : Resolved s (.array element span ty) a → Resolved s element a
  | request {s : Session} {r : TypeRef} {a : Option Subject} (request : Request) :
    Resolved s r a → Resolved (respond request s).2 r a
  | resolve {s : Session} {r : TypeRef} {a : Option Subject} {scope : ScopeId} (r' : TypeRef) :
    Resolved s r a → (s.store.table.scope? scope).isSome →
    Resolved (onStore (r'.resolve scope) s).2 r a

variable {s : Session} {r r' : TypeRef} {a a' : Option Subject} {scope : ScopeId}

/-- Resolving a written type runs in the store. -/
theorem Sound.resolve (hs : s.Sound) (hscope : (s.store.table.scope? scope).isSome) (r : TypeRef) :
    (onStore (r.resolve scope) s).2.Sound ∧ s.Leads (onStore (r.resolve scope) s).2 := by
  obtain ⟨sc, hsc⟩ := Option.isSome_iff_exists.1 hscope
  obtain ⟨p, hi⟩ := hs.store.linked.exists_inside hsc
  exact hs.run hs (.refl s) (r.run_resolve hs.store hi).1

theorem InUse.sound (h : s.InUse) : s.Sound := by
  induction h with
  | start names config library => exact sound_start names config library
  | request r _ ih => exact (respond_spec r ih).1
  | resolve r _ hscope ih => exact (ih.resolve hscope r).1

theorem Resolved.sound (h : s.Resolved r a) : s.Sound := by
  induction h with
  | declared h => exact (respond_spec _ h.sound).1
  | called r h hscope => exact (h.sound.resolve hscope r).1
  | element _ ih => exact ih
  | request r _ ih => exact (respond_spec r ih).1
  | resolve r _ hscope ih => exact (ih.resolve hscope r).1

/-- What has been resolved has its types in a store that has only grown since. -/
theorem Resolved.exists_resolvedIn (h : s.Resolved r a) :
    ∃ (u : Store) (i : ScopeId) (p : SymbolId), u.Sound ∧ u.table.Inside i p ∧
      r.ResolvedIn u p ∧ a = r.subject? u i ∧ u.Grows s.store := by
  induction h with
  | @declared s r e v scope h he hv hi =>
    have hlasts := r.lasts_of_mem_endings h.sound e he
    exact ⟨e.store, scope, e.symbol, hlasts.sound, hi, hlasts.resolved v hv, rfl, hlasts.grows⟩
  | @called s scope r h hscope =>
    have hs := h.sound.store
    obtain ⟨sc, hsc⟩ := Option.isSome_iff_exists.1 hscope
    obtain ⟨p, hi⟩ := hs.linked.exists_inside hsc
    obtain ⟨hrun, _, hr⟩ := r.run_resolve (m := s.store.mark) hs hi
    have hf := hrun.follows hs
    have hnone : ∀ o ∈ ([] : List Offer), o.Inner := fun _ ho => absurd ho List.not_mem_nil
    refine ⟨_, scope, p, hf.sound, hi.mono hs.linked hf.grows.table, hr, ?_, .refl _⟩
    rw [← TypeRef.subject?_of_follows hf hs hnone hi r, ← TypeRef.subject?_bare,
      ← TypeRef.subject?_bare _ scope (r.resolve scope s.store).1.1, r.bare_resolve]
  | element _ ih =>
    obtain ⟨u, i, p, hu, hi, hr, ha, g⟩ := ih
    exact ⟨u, i, p, hu, hi, hr.1, ha, g⟩
  | request r h ih =>
    obtain ⟨u, i, p, hu, hi, hr, ha, g⟩ := ih
    exact ⟨u, i, p, hu, hi, hr, ha, g.trans (respond_spec r h.sound).2.keeps.grows⟩
  | resolve r h hscope ih =>
    obtain ⟨u, i, p, hu, hi, hr, ha, g⟩ := ih
    exact ⟨u, i, p, hu, hi, hr, ha, g.trans (h.sound.resolve hscope r).2.keeps.grows⟩

/-- What has been resolved to a type has a subject, and the type is an array type of that. -/
theorem Resolved.isFoldOf (h : s.Resolved r a) {ty : TypeId} (hty : r.ty = some ty)
    (hne : ty ≠ .error) : ∃ x, a = some x ∧ s.store.IsFoldOf x r.depth ty := by
  obtain ⟨u, i, p, hu, hi, hr, ha, g⟩ := h.exists_resolvedIn
  obtain ⟨ty', hty', hmeans⟩ := hr.means
  cases hty.symm.trans hty'
  obtain ⟨x, hx, hfold⟩ := hmeans.isFoldOf hu hi hne
  exact ⟨x, ha.trans hx, hfold.mono g⟩

/-- Two written types that have been resolved in a session have the same handle exactly if they have
    as many brackets and the same subject. -/
theorem Resolved.ty_eq_iff (h : s.Resolved r a) (h' : s.Resolved r' a') {ty ty' : TypeId}
    (hty : r.ty = some ty) (hty' : r'.ty = some ty') (hne : ty ≠ .error) (hne' : ty' ≠ .error) :
    a.isSome ∧ a'.isSome ∧ (ty = ty' ↔ r.depth = r'.depth ∧ a = a') := by
  obtain ⟨x, rfl, hfold⟩ := h.isFoldOf hty hne
  obtain ⟨x', rfl, hfold'⟩ := h'.isFoldOf hty' hne'
  refine ⟨rfl, rfl, ?_⟩
  rw [h.sound.store.eq_iff_of_isFoldOf hfold hfold', Option.some_inj]

/-- Arrays of the struct of an imported package, which goes by two aliases in the importing package
    and by its own name in its own. -/
theorem resolved_by_three_names :
    let name (text : String) : Ident := ⟨text, .origin⟩
    let array (r : TypeRef) (ty : Option TypeId) : TypeRef := .array r .origin ty
    let P (qualifier : Option String) (ty : Option TypeId) : TypeRef :=
      .named (qualifier.map name) (name "P") .origin ty
    let i (text : String) : Import :=
      { span := .origin, path := [name "geo"], asName := some (name text) }
    let field (text : String) (type : TypeRef) : VarDecl :=
      { span := .origin, name := name text, type }
    let p : Package :=
      { imports := [i "a", i "b"]
        structs := [{ span := .origin, name := name "S", fields :=
          [field "f" (array (P "a" none) none), field "g" (array (array (P "b" none) none) none)] }] }
    let s := start {} {} (Library.insert {} "geo" none
      { structs := [{ span := .origin, name := name "P" }] })
    let t := (onStore ((array (P none none) none).resolve ⟨2⟩) (respond (.define p) s).2).2
    let viaA := array (P "a" (some ⟨12⟩)) (some ⟨15⟩)
    let viaB := array (P "b" (some ⟨12⟩)) (some ⟨15⟩)
    let inGeo := array (P none (some ⟨12⟩)) (some ⟨15⟩)
    let refs := [viaA, viaB, array viaB (some ⟨16⟩), inGeo]
    (∀ r ∈ refs, t.Resolved r (some (.symbol ⟨3⟩)) ∧ ∃ ty, r.ty = some ty ∧ ty ≠ .error) ∧
      ∀ r ∈ refs, ∀ r' ∈ refs, r.ty = r'.ty ↔ r.depth = r'.depth := by
  intro name array P i field p s t viaA viaB inGeo refs
  have hstart : s.InUse := .start {} {} _
  have hscope : ((respond (.define p) s).2.store.table.scope? ⟨2⟩).isSome := by decide +kernel
  -- The fields are seen from the scope of the importing package.
  have hdeclared : ∀ r ∈ [viaA, array viaB (some ⟨16⟩)], t.Resolved r (some (.symbol ⟨3⟩)) := by
    have hfields : ∀ r ∈ [viaA, array viaB (some ⟨16⟩)], ∃ e ∈ (Request.define p).endings s,
        ∃ v ∈ e.package.allVars, v.type = r ∧ e.store.table.scopeOf e.symbol = some ⟨1⟩ ∧
          e.store.table.kindOf e.symbol = some .package ∧
          v.type.subject? e.store ⟨1⟩ = some (.symbol ⟨3⟩) := by
      decide +kernel
    intro r hr
    obtain ⟨e, he, v, hv, rfl, hi, hk, hsubject⟩ := hfields r hr
    rw [← hsubject]
    exact .resolve _ (.declared hstart he hv (.here hi hk)) hscope
  have hcalled : t.Resolved inGeo (some (.symbol ⟨3⟩)) := by
    have h := Resolved.called (array (P none none) none) (hstart.request (.define p)) hscope
    rw [show ((array (P none none) none).resolve ⟨2⟩ (respond (.define p) s).2.store).1.1 = inGeo by
        decide +kernel,
      show (array (P none none) none).subject? (respond (.define p) s).2.store ⟨2⟩ =
        some (.symbol ⟨3⟩) by decide +kernel] at h
    exact h
  have hA := hdeclared viaA List.mem_cons_self
  have hB := hdeclared _ (List.mem_cons_of_mem _ List.mem_cons_self)
  have hrefs : ∀ r ∈ refs,
      t.Resolved r (some (.symbol ⟨3⟩)) ∧ ∃ ty, r.ty = some ty ∧ ty ≠ .error := by
    intro r hr
    simp only [refs, List.mem_cons, List.not_mem_nil, or_false] at hr
    rcases hr with rfl | rfl | rfl | rfl
    · exact ⟨hA, _, rfl, by decide⟩
    · exact ⟨hB.element, _, rfl, by decide⟩
    · exact ⟨hB, _, rfl, by decide⟩
    · exact ⟨hcalled, _, rfl, by decide⟩
  refine ⟨hrefs, fun r hr r' hr' => ?_⟩
  obtain ⟨h, ty, hty, hne⟩ := hrefs r hr
  obtain ⟨h', ty', hty', hne'⟩ := hrefs r' hr'
  obtain ⟨_, _, hiff⟩ := h.ty_eq_iff h' hty hty' hne hne'
  rw [hty, hty', Option.some_inj, hiff, eq_self, and_true]

end Session

end Binder
