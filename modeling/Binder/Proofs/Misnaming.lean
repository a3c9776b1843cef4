import Binder.Proofs.Bare
import Binder.Proofs.Resolve

/-!
# Names that mean no type

A name that is written in a type is reported exactly if it means no type: at its qualifier if that
names no package, and else at the name. So of a written type at most one problem is reported, namely
if the type that it gets is the error type.

* `Store.misnaming?`: what is reported of a name.
* `TypeRef.reports`: what is reported of a written type.
* `Store.Sound.resolveName_eq`, `TypeRef.log_resolve`: what resolution adds to the log.
* `TypeRef.resolve_eq_error_iff`: a written type gets the error type just if that is reported.
-/

namespace Binder

namespace Store

/-- What is reported of a name in the package `p`, if it means no type there. -/
def misnaming? (s : Store) (p : SymbolId) (qualifier : Option Ident) (name : Ident) :
    Option Diagnostic :=
  match s.packageMeant? p qualifier with
  | none => qualifier.map fun q => (Problem.unknownPackage q.text).diagnostic q.span
  | some package =>
    match s.member? package name.text .type with
    | none =>
      some ((Problem.unknownType (TypeRef.qualifiedText qualifier name)).diagnostic name.span)
    | some _ => none

end Store

/-- What is reported of a written type in the package `p`: what is to be said of the name under its
    brackets. -/
def TypeRef.reports (s : Store) (p : SymbolId) (r : TypeRef) : Log :=
  (r.baseName?.bind fun b => s.misnaming? p b.1 b.2).toList

namespace Store

variable {s s' : Store} {p : SymbolId} {scope : ScopeId}

/-! ## What is reported of a name -/

/-- While variables and callables are entered, the same is to be said of a name. -/
theorem Follows.misnaming?_eq {os : List Offer} (h : s.Follows os s') (hs : s.Sound)
    (hos : ∀ o ∈ os, o.Inner) (p : SymbolId) (qualifier : Option Ident) (name : Ident) :
    s'.misnaming? p qualifier name = s.misnaming? p qualifier name := by
  have htype (c : SymbolId) := h.member?_eq hs
    (fun o ho => (hos o ho).not_meets KindMask.isGlobal_type) c name.text
  rw [misnaming?, misnaming?, h.packageMeant?_eq hs hos]
  cases s.packageMeant? p qualifier with
  | none => rfl
  | some package => simp only [htype]

/-- While variables and callables are entered, the same is to be said of a written type. -/
theorem Follows.reports_eq {os : List Offer} (h : s.Follows os s') (hs : s.Sound)
    (hos : ∀ o ∈ os, o.Inner) (p : SymbolId) (r : TypeRef) : r.reports s' p = r.reports s p := by
  simp only [TypeRef.reports, h.misnaming?_eq hs hos]

/-- What a look-up did not find is reported. -/
theorem typeFound_eq (qualifier : Option Ident) (name : Ident) (outcome : Lookup) :
    (typeFound qualifier name outcome s).2 =
      { s with
        log := s.log ++
          if outcome.symbol?.isSome then []
          else [(Problem.unknownType (TypeRef.qualifiedText qualifier name)).diagnostic
            name.span] } := by
  rw [typeFound]
  cases outcome.symbol? with
  | some x => rw [Option.isSome_some, if_pos rfl, List.append_nil]; rfl
  | none => rfl

/-- Resolving a name makes names only, and reports what is to be said of it. -/
theorem Sound.resolveName_eq (hs : s.Sound) (hi : s.table.Inside scope p)
    (qualifier : Option Ident) (name : Ident) : ∃ names, (resolveName scope qualifier name s).2 =
      { s with names, log := s.log ++ (s.misnaming? p qualifier name).toList } := by
  have hnone : ∀ o ∈ ([] : List Offer), o.Inner := fun o ho => absurd ho List.not_mem_nil
  -- The text of the name is looked up when it is a name, which changes the meaning of none.
  have hintern : Run s.mark s [] (intern name.text s).2 := .intern s _
  have hs₁ := hintern.sound hs
  have hname : (intern name.text s).2.names.text? (intern name.text s).1 = some name.text :=
    s.names.text?_intern name.text
  have hmember := hs₁.symbol?_lookup (s := (intern name.text s).2) hi KindMask.isGlobal_type hname
  rw [← (hintern.follows hs).misnaming?_eq hs hnone]
  unfold resolveName
  rw [run_bind]
  cases qualifier with
  | none =>
    refine ⟨(intern name.text s).2.names, ?_⟩
    simp only [run_bind, run_get, typeFound_eq, hmember, misnaming?, packageMeant?]
    cases (intern name.text s).2.member? p name.text .type <;> rfl
  | some q =>
    have hintern' : Run s.mark (intern name.text s).2 [] (intern q.text (intern name.text s).2).2 :=
      .intern _ _
    rw [← (hintern'.follows hs₁).misnaming?_eq hs₁ hnone]
    have hs₂ := hintern'.sound hs₁
    have hname₂ := (hintern'.grows hs₁).text? hname
    have himport := hs₂.symbol?_lookup (s := (intern q.text (intern name.text s).2).2)
      (n := (intern q.text (intern name.text s).2).1) hi KindMask.isGlobal_package
      (Names.text?_intern _ q.text)
    refine ⟨(intern q.text (intern name.text s).2).2.names, ?_⟩
    simp only [run_bind, run_get, Table.importedScope?, misnaming?, packageMeant?]
    rw [himport]
    cases hp : (intern q.text (intern name.text s).2).2.member? p q.text .package with
    | none => rfl
    | some package =>
      obtain ⟨inner, hinner⟩ := hs₂.exists_scopeOf_package hp
      have hmember : ((intern q.text (intern name.text s).2).2.table.lookupMember inner
          (intern name.text s).1 .type).symbol? = _ := hs₂.symbol?_lookupMember hinner hname₂
      simp only [Option.bind_some, hinner, run_bind, run_get, typeFound_eq, hmember]
      cases (intern q.text (intern name.text s).2).2.member? package name.text .type <;> rfl

/-- A name means the error type just if that is reported. -/
theorem Sound.meaning_eq_error_iff (hs : s.Sound) (p : SymbolId) (qualifier : Option Ident)
    (name : Ident) :
    s.meaning p qualifier name = .error ↔ (s.misnaming? p qualifier name).isSome := by
  rw [meaning_eq_typeIn, misnaming?]
  cases hp : s.packageMeant? p qualifier with
  | none =>
    -- Only a qualifier can name no package.
    obtain ⟨q, rfl⟩ : ∃ q, qualifier = some q := by
      cases qualifier with
      | none => cases hp
      | some q => exact ⟨q, rfl⟩
    exact iff_of_true rfl rfl
  | some package =>
    rw [Option.map_some, Option.getD_some, typeIn]
    cases hx : s.member? package name.text .type with
    | none =>
      simp only [hx]
      exact iff_of_true rfl rfl
    | some x =>
      obtain ⟨sym, hsym, hmeets⟩ := symbol?_of_member? hx
      have hne : s.table.typeOf x ≠ .error := hs.typeOf_ne_error hsym
        (sym.kind.meets_type_eq_isType ▸ hmeets)
      simp only [hx]
      exact iff_of_false hne Bool.false_ne_true

/-! ## What is reported of a written type -/

theorem arrayOrError_log (element : TypeId) : (arrayOrError element s).2.log = s.log := by
  unfold arrayOrError
  split <;> rfl

/-- A written type means the error type just if something is reported of it. -/
theorem Means.eq_error_iff {r : TypeRef} {ty : TypeId} (h : s.Means p r ty) (hs : s.Sound) :
    ty = .error ↔ r.reports s p ≠ [] := by
  induction r generalizing ty with
  | primitive k =>
    rw [show ty = k.typeId from h]
    exact iff_of_false (by cases k <;> decide) fun hne => hne rfl
  | named qualifier name =>
    rw [show ty = _ from h, hs.meaning_eq_error_iff, TypeRef.reports, TypeRef.baseName?,
      Option.bind_some, Ne, Option.toList_eq_nil_iff, Option.isSome_iff_ne_none]
  | array element _ _ ih =>
    obtain ⟨inner, hinner, harray⟩ := h
    refine Iff.trans ?_ (ih hinner)
    unfold IsArrayOf at harray
    split at harray
    · next he => exact iff_of_true harray he
    · next he =>
      refine iff_of_false ?_ he
      rintro rfl
      have herror : s.table.types.get? .error = some .error := hs.types.builtin (by decide)
      exact absurd (herror.symm.trans harray.2) nofun

end Store

namespace TypeRef

variable {s : Store} {p : SymbolId} {scope : ScopeId}

/-- Resolving a written type reports what is to be said of it. -/
theorem log_resolve (hs : s.Sound) (hi : s.table.Inside scope p) (r : TypeRef) :
    (r.resolve scope s).2.log = s.log ++ r.reports s p := by
  induction r with
  | primitive => exact (List.append_nil _).symm
  | named qualifier name =>
    obtain ⟨names, heq⟩ := hs.resolveName_eq hi qualifier name
    exact congrArg Store.log heq
  | array element _ _ ih =>
    rw [resolve, run_bind]
    exact (Store.arrayOrError_log _).trans ih

theorem reports_resolve (s' : Store) (p : SymbolId) (r : TypeRef) :
    (r.resolve scope s).1.1.reports s' p = r.reports s' p := by
  have hbase : (r.resolve scope s).1.1.baseName? = r.baseName? := by
    rw [← baseName?_bare, bare_resolve, baseName?_bare]
  rw [reports, reports, hbase]

/-- The type that a written type gets is the error type just if something is reported of it. -/
theorem resolve_eq_error_iff (hs : s.Sound) (hi : s.table.Inside scope p) (r : TypeRef) :
    (r.resolve scope s).1.2 = .error ↔ r.reports s p ≠ [] := by
  obtain ⟨hrun, _, hr⟩ := r.run_resolve (m := s.mark) hs hi
  have hf := hrun.follows hs
  obtain ⟨ty, hty, hmeans⟩ := hr.means
  rw [resolve_fst_ty] at hty
  cases hty
  rw [hmeans.eq_error_iff hf.sound, reports_resolve, hf.reports_eq hs nofun]

end TypeRef

end Binder
