import Binder.Proofs.Action
import Binder.Proofs.Meaning

/-!
# Resolution

Resolving a written type inside a package makes no symbol, and every level of the written type gets
what it means in the package. What comes out can be the type of a declaration: it is the error type
only if that has been reported.

* `Store.Sound.run_resolveName`: a name.
* `TypeRef.run_resolve`: a written type.
-/

namespace Binder

namespace Store

variable {s : Store} {x : SymbolId} {sym : Symbol}

/-! ## Types that declarations can get -/

/-- The type of a symbol that is a type names the symbol. -/
theorem Sound.outlineOf_typeOf (hs : s.Sound) (hx : s.table.symbol? x = some sym)
    (hk : sym.kind.isType) :
    s.table.outlineOf (s.table.typeOf x) = some (.ofContainer sym.kind x) := by
  obtain ⟨id, hid, hout⟩ := (hs.linked.symbol x sym hx).isType hk
  rw [Table.typeOf, hx, Option.bind_some, hid]
  exact hout

/-- The error type is no type of a struct, connector or service. -/
theorem Sound.typeOf_ne_error (hs : s.Sound) (hx : s.table.symbol? x = some sym)
    (hk : sym.kind.isType) : s.table.typeOf x ≠ .error := by
  intro he
  have hout := hs.outlineOf_typeOf hx hk
  have herror : s.table.types.get? .error = some .error := hs.types.builtin (by decide)
  rw [he, Table.outlineOf, herror] at hout
  cases hsym : sym.kind <;> rw [hsym] at hout <;> cases hout

theorem Sound.usable_typeOf (hs : s.Sound) (hx : s.table.symbol? x = some sym)
    (hk : sym.kind.isType) : s.Usable (s.table.typeOf x) := by
  refine ⟨?_, fun he => absurd he (hs.typeOf_ne_error hx hk)⟩
  obtain ⟨ty, hty, _⟩ := Option.map_eq_some_iff.1 (hs.outlineOf_typeOf hx hk)
  exact Option.isSome_iff_exists.2 ⟨ty, hty⟩

theorem Sound.usable_primitive (hs : s.Sound) (k : Primitive) : s.Usable k.typeId := by
  refine ⟨?_, fun h => ?_⟩
  · rw [show s.table.types.get? k.typeId = _ from hs.types.builtin (Ty.builtins_primitive k)]
    rfl
  · cases k <;> exact absurd h (by decide)

/-- The error type is used for what has been reported. -/
theorem Sound.usable_error (hs : s.Sound) {problem : Problem} (hp : problem.code ∈ typeErrorCodes)
    (span : Span) : (report problem span s).2.Usable .error := by
  refine ⟨?_, fun _ => ⟨problem.diagnostic span, List.mem_append_right _ List.mem_cons_self, hp⟩⟩
  rw [show (report problem span s).2.table.types.get? .error = some .error from
    hs.types.builtin (by decide)]
  rfl

/-! ## Names -/

variable {m : Mark} {p c : SymbolId} {scope : ScopeId}

/-- What a look-up for types found, or the error type with a report. -/
theorem Sound.run_typeFound (hs : s.Sound) (qualifier : Option Ident) (name : Ident)
    {outcome : Lookup} (hfound : outcome.symbol? = s.member? c name.text .type) :
    Run m s [] (typeFound qualifier name outcome s).2 ∧
      (typeFound qualifier name outcome s).2.Usable (typeFound qualifier name outcome s).1 ∧
      (typeFound qualifier name outcome s).1 = s.typeIn c name.text := by
  rw [typeFound, typeIn, ← hfound]
  cases hx : outcome.symbol? with
  | some x =>
    obtain ⟨sym, hsym, hmeets⟩ := symbol?_of_member? (hfound.symm.trans hx)
    rw [SymbolKind.meets_type_eq_isType] at hmeets
    exact ⟨.refl s, hs.usable_typeOf hsym hmeets, rfl⟩
  | none => exact ⟨.report s _ _ rfl, hs.usable_error List.mem_cons_self _, rfl⟩

/-- A name gets the type that it means, before and after. -/
theorem Sound.run_resolveName (hs : s.Sound) (hi : s.table.Inside scope p)
    (qualifier : Option Ident) (name : Ident) :
    Run m s [] (resolveName scope qualifier name s).2 ∧
      (resolveName scope qualifier name s).2.Usable (resolveName scope qualifier name s).1 ∧
      (resolveName scope qualifier name s).1 = s.meaning p qualifier name := by
  have hintern : Run m s [] (intern name.text s).2 := .intern s _
  have hs₁ := hintern.sound hs
  have hname : (intern name.text s).2.names.text? (intern name.text s).1 = some name.text :=
    s.names.text?_intern name.text
  have hnone : ∀ o ∈ ([] : List Offer), o.Inner := fun o ho => absurd ho List.not_mem_nil
  rw [← (hintern.follows hs).meaning_eq hs hnone]
  unfold resolveName
  rw [run_bind]
  cases qualifier with
  | none =>
    obtain ⟨hrun, hu, hmeaning⟩ := hs₁.run_typeFound (m := m) none name
      (hs₁.symbol?_lookup (s := (intern name.text s).2) hi KindMask.isGlobal_type hname)
    exact ⟨hintern.trans hrun, hu, hmeaning⟩
  | some q =>
    have hintern' : Run m (intern name.text s).2 [] (intern q.text (intern name.text s).2).2 :=
      .intern _ _
    rw [← (hintern'.follows hs₁).meaning_eq hs₁ hnone]
    have hs₂ := hintern'.sound hs₁
    have hname₂ := (hintern'.grows hs₁).text? hname
    have himport := hs₂.symbol?_lookup (s := (intern q.text (intern name.text s).2).2)
      (n := (intern q.text (intern name.text s).2).1) hi KindMask.isGlobal_package
      (Names.text?_intern _ q.text)
    simp only [run_bind, run_get, Table.importedScope?, meaning]
    rw [himport]
    cases hp : (intern q.text (intern name.text s).2).2.member? p q.text .package with
    | none =>
      exact ⟨hintern.trans (hintern'.trans (.report _ (.unknownPackage q.text) q.span rfl)),
        hs₂.usable_error (List.mem_cons_of_mem _ List.mem_cons_self) _, rfl⟩
    | some package =>
      obtain ⟨inner, hinner⟩ := hs₂.exists_scopeOf_package hp
      rw [Option.bind_some, hinner]
      obtain ⟨hrun, hu, hmeaning⟩ := hs₂.run_typeFound (m := m) (some q) name
        (hs₂.symbol?_lookupMember hinner hname₂)
      exact ⟨hintern.trans (hintern'.trans hrun), hu, hmeaning⟩

/-! ## Written types -/

theorem Sound.isArrayOf_arrayOf (hs : s.Sound) {element : TypeId} (he : element ≠ .error) :
    (arrayOf element s).2.IsArrayOf element (arrayOf element s).1 := by
  rw [IsArrayOf, if_neg he]
  refine ⟨?_, hs.types.get?_arrayOf element⟩
  change (s.table.types.arrayOf element).2.arrays.lookup element =
    some (s.table.types.arrayOf element).1
  unfold Types.arrayOf
  cases hl : s.table.types.arrays.lookup element with
  | some id => exact hl
  | none =>
    change (s.table.types.arrays ++ [(element, (s.table.types.alloc _).1)]).lookup element = _
    rw [List.lookup_append, hl, Option.none_or]
    exact List.lookup_cons_self

/-- The error type is no array type. -/
theorem Sound.arrayOf_ne_error (hs : s.Sound) (element : TypeId) :
    (arrayOf element s).1 ≠ .error := by
  intro he
  have hget : (s.table.types.arrayOf element).2.get? .error = some (.array element) :=
    (congrArg _ he).symm.trans (hs.types.get?_arrayOf element)
  have herror : (s.table.types.arrayOf element).2.get? .error = some .error :=
    (hs.types.arrayOf element).builtin (by decide)
  exact absurd (hget.symm.trans herror) nofun

end Store

/-- Resolving a written type makes no symbol. Each level gets the type that it means in the package,
    and a declaration can get the type. -/
theorem TypeRef.run_resolve {m : Mark} {s : Store} {scope : ScopeId} {p : SymbolId} (hs : s.Sound)
    (hi : s.table.Inside scope p) (r : TypeRef) :
    Store.Run m s [] (r.resolve scope s).2 ∧
      (r.resolve scope s).2.Usable (r.resolve scope s).1.2 ∧
      (r.resolve scope s).1.1.ResolvedIn (r.resolve scope s).2 p := by
  have hnone : ∀ o ∈ ([] : List Offer), o.Inner := fun o ho => absurd ho List.not_mem_nil
  induction r with
  | primitive k span ty =>
    exact ⟨.refl s, hs.usable_primitive k, k.typeId, rfl, rfl⟩
  | named qualifier name span ty =>
    obtain ⟨hrun, hu, hmeaning⟩ := hs.run_resolveName (m := m) hi qualifier name
    refine ⟨hrun, hu, _, rfl, ?_⟩
    exact hmeaning.trans ((hrun.follows hs).meaning_eq hs hnone p qualifier name).symm
  | array element span ty ih =>
    obtain ⟨hrun, hu, hr⟩ := ih
    have hs₁ := hrun.sound hs
    obtain ⟨inner, hinner, hmeans⟩ := hr.means
    cases hinner.symm.trans (element.resolve_fst_ty scope s)
    rw [resolve, run_bind]
    simp only [run_bind, Store.arrayOrError]
    split
    · next he =>
      exact ⟨hrun, he ▸ hu, hr, _, rfl, _, hmeans, by rw [Store.IsArrayOf, if_pos he]; rfl⟩
    · next he =>
      have harray : Store.Run m _ [] _ := .array hu he
      have h₁ := harray.follows hs₁
      refine ⟨hrun.trans harray, ⟨?_, fun h => absurd h (hs₁.arrayOf_ne_error _)⟩,
        hr.mono h₁ hs₁ hnone, _, rfl, _,
        hmeans.of_meaning h₁.grows fun b _ => h₁.meaning_eq hs₁ hnone p b.1 b.2,
        hs₁.isArrayOf_arrayOf he⟩
      exact Option.isSome_iff_exists.2 ⟨_, hs₁.types.get?_arrayOf _⟩

end Binder
