import Binder.Proofs.Entry.Course

/-!
# The error type

The error type stands for what could not be resolved, and it comes with a report. A session whose log
has none of the reports that leave a declaration with the error type has the error type nowhere: it
is the type of no symbol, and no other type is made of it.

* `Ty.parts`: the types that a type is made of.
* `Table.ErrorOnlyIf`: the error type is in use only if something holds.
* `Session.Course.errorOnlyIf`: it is in use only if that has been reported.
* `Session.Reachable.errorFree`: what is not reported is not there.
-/

namespace Binder

/-- The types of the fields of a struct, if they are set; the types in the signature of a callable;
    the element type of an array. -/
def Ty.parts : Ty → List TypeId
  | .struct st => (st.fields.getD []).map (·.ty)
  | .callable g => g.types
  | .array element => [element]
  | _ => []

namespace Table

/-- The error type is the type of a symbol, or a part of a type, only if `r`. -/
structure ErrorOnlyIf (t : Table) (r : Prop) : Prop where
  error : t.types.get? .error = some .error
  symbol : ∀ {x : SymbolId} {sym : Symbol}, t.symbol? x = some sym → sym.ty = some .error → r
  part : ∀ {id : TypeId} {ty : Ty}, t.types.get? id = some ty → .error ∈ ty.parts → r

/-- The error type is not in use. -/
structure ErrorFree (t : Table) : Prop where
  symbol : ∀ x sym, t.symbol? x = some sym → t.typeOf x ≠ .error
  field : ∀ id st fields, t.types.struct? id = some st → st.fields = some fields →
    ∀ f ∈ fields, f.ty ≠ .error
  element : ∀ id element, t.types.get? id = some (.array element) → element ≠ .error
  signature : ∀ id g, t.types.signature? id = some g →
    .error ∉ g.params ∧ .error ∉ g.returns ∧ g.receiver ≠ some .error

/-! ## Moves -/

namespace ErrorOnlyIf

variable {t : Table} {r r' : Prop} (h : t.ErrorOnlyIf r)
include h

theorem imp (hr : r → r') : t.ErrorOnlyIf r' :=
  ⟨h.error, fun hx hty => hr (h.symbol hx hty), fun hid hpart => hr (h.part hid hpart)⟩

/-- The type that is made next is not the error type. -/
theorem next_ne_error : (⟨t.types.size⟩ : TypeId) ≠ .error := fun heq => by
  have hlt := (Array.getElem?_eq_some_iff.1 h.error).1
  rw [← congrArg TypeId.index heq] at hlt
  exact Nat.lt_irrefl _ hlt

/-- Symbols and types that are new or changed have the error type only if `r`. -/
theorem of_tables {t' : Table} (herror : t'.types.get? .error = some .error)
    (hsymbol : ∀ x sym, t'.symbol? x = some sym → t.symbol? x = some sym ∨
      (sym.ty = some .error → r))
    (htype : ∀ id ty, t'.types.get? id = some ty → t.types.get? id = some ty ∨
      (.error ∈ ty.parts → r)) : t'.ErrorOnlyIf r where
  error := herror
  symbol hx hty := (hsymbol _ _ hx).elim (fun hold => h.symbol hold hty) (· hty)
  part hid hpart := (htype _ _ hid).elim (fun hold => h.part hold hpart) (· hpart)

/-- A type is made, and symbols are changed. -/
theorem alloc {t' : Table} {ty : Ty}
    (htypes : ∀ id, t'.types.get? id = (t.types.alloc ty).2.get? id)
    (hsymbol : ∀ x sym, t'.symbol? x = some sym → t.symbol? x = some sym ∨
      (sym.ty = some .error → r)) (hparts : .error ∈ ty.parts → r) : t'.ErrorOnlyIf r := by
  refine h.of_tables ?_ hsymbol fun id ty' hid => ?_
  · rw [htypes, t.types.get?_alloc_of_isSome _ (by rw [h.error]; rfl), h.error]
  · rw [htypes, Types.get?_alloc] at hid
    split at hid
    · cases hid
      exact .inr hparts
    · exact .inl hid

theorem addSymbol {sym : Symbol} (hty : sym.ty = some .error → r) :
    (t.addSymbol sym).2.ErrorOnlyIf r := by
  refine h.of_tables h.error (fun x sym' hx => ?_) fun _ _ => .inl
  rw [symbol?_addSymbol] at hx
  split at hx
  · cases hx
    exact .inr hty
  · exact .inl hx

theorem addOwner {sym : Symbol} (hty : sym.ty = some .error → r) (parent : Option ScopeId) :
    (t.addOwner sym parent).ErrorOnlyIf r := by
  refine h.of_tables h.error (fun x sym' hx => ?_) fun _ _ => .inl
  rw [symbol?_addOwner] at hx
  split at hx
  · cases hx
    exact .inr hty
  · exact .inl hx

theorem addTypeOwner (sym : Symbol) (parent : Option ScopeId) :
    (t.addTypeOwner sym parent).ErrorOnlyIf r := by
  refine h.alloc (fun _ => rfl) (fun x sym' hx => ?_) fun hpart => ?_
  · rw [symbol?_addTypeOwner] at hx
    split at hx
    · cases hx
      exact .inr fun hty => absurd (Option.some.inj hty) h.next_ne_error
    · exact .inl hx
  · -- The fields of a struct are not known yet.
    unfold Ty.ofContainer at hpart
    split at hpart <;> exact absurd hpart List.not_mem_nil

theorem complete (x : SymbolId) {g : Signature} (hparts : .error ∈ g.types → r) (links : Links) :
    (t.complete x g links).ErrorOnlyIf r := by
  refine h.alloc (fun _ => rfl) (fun y sym hy => ?_) hparts
  rw [symbol?_complete] at hy
  split at hy
  · obtain ⟨sym', _, rfl⟩ := Option.map_eq_some_iff.1 hy
    exact .inr fun hty => absurd (Option.some.inj hty) h.next_ne_error
  · exact .inl hy

theorem arrayOf {element : TypeId} (helement : element ≠ .error) :
    ErrorOnlyIf { t with types := (t.types.arrayOf element).2 } r := by
  unfold Types.arrayOf
  split
  · exact h
  · have hparts : .error ∈ (Ty.array element).parts → r := fun hpart =>
      absurd (List.mem_singleton.1 hpart).symm helement
    exact h.alloc (fun _ => rfl) (fun _ _ => .inl) hparts

theorem setFields? {id : TypeId} {fields : List Field} {types : Types}
    (hset : t.types.setFields? id fields = some types)
    (hfields : ∀ f ∈ fields, f.ty = .error → r) : ErrorOnlyIf { t with types } r := by
  obtain ⟨x, hx, _, hget⟩ := t.types.get?_setFields? hset
  refine h.of_tables ?_ (fun _ _ => .inl) fun j ty hj => ?_
  · -- The error type is no struct type.
    have hne : TypeId.error ≠ id := by
      rintro rfl
      cases h.error.symm.trans hx
    rw [hget, if_neg hne, h.error]
  · rw [hget] at hj
    split at hj
    · cases hj
      refine .inr fun hpart => ?_
      obtain ⟨f, hf, hty⟩ := List.mem_map.1 hpart
      exact hfields f hf hty
    · exact .inl hj

end ErrorOnlyIf

/-- If `r` does not hold, the error type is not in use. -/
theorem ErrorOnlyIf.errorFree_of_not {t : Table} {r : Prop} (h : t.ErrorOnlyIf r) (hr : ¬r)
    (htyped : ∀ x sym, t.symbol? x = some sym → sym.ty.isSome) : t.ErrorFree := by
  have hpart : ∀ {id ty}, t.types.get? id = some ty → .error ∉ ty.parts :=
    fun hid hmem => hr (h.part hid hmem)
  refine ⟨fun x sym hx heq => ?_, fun id st fields hid hfields f hf hty => ?_,
    fun id element hid heq => ?_, fun id g hid => ?_⟩
  · obtain ⟨ty, hty⟩ := Option.isSome_iff_exists.1 (htyped x sym hx)
    rw [typeOf, hx, Option.bind_some, hty] at heq
    exact hr (h.symbol hx (hty.trans (congrArg some heq)))
  · obtain ⟨ty, hty', hst⟩ := Option.bind_eq_some_iff.1 hid
    cases ty with
    | struct st' =>
      cases hst
      refine hpart hty' ?_
      rw [Ty.parts, hfields]
      exact List.mem_map.2 ⟨f, hf, hty⟩
    | _ => cases hst
  · exact hpart hid (heq ▸ List.mem_singleton_self _)
  · obtain ⟨ty, hty, hg⟩ := Option.bind_eq_some_iff.1 hid
    cases ty with
    | callable g' =>
      cases hg
      have hmem : .error ∉ g.params ++ g.returns ++ g.receiver.toList := hpart hty
      simp only [List.mem_append, Option.mem_toList, not_or] at hmem
      exact ⟨hmem.1.1, hmem.1.2, hmem.2⟩
    | _ => cases hg

end Table

/-! ## Runs -/

namespace Store

variable {s s' : Store}

theorem Reported.append (h : s.Reported) (log : Log) : Reported { s with log := s.log ++ log } :=
  let ⟨d, hd, hcode⟩ := h
  ⟨d, List.mem_append_left _ hd, hcode⟩

/-- A symbol is offered to a scope, in which it may be refused. -/
theorem errorOnlyIf_define (h : s.table.ErrorOnlyIf s.Reported) (span : Span) (scope : ScopeId)
    (name : Name) (x : SymbolId) : (define span scope name x s).2.table.ErrorOnlyIf
      (define span scope name x s).2.Reported := by
  obtain ⟨scopes, log, heq⟩ := define_scopes span scope name x s
  rw [heq]
  have h' := h.imp (·.append log)
  exact ⟨h'.error, h'.symbol, h'.part⟩

/-- A run that uses the error type has reported that. -/
theorem Run.errorOnlyIf {m : Mark} {os : List Offer} (h : Run m s os s')
    (hs : s.table.ErrorOnlyIf s.Reported) : s'.table.ErrorOnlyIf s'.Reported := by
  induction h with
  | refl => exact hs
  | trans _ _ ih ih' => exact ih' (ih hs)
  | intern => exact hs
  | report => exact hs.imp (·.append _)
  | array _ helement => exact hs.arrayOf helement
  | @setFields s id fields _ hfields =>
    simp only [Store.setFields]
    cases hset : s.table.types.setFields? id fields with
    | none => exact hs
    | some types => exact hs.setFields? hset fun f hf hty => (hfields f hf).2 hty
  | @var s o c scope name pkg ty _ _ hty hu =>
    -- A variable gets the error type only after a report.
    have herror : (o.toSymbol name pkg).ty = some .error → s.Reported := fun herror =>
      hu.2 (Option.some.inj (hty.symm.trans herror))
    exact errorOnlyIf_define (hs.addSymbol herror) _ _ _ _
  | container => exact errorOnlyIf_define (hs.addTypeOwner _ _) _ _ _ _
  | @callable s s₁ o os c scope name pkg signature links _ _ hty _ hu _ ih =>
    -- A callable has no type before all that is in it is entered.
    have herror : (o.toSymbol name pkg).ty = some .error → s.Reported := fun herror =>
      absurd (herror.symm.trans hty) (Option.some_ne_none _)
    have hinside := ih (errorOnlyIf_define (hs.addOwner herror (some scope)) _ _ _ _)
    exact hinside.complete _ (fun hpart => (hu _ hpart).2 rfl) _

end Store

/-! ## Sessions -/

namespace Session

variable {s s' : Session}

/-- Whatever a session goes through, it uses the error type only if it has reported that. -/
theorem Course.errorOnlyIf (h : s.Course s')
    (hs : s.store.table.ErrorOnlyIf s.store.Reported) :
    s'.store.table.ErrorOnlyIf s'.store.Reported := by
  induction h with
  | refl => exact hs
  | trans _ _ ih ih' => exact ih' (ih hs)
  | run hrun => exact hrun.errorOnlyIf hs
  | @declare s name p _ =>
    obtain ⟨packages, pkg, _, heq⟩ := p.declare_eq name s.store
    rw [run_onStore, heq]
    let sym := (Package.rootOffer (name.text s.store.names) p.span s.store.table.nextSymbol).toSymbol
      (Store.intern (name.text s.store.names) s.store).1 pkg
    have herror : sym.ty = some .error → s.store.Reported := fun hty =>
      absurd (show some TypeId.package = some .error from hty) (by decide)
    have hmade := hs.addOwner herror none
    exact ⟨hmade.error, hmade.symbol, hmade.part⟩
  | offer => exact Store.errorOnlyIf_define hs _ _ _ _
  | report => exact hs.imp (·.append _)
  | setState | publish => exact hs

theorem errorOnlyIf_start (names : Names) (config : Config) (library : Library) (r : Prop) :
    (start names config library).store.table.ErrorOnlyIf r := by
  have hbuiltins : ∀ ty ∈ Ty.builtins, ty.parts = [] := by decide
  refine ⟨(sound_start names config library).store.types.builtin (by decide),
    fun {x sym} hx hty => ?_, fun {id ty} hid hpart => ?_⟩
  · have hroot := Array.mem_singleton.1 (Array.mem_of_getElem? hx)
    rw [hroot] at hty
    exact absurd (show some TypeId.package = some .error from hty) (by decide)
  · have hmem : ty ∈ Ty.builtins.toArray := Array.mem_of_getElem? hid
    rw [hbuiltins ty (List.mem_toArray.1 hmem)] at hpart
    exact absurd hpart List.not_mem_nil

/-- In a session without reports of unknown types, unknown packages and bad receivers, the error type
    is the type of nothing. -/
theorem Reachable.errorFree (h : s.Reachable)
    (hlog : ∀ d ∈ s.store.log, d.code ∉ Store.typeErrorCodes) : s.store.table.ErrorFree := by
  have honly : s.store.table.ErrorOnlyIf s.store.Reported := by
    clear hlog
    induction h with
    | start names config library => exact errorOnlyIf_start names config library _
    | step r h ih => exact (course_respond r h.sound).errorOnlyIf ih
  exact honly.errorFree_of_not (fun ⟨d, hd, hcode⟩ => hlog d hd hcode) h.sound.typed

/-- A struct that is declared twice, with a field that is an array of it. Only the redeclaration is
    reported. -/
theorem errorFree_declared_again :
    let T : Ident := ⟨"T", .origin⟩
    let f : VarDecl :=
      { span := .origin, name := ⟨"f", .origin⟩, type := .array (.ofName T) .origin none }
    let d : Struct := { span := .origin, name := T, fields := [f] }
    let s := (start {} {} {}).after [.define { structs := [d, d] }]
    s.Reachable ∧ s.store.log.map (·.code) = ["E0004"] ∧ s.store.table.ErrorFree := by
  intro T f d s
  have h : s.Reachable := (Reachable.start {} {} {}).after _
  have hcodes : s.store.log.map (·.code) = ["E0004"] := by decide +kernel
  refine ⟨h, hcodes, h.errorFree fun e he hcode => ?_⟩
  have hmem := List.mem_map_of_mem (f := (·.code)) he
  rw [hcodes] at hmem
  rw [List.mem_singleton.1 hmem] at hcode
  exact absurd hcode (by decide)

end Session

end Binder
