import Binder.Proofs.Binding

/-!
# What a run does

The lasting effects of a run. The store stays sound and grows, the symbols that were there are left
alone, the offers of the run have their effect, and each of them describes a symbol that is there
now. All symbols that a run makes have a type in the end; that of a callable gets it last.

* `Store.Has`: the symbol that an offer describes is there.
* `Store.Follows`: the lasting effects of offers.
* `Store.Run.follows`: a run has the lasting effects of its offers.
* `Store.Run.typed`: what a run makes has a type.
* `Store.Run.fresh`: what a run makes is new.
-/

namespace Binder

namespace Store

variable {s s' s₁ : Store} {o : Offer} {os os' : List Offer}

/-! ## The symbols of offers -/

/-- The store has the symbol that the offer describes. -/
def Has (s : Store) (o : Offer) : Prop :=
  ∃ x sym, o.symbol = some x ∧ s.table.symbol? x = some sym ∧ sym.kind = o.kind ∧
    sym.owner = o.container ∧ sym.flags = o.flags ∧ sym.span = o.span ∧
    s.names.text? sym.name = some o.text ∧ ∀ ty, o.ty = some ty → sym.ty = some ty

theorem Has.mono (h : s.Has o) (g : s.Grows s') : s'.Has o := by
  obtain ⟨x, sym, hx, hsym, hkind, howner, hflags, hspan, htext, hty⟩ := h
  obtain ⟨sym', hsym', hcore, hty'⟩ := g.table.symbol hsym
  exact ⟨x, sym', hx, hsym', (Symbol.eq_of_core Symbol.kind (fun _ => rfl) hcore).trans hkind,
    (Symbol.eq_of_core Symbol.owner (fun _ => rfl) hcore).trans howner,
    (Symbol.eq_of_core Symbol.flags (fun _ => rfl) hcore).trans hflags,
    (Symbol.eq_of_core Symbol.span (fun _ => rfl) hcore).trans hspan,
    (Symbol.eq_of_core Symbol.name (fun _ => rfl) hcore).symm ▸ g.text? htext,
    fun ty h => hty' ty (hty ty h)⟩

/-- The kind of the symbol is that of the offer. -/
theorem Has.kindOf (h : s.Has o) : ∃ x, o.symbol = some x ∧ s.table.kindOf x = some o.kind :=
  let ⟨x, sym, hx, hsym, hkind, _⟩ := h
  ⟨x, hx, Option.map_eq_some_iff.2 ⟨sym, hsym, hkind⟩⟩

/-! ## Lasting effects -/

/-- The store follows `s` after the offers `os`. -/
structure Follows (s : Store) (os : List Offer) (s' : Store) : Prop where
  sound : s'.Sound
  grows : s.Grows s'
  effect : s.Effect os s'
  has : ∀ o ∈ os, s'.Has o

namespace Follows

theorem refl (hs : s.Sound) : s.Follows [] s :=
  ⟨hs, .refl s, .of_eq (fun _ => rfl) rfl, fun _ ho => absurd ho List.not_mem_nil⟩

theorem trans (h : s.Follows os s₁) (h' : s₁.Follows os' s') : s.Follows (os ++ os') s' :=
  ⟨h'.sound, h.grows.trans h'.grows, h.effect.trans h'.effect,
    fun o ho => (List.mem_append.1 ho).elim (fun ho => (h.has o ho).mono h'.grows) (h'.has o)⟩

end Follows

section

variable {m : Mark} {c : SymbolId} {scope : ScopeId} {name : Name} {pkg : PackageId}
  {table : Table} {sym : Symbol}

/-- A symbol is made and offered. -/
theorem Made.follows_offerNext (h : s.Made o name pkg table sym) (hs : s.Sound)
    (ha : s.Admits m o c scope name pkg) (hkind : o.kind ≠ .package)
    (hty : ∀ ty, o.ty = some ty → sym.ty = some ty) :
    s.Follows [o] (s.offerNext (o.toSymbol name pkg) scope table) := by
  obtain ⟨hs', g⟩ := h.sound_offerNext hs ha hkind
  refine ⟨hs', g, h.effect_offerNext hs ha, fun o' ho' => ?_⟩
  have hname : sym.name = name := congrArg Symbol.name h.core
  rw [List.mem_singleton.1 ho']
  refine ⟨_, sym, ha.symbol, (h.symbol?_offerNext _).trans h.symbol?_next,
    congrArg Symbol.kind h.core, congrArg Symbol.owner h.core, congrArg Symbol.flags h.core,
    congrArg Symbol.span h.core, ?_, hty⟩
  rw [offerNext_eq h.symbol?_next, hname]
  exact ha.text

/-- The symbol of a callable is made and offered. -/
theorem Admits.follows_callable (h : s.Admits m o c scope name pkg) (hs : s.Sound)
    (hk : o.kind.isCallable) (hty : o.ty = none) :
    s.Follows [o] (s.offerNext (o.toSymbol name pkg) scope
      (s.table.addOwner (o.toSymbol name pkg) (some scope))) :=
  (h.made_callable hs hk hty).follows_offerNext hs h (SymbolKind.of_isCallable hk).1
    fun ty h => by rw [hty] at h; cases h

end

/-- A callable that has no type yet is completed. -/
theorem Sound.follows_complete (hs : s.Sound) {x : SymbolId} {sym : Symbol}
    (hx : s.table.symbol? x = some sym) (hty : sym.ty = none) (signature : Signature)
    (links : Links) : s.Follows [] { s with table := s.table.complete x signature links } := by
  have g := s.table.grows_complete signature links (by rw [hx]; exact hty)
  refine ⟨⟨hs.linked.complete signature links hx hty, hs.types.alloc _, fun y sym' hy => ?_,
    hs.entryText⟩, ⟨g, List.prefix_rfl, List.prefix_rfl, List.prefix_rfl⟩,
    .of_eq (fun c' => ?_) rfl, fun _ ho => absurd ho List.not_mem_nil⟩
  · rw [Table.symbol?_complete] at hy
    split at hy
    · obtain ⟨sym'', hsym'', rfl⟩ := Option.map_eq_some_iff.1 hy
      exact hs.symbolText y sym'' hsym''
    · exact hs.symbolText y sym' hy
  · rw [bindings, entries, Table.scopeOf_complete]
    rfl

/-- A text is interned. -/
theorem Sound.follows_intern (hs : s.Sound) (text : String) : s.Follows [] (intern text s).2 := by
  have g : s.Grows (intern text s).2 :=
    ⟨.refl _, s.names.prefix_intern text, List.prefix_rfl, List.prefix_rfl⟩
  exact ⟨⟨hs.linked, hs.types, fun x sym hx => g.text?_isSome (hs.symbolText x sym hx),
    fun i sc hi e he => g.text?_isSome (hs.entryText i sc hi e he)⟩, g,
    .of_eq (fun c => hs.bindings_eq (s.names.prefix_intern text) rfl) rfl,
    fun _ ho => absurd ho List.not_mem_nil⟩

/-- A problem that is no redeclaration is reported. -/
theorem Sound.follows_report (hs : s.Sound) {p : Problem} (hp : p.concernsTypes) (span : Span) :
    s.Follows [] (report p span s).2 := by
  have hcode : (p.diagnostic span).code ≠ "E0004" := by
    cases p with
    | redeclared => cases hp
    | _ => exact of_decide_eq_true rfl
  refine ⟨⟨hs.linked, hs.types, hs.symbolText, hs.entryText⟩, ⟨.refl _, List.prefix_rfl,
    List.prefix_append _ _, List.prefix_rfl⟩, .of_eq (fun c => rfl) ?_,
    fun _ ho => absurd ho List.not_mem_nil⟩
  rw [Store.redeclarations, Store.report, Log.redeclarations_append, Log.redeclarations,
    Log.redeclarations, Log.withCode, Log.withCode,
    List.filter_cons_of_neg (by simpa using hcode), List.filter_nil, List.map_nil, List.append_nil]
  rfl

/-- An array type is made, or found. -/
theorem Sound.follows_arrayOf (hs : s.Sound) (element : TypeId) :
    s.Follows [] (arrayOf element s).2 := by
  have g := s.table.grows_arrayOf element
  refine ⟨⟨hs.linked.of_types g, hs.types.arrayOf element, hs.symbolText, hs.entryText⟩,
    ⟨g, List.prefix_rfl, List.prefix_rfl, ?_⟩, .of_eq (fun c => rfl) rfl,
    fun _ ho => absurd ho List.not_mem_nil⟩
  simp only [arrayOf, Types.arrayOf]
  split
  · exact List.prefix_rfl
  · exact List.prefix_append _ _

/-- A struct gets its fields, if it can. -/
theorem Sound.follows_setFields (hs : s.Sound) (id : TypeId) (fields : List Field) :
    s.Follows [] (setFields id fields s).2 := by
  simp only [setFields]
  split
  · next types hset =>
    have g := s.table.grows_setFields? hset
    obtain ⟨_, _, harrays, _⟩ := s.table.types.get?_setFields? hset
    exact ⟨⟨hs.linked.of_types g, hs.types.setFields? hset, hs.symbolText, hs.entryText⟩,
      ⟨g, List.prefix_rfl, List.prefix_rfl, harrays ▸ List.prefix_rfl⟩,
      .of_eq (fun c => rfl) rfl, fun _ ho => absurd ho List.not_mem_nil⟩
  · exact .refl hs

theorem symbol?_setFields (s : Store) (id : TypeId) (fields : List Field) (x : SymbolId) :
    (setFields id fields s).2.table.symbol? x = s.table.symbol? x := by
  simp only [setFields]
  split <;> rfl

/-! ## Runs -/

namespace Run

variable {m : Mark}

/-- A run has the effects of its offers, and leaves the symbols alone that are there before it. -/
theorem follows_and_symbol? (h : Run m s os s') (hs : s.Sound) : s.Follows os s' ∧
    ∀ x sym, s.table.symbol? x = some sym → s'.table.symbol? x = some sym := by
  induction h with
  | refl => exact ⟨.refl hs, fun _ _ => id⟩
  | trans _ _ ih ih' =>
    obtain ⟨h, hx⟩ := ih hs
    obtain ⟨h', hx'⟩ := ih' h.sound
    exact ⟨h.trans h', fun x sym hsym => hx' x sym (hx x sym hsym)⟩
  | intern s text => exact ⟨hs.follows_intern text, fun _ _ => id⟩
  | report s p span hp => exact ⟨hs.follows_report hp span, fun _ _ => id⟩
  | @array s element _ _ => exact ⟨hs.follows_arrayOf element, fun _ _ => id⟩
  | @setFields s id fields _ _ =>
    exact ⟨hs.follows_setFields id fields,
      fun x sym hx => (symbol?_setFields s id fields x).trans hx⟩
  | @var s o c scope name pkg ty h hk hty hu =>
    have hmade := h.made_var hs hk hty hu
    exact ⟨hmade.follows_offerNext hs h (by rw [hk]; decide) fun _ => id,
      fun x sym hx => hmade.symbol?_offerNext_of_some hx⟩
  | @container s o c scope name pkg h hk hty hc =>
    have hmade := h.made_container hs hk hty hc
    refine ⟨hmade.follows_offerNext hs h (SymbolKind.of_isType hk).1 fun ty h => ?_,
      fun x sym hx => hmade.symbol?_offerNext_of_some hx⟩
    rw [hty] at h
    cases h
  | @callable s s₁ o os c scope name pkg signature links h hk hty hrun _ _ ih =>
    have hmade := h.made_callable hs hk hty
    have h₀ := h.follows_callable hs hk hty
    obtain ⟨h₁, hx₁⟩ := ih h₀.sound
    -- What is entered in the callable leaves its symbol alone, which has no type yet.
    have hx := hx₁ _ _ ((hmade.symbol?_offerNext _).trans hmade.symbol?_next)
    have h₂ := (h₀.trans h₁).trans (h₁.sound.follows_complete hx hty signature links)
    rw [List.append_nil] at h₂
    refine ⟨h₂, fun y sym hy => ?_⟩
    rw [Table.symbol?_complete, if_neg (Table.ne_nextSymbol _ hy)]
    exact hx₁ y sym (hmade.symbol?_offerNext_of_some hy)

section

variable (h : Run m s os s') (hs : s.Sound)
include h hs

theorem follows : s.Follows os s' := (h.follows_and_symbol? hs).1

theorem sound : s'.Sound := (h.follows hs).sound

theorem grows : s.Grows s' := (h.follows hs).grows

/-- A run leaves the symbols alone that are there before it. -/
theorem symbol? {x : SymbolId} {sym : Symbol} (hx : s.table.symbol? x = some sym) :
    s'.table.symbol? x = some sym :=
  (h.follows_and_symbol? hs).2 x sym hx

end

/-- What a run makes has a type. -/
theorem typed (h : Run m s os s') (hs : s.Sound) {x : SymbolId} {sym : Symbol}
    (hold : s.table.symbol? x = none) (hx : s'.table.symbol? x = some sym) : sym.ty.isSome := by
  induction h generalizing sym with
  | @trans s s₁ s₂ _ _ h h' ih ih' =>
    cases hx₁ : s₁.table.symbol? x with
    | none => exact ih' (h.sound hs) hx₁ hx
    | some sym₁ =>
      cases (h'.symbol? (h.sound hs) hx₁).symm.trans hx
      exact ih hs hold hx₁
  | @var s o c scope name pkg ty h hk hty hu =>
    have hmade := h.made_var hs hk hty hu
    rw [hmade.symbol?_offerNext, hmade.symbol] at hx
    split at hx
    · cases hx
      exact Option.isSome_iff_exists.2 ⟨ty, hty⟩
    · exact absurd (hold.symm.trans hx) nofun
  | @container s o c scope name pkg h hk hty hc =>
    have hmade := h.made_container hs hk hty hc
    rw [hmade.symbol?_offerNext, hmade.symbol] at hx
    split at hx
    · cases hx
      rfl
    · exact absurd (hold.symm.trans hx) nofun
  | @callable s s₁ o os c scope name pkg signature links h hk hty hrun _ _ ih =>
    have hmade := h.made_callable hs hk hty
    rw [Table.symbol?_complete] at hx
    split at hx
    · -- The callable itself has been completed.
      obtain ⟨sym', _, rfl⟩ := Option.map_eq_some_iff.1 hx
      rfl
    · next hne =>
      refine ih (h.follows_callable hs hk hty).sound ?_ hx
      rw [hmade.symbol?_offerNext, hmade.symbol, if_neg hne, hold]
  | setFields =>
    simp only [Store.setFields] at hx
    split at hx <;> exact absurd (hold.symm.trans hx) nofun
  | _ => exact absurd (hold.symm.trans hx) nofun

/-- The symbols that a run makes are new, and none is made twice. -/
theorem fresh (h : Run m s os s') (hs : s.Sound) : (os.map Offer.symbol).Nodup ∧
    ∀ o ∈ os, ∀ x, o.symbol = some x → s.table.symbol? x = none := by
  have hnext : ∀ (s : Store) (o : Offer), o.symbol = some s.table.nextSymbol →
      ∀ x, o.symbol = some x → s.table.symbol? x = none := fun s o ho x hx => by
    cases ho.symm.trans hx
    exact Array.getElem?_eq_none (Nat.le_refl _)
  induction h with
  | @trans s s₁ s₂ os os' h _ ih ih' =>
    obtain ⟨hnodup, hnone⟩ := ih hs
    obtain ⟨hnodup', hnone'⟩ := ih' (h.sound hs)
    rw [List.map_append]
    refine ⟨List.nodup_append.2 ⟨hnodup, hnodup', fun x hx x' hx' heq => ?_⟩, fun o ho => ?_⟩
    · -- What is made first is there when the rest is made.
      obtain ⟨o, ho, rfl⟩ := List.mem_map.1 hx
      obtain ⟨o', ho', rfl⟩ := List.mem_map.1 hx'
      obtain ⟨x, sym, hx, hsym, _⟩ := (h.follows hs).has o ho
      exact absurd ((hnone' o' ho' x (heq.symm.trans hx)).symm.trans hsym) nofun
    · rcases List.mem_append.1 ho with ho | ho
      · exact hnone o ho
      · intro x hx
        cases hold : s.table.symbol? x with
        | none => rfl
        | some sym => exact absurd ((hnone' o ho x hx).symm.trans (h.symbol? hs hold)) nofun
  | @var s o _ _ _ _ _ h _ _ _ =>
    exact ⟨List.pairwise_singleton _ _, fun o' ho' => List.mem_singleton.1 ho' ▸ hnext s o h.symbol⟩
  | @container s o _ _ _ _ h _ _ _ =>
    exact ⟨List.pairwise_singleton _ _, fun o' ho' => List.mem_singleton.1 ho' ▸ hnext s o h.symbol⟩
  | @callable s _ o os _ _ _ _ _ _ h hk hty _ _ _ ih =>
    have hmade := h.made_callable hs hk hty
    obtain ⟨hnodup, hnone⟩ := ih (h.follows_callable hs hk hty).sound
    refine ⟨List.nodup_cons.2 ⟨fun hmem => ?_, hnodup⟩, fun o' ho' => ?_⟩
    · obtain ⟨o', ho', heq⟩ := List.mem_map.1 hmem
      obtain ⟨x, sym, hx, hsym, _⟩ :=
        (h.follows_callable hs hk hty).has o (List.mem_singleton_self o)
      exact absurd ((hnone o' ho' x (heq.trans hx)).symm.trans hsym) nofun
    · rcases List.mem_cons.1 ho' with rfl | ho'
      · exact hnext s o' h.symbol
      · intro x hx
        cases hold : s.table.symbol? x with
        | none => rfl
        | some sym =>
          exact absurd ((hnone o' ho' x hx).symm.trans (hmade.symbol?_offerNext_of_some hold)) nofun
  | _ => exact ⟨List.nodup_nil, fun o ho => absurd ho List.not_mem_nil⟩

end Run

end Store

end Binder
