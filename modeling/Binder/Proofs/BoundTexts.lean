import Binder.Proofs.Collecting
import Binder.Proofs.Method
import Binder.Proofs.Resolution
import Binder.Proofs.Texts

/-!
# The types that declarations get

When a package is entered, the types that its declarations get have the texts that they should have:
those of the types of variables and of all levels of what is written for them, and those of the types
of callables, structs, connectors and services.

* `Declaration.boundTexts`: the texts of the types that a declaration has been given.
* `Package.Entered.boundTexts_eq`: the declarations of a package that is entered have the texts that
  they should have.
-/

namespace Binder

open Store

/-! ## Written types -/

/-- The texts of the types that the levels of a written type have been given. -/
def TypeRef.boundTexts (s : Store) (r : TypeRef) : List (Option String) :=
  r.annotations.map (·.map s.typeText)

namespace Store

variable {s : Store} {c : SymbolId}

theorem Sound.typeTextWithin_error (hs : s.Sound) (bound : Nat) :
    s.table.typeTextWithin s.names (bound + 1) .error = some "<error>" := by
  have herror : s.table.types.get? .error = some .error := hs.types.builtin (by decide)
  rw [Table.typeTextWithin, herror]

/-- The text of what a written type means. -/
theorem Means.typeTextWithin_eq {r : TypeRef} {ty : TypeId} (h : s.Means c r ty) (hs : s.Sound)
    (ht : s.table.Stratified) {bound : Nat} (hlt : ty.index < bound) :
    s.table.typeTextWithin s.names bound ty = some (r.typeText s c) := by
  rw [TypeRef.typeText, TypeRef.textIf]
  by_cases hty : ty = .error
  · obtain ⟨n, rfl⟩ : ∃ n, bound = n + 1 := ⟨bound - 1, by omega⟩
    rw [if_neg ((h.eq_error_iff hs).1 hty), hty, hs.typeTextWithin_error]
  · have hnil : r.reports s c = [] :=
      Decidable.not_not.1 fun hne => hty ((h.eq_error_iff hs).2 hne)
    rw [if_pos hnil, hs.typeTextWithin_of_means ht h hty hlt]

theorem typeText_of_typeTextWithin {ty : TypeId} {text : String}
    (h : s.table.typeTextWithin s.names (s.table.types.size + 1) ty = some text) :
    s.typeText ty = text := by
  rw [typeText, Table.typeText?, h, Option.getD_some]

theorem Means.index_lt {r : TypeRef} {ty : TypeId} (h : s.Means c r ty) (hs : s.Sound) :
    ty.index < s.table.types.size := by
  obtain ⟨t, hget⟩ := Option.isSome_iff_exists.1 (h.isSome_get? hs)
  exact (Array.getElem?_eq_some_iff.1 hget).1

theorem Means.text_eq {r : TypeRef} {ty : TypeId} (h : s.Means c r ty) (hs : s.Sound)
    (ht : s.table.Stratified) : s.typeText ty = r.typeText s c :=
  typeText_of_typeTextWithin (h.typeTextWithin_eq hs ht (Nat.lt_succ_of_lt (h.index_lt hs)))

end Store

/-- The levels of a written type that is resolved have the texts that they should have. -/
theorem TypeRef.ResolvedIn.boundTexts_eq {s : Store} {c : SymbolId} {r : TypeRef}
    (h : r.ResolvedIn s c) (hs : s.Sound) (ht : s.table.Stratified) :
    r.boundTexts s = (r.texts s c).map some := by
  induction r with
  | primitive | named =>
    obtain ⟨ty, hty, hm⟩ := h
    rw [boundTexts, annotations, List.map_singleton, texts, List.map_singleton,
      ← hm.text_eq hs ht]
    exact congrArg (fun ty => [Option.map s.typeText ty]) hty
  | array element _ _ ih =>
    obtain ⟨helement, ty, hty, hm⟩ := h
    rw [boundTexts, annotations, List.map_append, texts, List.map_append, List.map_singleton,
      List.map_singleton, ← hm.text_eq hs ht]
    exact congrArg₂ (· ++ ·) (ih helement) (congrArg (fun ty => [Option.map s.typeText ty]) hty)

/-! ## Declarations -/

/-- The texts of the type that a variable has been given, and of those of its written type. -/
def VarDecl.boundTexts (s : Store) (v : VarDecl) : List (Option String) :=
  v.ty.map s.typeText :: v.type.boundTexts s

/-- The text of the type of a symbol. -/
def Store.symbolTypeText (s : Store) (x : SymbolId) : String := s.typeText (s.table.typeOf x)

/-- The texts of the type of a callable and of those of its parts. -/
def CallableHead.boundTexts (s : Store) (kind : SymbolKind) (h : CallableHead) :
    List (Option String) :=
  h.symbol.map s.symbolTypeText :: (h.parts kind).flatMap (·.boundTexts s)

/-- The texts of the types of a callable and of the workers nested in it, and of all of their parts. -/
def Callable.boundTexts (s : Store) (kind : SymbolKind) (f : Callable) : List (Option String) :=
  (f.nested kind).flatMap fun e => e.2.head.boundTexts s e.1

/-- The texts of the types that a declaration and all that is declared in it have been given. -/
def Declaration.boundTexts (s : Store) : Declaration → List (Option String)
  | clause _ | use _ => []
  | struct d => d.symbol.map s.symbolTypeText :: d.fields.flatMap (·.boundTexts s)
  | connector d => d.symbol.map s.symbolTypeText ::
    (d.initializer.toList.flatMap (fun f => f.boundTexts s f.functionKind) ++
      d.actions.flatMap (·.boundTexts s .action))
  | service d => d.symbol.map s.symbolTypeText ::
    (d.initializer.toList.flatMap (fun f => f.boundTexts s f.functionKind) ++
      d.resources.flatMap (·.boundTexts s .resource))
  | function f => f.boundTexts s f.functionKind
  | var v => v.boundTexts s

/-! ## Declarations that are entered -/

theorem flatMap_eq_map_some {α β : Type} {xs : List α} {f : α → List (Option β)} {g : α → List β}
    (h : ∀ x ∈ xs, f x = (g x).map some) : xs.flatMap f = (xs.flatMap g).map some := by
  rw [List.map_flatMap]
  exact List.flatMap_congr h

section

variable {s : Store} {c : SymbolId} (hs : s.Sound) (ht : s.table.Stratified)
include hs ht

/-- A variable that has the type of its written type has the texts that it should have. -/
theorem VarDecl.boundTexts_eq {v : VarDecl} (hr : v.type.ResolvedIn s c) (hty : v.type.ty = v.ty) :
    v.boundTexts s = (v.texts s c).map some := by
  obtain ⟨ty, hresolved, hm⟩ := hr.means
  rw [boundTexts, texts, List.map_cons, hr.boundTexts_eq hs ht, ← hty, hresolved, Option.map_some,
    hm.text_eq hs ht]

/-- A receiver that has the type that it should have has the texts that it should have. -/
theorem VarDecl.boundTexts_of_received {method : Ident} {r : VarDecl} {pkg : PackageId}
    (hpkg : s.table.pkgOf c = some pkg) (hr : r.type.ResolvedIn s c)
    (hreceived : r.ReceivedIn s c method) :
    r.boundTexts s = (r.receiverTexts s c method).map some := by
  obtain ⟨ty, _, hm⟩ := hr.means
  have hreports := receiverReports_of_means hs hpkg hm method
  have htext := hm.text_eq hs ht
  have herror := typeText_of_typeTextWithin (hs.typeTextWithin_error s.table.types.size)
  rw [boundTexts, receiverTexts, List.map_cons, hr.boundTexts_eq hs ht,
    hreceived.ty_eq hs hpkg hm, Option.map_some, TypeRef.textIf]
  refine congrArg (some · :: _) ?_
  -- Only in the first case the receiver has the type that is written for it.
  cases hcase : s.receiverCase pkg ty with
  | own =>
    simp only [hcase] at hreports
    have hnil : r.type.reports s c = [] := (List.append_eq_nil_iff.1 hreports).1
    rw [if_pos rfl, if_pos hreports, htext, TypeRef.typeText, hnil, TypeRef.textIf, if_pos rfl]
  | foreign | notStruct =>
    simp only [hcase] at hreports
    rw [if_neg (by decide), hreports, if_neg (List.cons_ne_nil _ _), herror]
  | unresolved =>
    simp only [hcase] at hreports
    obtain ⟨d, hd, _⟩ := hreports
    rw [if_neg (by decide), hd, if_neg (List.cons_ne_nil _ _), herror]

omit hs ht in
/-- The texts of the types that variables have. -/
theorem mapM_filterMap_ty {f : TypeId → Option String} {g : VarDecl → String} {vs : List VarDecl}
    (h : ∀ v ∈ vs, ∃ ty, v.ty = some ty ∧ f ty = some (g v)) :
    (vs.filterMap (·.ty)).mapM f = some (vs.map g) := by
  induction vs with
  | nil => rfl
  | cons v rest ih =>
    obtain ⟨hv, hrest⟩ := List.forall_mem_cons.1 h
    obtain ⟨ty, hty, htext⟩ := hv
    rw [List.filterMap_cons_some hty, List.mapM_cons, htext, ih hrest]
    rfl

/-- The type of a complete callable has the text that it should have. -/
theorem Callable.CompletedIn.symbolTypeText_eq {kind : SymbolKind} {f : Callable}
    (h : f.CompletedIn s kind) (hr : ∀ v ∈ f.head.params ++ f.head.returns, v.type.ResolvedIn s c) :
    f.head.symbol.map s.symbolTypeText = some (f.head.signatureText s c) := by
  obtain ⟨x, sym, id, hx, hsym, hty, hid, _⟩ := h.complete
  -- The callable itself takes up one level of nesting.
  have htext : ∀ v ∈ f.head.params ++ f.head.returns, ∃ ty, v.ty = some ty ∧
      s.table.typeTextWithin s.names s.table.types.size ty = some (v.type.typeText s c) :=
    fun v hv => by
      obtain ⟨ty, hresolved, hm⟩ := (hr v hv).means
      exact ⟨ty, (h.typed v hv).2 ▸ hresolved, hm.typeTextWithin_eq hs ht (hm.index_lt hs)⟩
  have hparams := mapM_filterMap_ty fun v hv => htext v (List.mem_append_left _ hv)
  have hreturns := mapM_filterMap_ty fun v hv => htext v (List.mem_append_right _ hv)
  have htypeOf : s.table.typeOf x = id := by
    rw [Table.typeOf, hsym, Option.bind_some, hty]
    rfl
  rw [hx, Option.map_some, symbolTypeText, htypeOf, typeText_of_typeTextWithin]
  rw [Table.typeTextWithin, hid, CallableHead.signature]
  simp only [hparams, hreturns]
  rfl

/-- A complete callable has the texts that it should have. -/
theorem Callable.CompletedIn.boundTexts_head {kind : SymbolKind} {f : Callable} {pkg : PackageId}
    (h : f.CompletedIn s kind) (hpkg : s.table.pkgOf c = some pkg)
    (hr : ∀ v ∈ f.head.parts kind, v.type.ResolvedIn s c)
    (hreceived : ∀ r ∈ f.head.receivers kind, r.ReceivedIn s c f.head.name) :
    f.head.boundTexts s kind = (f.head.texts s c kind).map some := by
  rw [CallableHead.parts_eq] at hr
  have hparams : f.head.params ⊆ f.head.params ++ f.head.returns := List.subset_append_left _ _
  have hreturns : f.head.returns ⊆ f.head.params ++ f.head.returns := List.subset_append_right _ _
  have hresolved : ∀ v ∈ f.head.params ++ f.head.returns, v.type.ResolvedIn s c := fun v hv =>
    hr v ((List.mem_append.1 hv).elim (fun hv => List.mem_append_left _ (List.mem_append_left _ hv))
      (List.mem_append_right _))
  have hvars : ∀ vs ⊆ f.head.params ++ f.head.returns,
      vs.flatMap (·.boundTexts s) = (vs.flatMap (·.texts s c)).map some := fun vs hvs =>
    flatMap_eq_map_some fun v hv =>
      VarDecl.boundTexts_eq hs ht (hresolved v (hvs hv)) (h.typed v (hvs hv)).2
  have hreceivers : (f.head.receivers kind).flatMap (·.boundTexts s) =
      ((f.head.receivers kind).flatMap (·.receiverTexts s c f.head.name)).map some :=
    flatMap_eq_map_some fun r hmem => VarDecl.boundTexts_of_received hs ht hpkg
      (hr r (List.mem_append_left _ (List.mem_append_right _ hmem))) (hreceived r hmem)
  rw [CallableHead.boundTexts, h.symbolTypeText_eq hs ht hresolved, CallableHead.parts_eq,
    List.flatMap_append, List.flatMap_append, hvars _ hparams, hreceivers, hvars _ hreturns,
    CallableHead.texts, List.map_cons, List.map_append, List.map_append]

omit hs ht in
theorem Struct.SealedIn.typed {d : Struct} (h : d.SealedIn s) : ∀ v ∈ d.fields, v.type.ty = v.ty := by
  obtain ⟨fields, hstruct, hfields⟩ := h
  -- The induction is on the fields, whichever struct they belong to.
  clear hstruct
  generalize d.fields = vs at hfields ⊢
  induction hfields with
  | nil => exact fun v hv => absurd hv List.not_mem_nil
  | cons hof _ ih => exact List.forall_mem_cons.2 ⟨hof.type.trans hof.ty.symm, ih⟩

omit ht in
/-- The type of a struct, connector or service is called as what is declared. -/
theorem Store.Has.symbolTypeText_eq {o : Offer} (h : s.Has o) (hk : o.kind.isType) :
    o.symbol.map s.symbolTypeText = some o.text := by
  obtain ⟨x, sym, hx, hsym, hkind, _, _, _, htext, _⟩ := h
  have hname : s.symbolText x = o.text := by
    rw [symbolText_of_symbol? hsym, Names.text, htext, Option.getD_some]
  rw [hx, Option.map_some, symbolTypeText, typeText_of_typeTextWithin
    (hs.typeTextWithin_typeOf hsym (hkind ▸ hk) _), hname]

end

/-! ## Packages -/

namespace Package

/-- Only the functions of a package that is initialized are methods. -/
theorem Initialized.mem_functions_of_method {config : Config} {title : String} {p : Package}
    (h : p.Initialized config title) {f : Callable} (hf : (.method, f) ∈ p.everyCallable) :
    f ∈ p.functions := by
  -- Initializers have no receivers.
  have hinit : ∀ {f? : Option Callable} {g : Callable} {span : Span} {name : String}
      {params : List VarDecl} {defs : List VarDef},
      (∃ f, f? = some f ∧ f.bare = (Callable.initializer span name params defs).bare) →
        g ∈ f?.toList → g.functionKind ≠ .method := by
    rintro _ g _ _ _ _ ⟨f, rfl, hbare⟩ hg
    cases List.mem_singleton.1 hg
    have hkind : g.functionKind = .function :=
      congrArg (·.2.1) (Callable.functionHeading_of_bare hbare)
    rw [hkind]
    nofun
  obtain ⟨⟨kind, head, workers⟩, he₀, he⟩ := List.mem_flatMap.1 hf
  rw [Callable.nested] at he
  rcases List.mem_cons.1 he with heq | he
  · obtain ⟨rfl, rfl⟩ := Prod.mk.inj heq
    generalize heq : (SymbolKind.method, Callable.mk head workers) = e at he₀
    cases mem_callables.1 he₀ with
    | @connectorInitializer d g hd hg =>
      exact absurd (congrArg Prod.fst heq).symm (hinit (h.connector d hd) hg)
    | action => cases heq
    | @function g hg =>
      obtain ⟨_, rfl⟩ := Prod.mk.inj heq
      exact hg
    | @serviceInitializer d g hd hg =>
      exact absurd (congrArg Prod.fst heq).symm (hinit (h.service d hd) hg)
    | resource => cases heq
    | @initializer g hg =>
      obtain ⟨f, vars, hsome, hbare⟩ := h.package
      exact absurd (congrArg Prod.fst heq).symm (hinit ⟨f, hsome, hbare⟩ hg)
  · cases Callable.kind_of_mem_nestedWorkers workers he

namespace Entered

variable {load : Loader} {site : Site} {s₀ s s₁ s' : Session} {imports : List Import} {p : Package}
  (h : Entered load site s₀ s s₁ imports p s') (hcomplete : p.CompleteIn s'.store site.package)
  (ht : s'.store.table.Stratified)
include h hcomplete ht

/-- The callables of a package have the texts that they should have. -/
theorem boundTexts_callable {kind : SymbolKind} {f : Callable} (hf : (kind, f) ∈ p.callables) :
    f.boundTexts s'.store kind = (f.texts s'.store site.package kind).map some := by
  have hs := h.members.sound h.opens.sound.store
  refine flatMap_eq_map_some fun e' he' => ?_
  have hmem : e' ∈ p.everyCallable := List.mem_flatMap.2 ⟨_, hf, he'⟩
  obtain ⟨_, hparts⟩ := offers_of_mem_everyCallable (c := site.package) hmem
  refine (hcomplete.completed e' hmem).boundTexts_head hs ht
    (h.follows.grows.table.pkgOf h.opens.pkgOf) (fun v hv => (h.vars v (hparts v hv)).type) ?_
  intro r hr
  rw [CallableHead.receivers] at hr
  split at hr
  · next hmethod =>
    obtain ⟨_, g⟩ := e'
    cases hmethod
    exact hcomplete.received g (h.initialized.mem_functions_of_method hmem) r
      (Option.mem_toList.1 hr)
  · exact absurd hr List.not_mem_nil

/-- The declarations of a package have the texts that they should have. -/
theorem boundTexts_eq {d : Declaration} (hd : d ∈ p.members) :
    d.boundTexts s'.store = (d.texts s'.store site.package).map some := by
  have hs := h.members.sound h.opens.sound.store
  have hhas : ∀ {o : Offer}, o ∈ typeOffers site.package p → s'.store.Has o := fun ho =>
    h.follows.has _ ((typeOffers_sublist site.package p).subset ho)
  have hcallable : ∀ {kind : SymbolKind} {f : Callable}, (kind, f) ∈ p.callables →
      f.boundTexts s'.store kind = (f.texts s'.store site.package kind).map some :=
    h.boundTexts_callable hcomplete ht
  have hvar : ∀ {v : VarDecl}, v ∈ p.allVars → v.type.ty = v.ty →
      v.boundTexts s'.store = (v.texts s'.store site.package).map some := fun hv hty =>
    VarDecl.boundTexts_eq hs ht (h.vars _ hv).type hty
  simp only [Package.members, List.mem_append, List.mem_map, or_assoc] at hd
  rcases hd with ⟨d, hd, rfl⟩ | ⟨d, hd, rfl⟩ | ⟨d, hd, rfl⟩ | ⟨f, hf, rfl⟩ | ⟨v, hv, rfl⟩
  · have hsymbol := (hhas (List.mem_append_left _ (List.mem_append_left _
      (List.mem_map_of_mem hd)))).symbolTypeText_eq hs rfl
    have hfields : d.fields.flatMap (·.boundTexts s'.store) =
        (d.fields.flatMap (·.texts s'.store site.package)).map some :=
      flatMap_eq_map_some fun v hv => hvar (by
        have hmem := List.mem_flatMap.2 ⟨d, hd, hv⟩
        simp only [allVars, List.mem_append]
        tauto) ((hcomplete.sealed d hd).typed v hv)
    exact List.cons_eq_cons.2 ⟨hsymbol, hfields⟩
  · have hsymbol := (hhas (List.mem_append_left _ (List.mem_append_right _
      (List.mem_map_of_mem hd)))).symbolTypeText_eq hs rfl
    have hinitializer := flatMap_eq_map_some fun f hf =>
      hcallable (mem_callables.2 (.connectorInitializer hd hf))
    have hactions := flatMap_eq_map_some fun f hf => hcallable (mem_callables.2 (.action hd hf))
    rw [Declaration.boundTexts, Declaration.texts, List.map_cons, List.map_append, ← hactions,
      ← hinitializer]
    exact congrArg (· :: _) hsymbol
  · have hsymbol := (hhas (List.mem_append_right _ (List.mem_map_of_mem hd))).symbolTypeText_eq hs rfl
    have hinitializer := flatMap_eq_map_some fun f hf =>
      hcallable (mem_callables.2 (.serviceInitializer hd hf))
    have hresources := flatMap_eq_map_some fun f hf => hcallable (mem_callables.2 (.resource hd hf))
    rw [Declaration.boundTexts, Declaration.texts, List.map_cons, List.map_append, ← hresources,
      ← hinitializer]
    exact congrArg (· :: _) hsymbol
  · exact hcallable (mem_callables.2 (.function hf))
  · refine hvar ?_ (hcomplete.typed v hv)
    simp only [allVars, List.mem_append]
    tauto

end Entered

end Package

end Binder
