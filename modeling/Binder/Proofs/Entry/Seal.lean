import Binder.Proofs.Retention

/-!
# Sealing structs

The struct types of a package are made first and get their fields when all types of the package are
there. Until then they are in the table without fields, and entering the fields of one struct leaves
the types of the others as they are. So each struct that a package declares comes out sealed with
the fields it declares, one for one, and since nothing changes a sealed type, it stays so.

* `Field.Of`: the place of a declared field in a struct type.
* `Struct.SealedIn`: the type of a struct has its fields.
* `Package.sealed_enterMembers`: the structs of a package are sealed when its members are entered.
* `Store.Seals`: the structs that are made between two stores, all of them sealed.
* `Session.loadWithin_seals`, `Session.seals_respond`: what loads and requests seal.
-/

namespace Binder

open Store

variable {m : Mark} {s s' s'' : Store} {site : Site} {c : SymbolId}

/-- The place in a struct type of a field that is entered: it has the name of the field and the type
    that the written type of the field was resolved to. -/
structure Field.Of (names : Names) (f : Field) (v : VarDecl) : Prop where
  name : names.text? f.name = some v.name.text
  ty : v.ty = some f.ty
  type : v.type.ty = some f.ty

/-- The symbol is that of a struct, whose type has the fields `fields?`. -/
def Store.HasStruct (s : Store) (symbol : Option SymbolId) (fields? : Option (List Field)) : Prop :=
  ∃ x sym id, symbol = some x ∧ s.table.symbol? x = some sym ∧ sym.kind = .struct ∧
    sym.ty = some id ∧ s.table.types.get? id = some (.struct ⟨x, fields?⟩)

/-- The type of the struct has the fields that the struct declares, in order. -/
def Struct.SealedIn (s : Store) (d : Struct) : Prop :=
  ∃ fields, s.HasStruct d.symbol (some fields) ∧ List.Forall₂ (Field.Of s.names) fields d.fields

/-! ## What stays -/

theorem Field.Of.mono {names names' : Names} {f : Field} {v : VarDecl} (h : f.Of names v)
    (g : names.texts <+: names'.texts) : f.Of names' v :=
  ⟨Names.text?_mono g h.name, h.ty, h.type⟩

/-- A sealed struct stays sealed. -/
theorem Struct.SealedIn.mono {d : Struct} (h : d.SealedIn s) (hr : s.Retains s') :
    d.SealedIn s' := by
  obtain ⟨fields, ⟨x, sym, id, hx, hsym, hk, hty, hid⟩, hfields⟩ := h
  exact ⟨fields, ⟨x, sym, id, hx, hr.symbol hsym, hk, hty, hr.type hid nofun⟩,
    hfields.imp fun _ _ hf => hf.mono hr.names⟩

/-- A run with a mark that no type is newer than leaves struct types alone, sealed or not. -/
theorem Store.HasStruct.of_run {n : Nat} {os : List Offer} {symbol : Option SymbolId}
    {fields? : Option (List Field)} (h : s.HasStruct symbol fields?)
    (hrun : Run ⟨n, s.table.types.size⟩ s os s') : s'.HasStruct symbol fields? := by
  obtain ⟨x, sym, id, hx, hsym, hk, hty, hid⟩ := h
  have hold : id.index < s.table.types.size := (Array.getElem?_eq_some_iff.1 hid).1
  exact ⟨x, sym, id, hx, hrun.retains.symbol hsym, hk, hty, hrun.get?_of_older hold hid⟩

/-- At a site, what is there can be taken to be older than the mark, as far as types go. -/
theorem Site.At.renew (h : site.At c m s) : site.At c ⟨m.symbols, s.table.types.size⟩ s :=
  { h with types := Nat.le_refl _ }

theorem Site.Top.renew (h : site.Top m s) : site.Top ⟨m.symbols, s.table.types.size⟩ s :=
  { h with toAt := h.toAt.renew }

/-! ## Declaring structs -/

/-- What is done for one element after another: `R` holds of each result at the end, if what is done
    later respects it, and `D` holds of each element when its turn comes. -/
theorem run_mapM_spec {σ α β : Type} {f : α → StateM σ β} {P : σ → Prop} {D : α → σ → Prop}
    {R : β → σ → Prop} (hf : ∀ x s, P s → D x s → P (f x s).2 ∧ R (f x s).1 (f x s).2)
    (hR : ∀ x s y, P s → D x s → R y s → R y (f x s).2) {xs : List α}
    (hD : xs.Pairwise fun x y => ∀ s, P s → D x s → D y s → D y (f x s).2) {s : σ} (hs : P s)
    (hd : ∀ x ∈ xs, D x s) :
    (∀ y ∈ (xs.mapM f s).1, R y (xs.mapM f s).2) ∧ ∀ y, R y s → R y (xs.mapM f s).2 := by
  induction xs generalizing s with
  | nil => exact ⟨fun y hy => absurd hy List.not_mem_nil, fun _ hy => hy⟩
  | cons x xs ih =>
    obtain ⟨hx, hxs⟩ := List.pairwise_cons.1 hD
    have hdx := hd x List.mem_cons_self
    obtain ⟨hP, hfx⟩ := hf x s hs hdx
    obtain ⟨hrest, hold⟩ := ih hxs hP fun y hy =>
      hx y hy s hs hdx (hd y (List.mem_cons_of_mem _ hy))
    rw [run_mapM_cons]
    refine ⟨fun y hy => ?_, fun y hy => hold y (hR x s y hs hdx hy)⟩
    rcases List.mem_cons.1 hy with rfl | hy
    · exact hold _ hfx
    · exact hrest y hy

namespace Struct

/-- The symbol of a struct is made with a type that has no fields. -/
theorem hasStruct_offerNext (s : Store) {sym : Symbol} (hk : sym.kind = .struct) (scope : ScopeId)
    (parent : Option ScopeId) :
    (s.offerNext sym scope (s.table.addTypeOwner sym parent)).HasStruct (some s.table.nextSymbol)
      none := by
  have hsymbol := (symbol?_offerNext sym scope (s.table.addTypeOwner sym parent) s _).trans
    ((s.table.symbol?_addTypeOwner sym parent _).trans (if_pos rfl))
  refine ⟨s.table.nextSymbol, _, ⟨s.table.types.size⟩, rfl, hsymbol, hk, rfl, ?_⟩
  rw [types_offerNext]
  refine (s.table.types.get?_alloc _ _).trans ((if_pos rfl).trans ?_)
  rw [hk]
  rfl

/-- A struct that is declared has a type without fields. -/
theorem hasStruct_declare (d : Struct) (h : site.Top m s) :
    (d.declare site s).2.HasStruct (d.declare site s).1.symbol none := by
  unfold declare
  simp only [run_bind, run_pure]
  rw [declareContainer_eq h]
  exact hasStruct_offerNext _ rfl _ _

/-- Declaring structs gives each of them a type without fields. -/
theorem hasStruct_mapM_declare (ds : List Struct) (h : site.Top m s) :
    ∀ d ∈ (ds.mapM (·.declare site) s).1,
      (ds.mapM (·.declare site) s).2.HasStruct d.symbol none :=
  (run_mapM_spec (P := site.Top m) (D := fun _ _ => True)
    (R := fun (d : Struct) s => s.HasStruct d.symbol none)
    (fun d _ h _ => ⟨h.mono ((d.run_declare h).1.follows h.sound), d.hasStruct_declare h⟩)
    (fun d _ _ h _ hy => hy.of_run (d.run_declare h.renew).1)
    (List.pairwise_of_forall fun _ _ _ _ _ _ => trivial) h fun _ _ => trivial).1

/-! ## Entering fields -/

/-- A field is entered, and so is its place in the struct type. -/
theorem of_enterField (site : Site) (v : VarDecl) (s : Store) :
    (enterField site v s).1.2.Of (enterField site v s).2.names (enterField site v s).1.1 := by
  have hty := ({ v with type := (v.type.resolve site.scope s).1.1 } : VarDecl).enterWith_written site
    (v.type.resolve site.scope s).1.2 (v.type.resolve site.scope s).2
  have htype := VarDecl.type_enterWith site (v.type.resolve site.scope s).1.2
    { v with type := (v.type.resolve site.scope s).1.1 } (v.type.resolve site.scope s).2
  unfold enterField VarDecl.enter
  simp only [run_bind, run_pure, hty.1, Option.getD_some]
  refine ⟨Names.text?_intern _ _, hty.1, ?_⟩
  rw [htype]
  exact v.type.resolve_fst_ty site.scope s

/-- The places of the fields are those of the fields that are entered. -/
theorem forall₂_mapM_enterField (vs : List VarDecl) (h : site.At c m s) :
    List.Forall₂ (Field.Of (vs.mapM (enterField site) s).2.names)
      ((vs.mapM (enterField site) s).1.map (·.2)) ((vs.mapM (enterField site) s).1.map (·.1)) := by
  have hof : Run m s ((vs.mapM (enterField site) s).1.flatMap fun r => r.1.offers (some c))
      (vs.mapM (enterField site) s).2 ∧
      ∀ r ∈ (vs.mapM (enterField site) s).1, r.2.Of (vs.mapM (enterField site) s).2.names r.1 :=
    Run.mapM (Q := fun _ => True) (P := site.At c m)
      (R := fun (r : VarDecl × Field) s => r.2.Of s.names r.1) (fun _ _ _ => trivial)
      (fun h => h.sound) (fun hf h => h.mono hf) (fun hf _ _ hr => hr.mono hf.grows.names)
      (fun v _ s h => ⟨(run_enterField v h).1, of_enterField site v s⟩) h
  rw [List.forall₂_map_left_iff, List.forall₂_map_right_iff, List.forall₂_same]
  exact hof.2

/-- When the fields of a struct are entered, its type gets them, and the other types stay as they
    are. -/
theorem sealed_enterFields (d : Struct) (h : site.Top m s)
    (hd : Declared m s site.package .struct d.symbol) (hnone : s.HasStruct d.symbol none) :
    (d.enterFields site s).1.SealedIn (d.enterFields site s).2 ∧
      ∀ id ty, s.table.types.get? id = some ty → (∀ x, d.symbol = some x → ty ≠ .struct ⟨x, none⟩) →
        (d.enterFields site s).2.table.types.get? id = some ty := by
  have hk : SymbolKind.struct.isType := rfl
  obtain ⟨x, i, hx, hi, hsite⟩ := h.inContainer hk hd .struct
  obtain ⟨hrun, _⟩ := run_mapM_enterField d.fields hsite.renew
  have hfields := forall₂_mapM_enterField d.fields hsite
  obtain ⟨y, sym, id, hy, hsym, hkind, hty, hid⟩ := hnone.of_run hrun
  cases hx.symm.trans hy
  obtain ⟨z, sym₀, id₀, hz, hsym₀, _, hty₀, _⟩ := hnone
  cases hx.symm.trans hz
  cases (hrun.retains.symbol hsym₀).symm.trans hsym
  cases hty.symm.trans hty₀
  have htypeOf : (d.symbol.map s.table.typeOf).getD .error = id := by
    rw [hx, Option.map_some, Option.getD_some, Table.typeOf, hsym₀, Option.bind_some, hty,
      Option.getD_some]
  have hstruct : (d.fields.mapM (enterField (site.inContainer .struct i)) s).2.table.types.struct?
      id = some ⟨x, none⟩ := by
    rw [Types.struct?, hid]
    rfl
  rw [enterFields_eq hi, htypeOf]
  generalize d.fields.mapM (enterField (site.inContainer .struct i)) s = r at *
  obtain ⟨entered, s₁⟩ := r
  simp only [Store.setFields]
  cases hset : s₁.table.types.setFields? id (entered.map (·.2)) with
  | none =>
    rw [Types.setFields?, hstruct] at hset
    cases hset
  | some types =>
    obtain ⟨w, hw, _, hget⟩ := s₁.table.types.get?_setFields? hset
    cases hid.symm.trans hw
    refine ⟨⟨entered.map (·.2), ⟨x, sym, id, hx, hsym, hkind, hty, (hget id).trans (if_pos rfl)⟩,
      hfields⟩, fun j ty hj hne => ?_⟩
    have hold : j.index < s.table.types.size := (Array.getElem?_eq_some_iff.1 hj).1
    have hkept := hrun.get?_of_older hold hj
    have hji : j ≠ id := by
      rintro rfl
      exact hne x hx (Option.some.inj (hkept.symm.trans hid))
    exact (hget j).trans ((if_neg hji).trans hkept)

/-- Entering the fields of one struct leaves the type of another one without fields. -/
theorem hasStruct_enterFields {d d' : Struct} (h : site.Top m s)
    (hd : Declared m s site.package .struct d.symbol) (hnone : s.HasStruct d.symbol none)
    (hne : d.symbol ≠ d'.symbol) (hnone' : s.HasStruct d'.symbol none) :
    (d.enterFields site s).2.HasStruct d'.symbol none := by
  obtain ⟨x, sym, id, hx, hsym, hkind, hty, hid⟩ := hnone'
  refine ⟨x, sym, id, hx, (d.run_enterFields h hd).1.retains.symbol hsym, hkind, hty,
    (d.sealed_enterFields h hd hnone).2 id _ hid fun y hy heq => hne ?_⟩
  cases heq
  rw [hx, hy]

/-- The structs of a package are sealed one after another. -/
theorem sealed_mapM_enterFields {ds : List Struct} (h : site.Top m s)
    (hd : ∀ d ∈ ds, Declared m s site.package .struct d.symbol ∧ s.HasStruct d.symbol none)
    (hnodup : (ds.map (·.symbol)).Nodup) :
    ∀ d ∈ (ds.mapM (·.enterFields site) s).1, d.SealedIn (ds.mapM (·.enterFields site) s).2 :=
  (run_mapM_spec (P := site.Top m)
    (D := fun (d : Struct) s =>
      Declared m s site.package .struct d.symbol ∧ s.HasStruct d.symbol none)
    (R := fun (d : Struct) s => d.SealedIn s)
    (fun d _ h hd => ⟨h.mono ((d.run_enterFields h hd.1).1.follows h.sound),
      (d.sealed_enterFields h hd.1 hd.2).1⟩)
    (fun d _ _ h hd hy => hy.mono (d.run_enterFields h hd.1).1.retains)
    ((List.pairwise_map.1 hnodup).imp fun hne _ h hd hd' =>
      ⟨hd'.1.mono ((Struct.run_enterFields _ h hd.1).1.follows h.sound).grows,
        hasStruct_enterFields h hd.1 hd.2 hne hd'.2⟩)
    h hd).1

end Struct

/-! ## What is sealed between two stores -/

/-- The structs that are made between `s` and `s'` are `ds`, each made once, and all are sealed. -/
structure Store.Seals (s : Store) (ds : List Struct) (s' : Store) : Prop where
  retains : s.Retains s'
  nodup : (ds.map (·.symbol)).Nodup
  fresh : ∀ d ∈ ds, ∀ x, d.symbol = some x → s.table.symbol? x = none
  sealed : ∀ d ∈ ds, d.SealedIn s'
  made : ∀ x sym, s.table.symbol? x = none → s'.table.symbol? x = some sym → sym.kind = .struct →
    ∃ d ∈ ds, d.symbol = some x

namespace Store.Seals

variable {ds ds' : List Struct}

/-- No struct is made. -/
theorem of_nil (hr : s.Retains s') (hmade : ∀ x sym, s.table.symbol? x = none →
    s'.table.symbol? x = some sym → sym.kind ≠ .struct) : s.Seals [] s' where
  retains := hr
  nodup := List.nodup_nil
  fresh _ hd := absurd hd List.not_mem_nil
  sealed _ hd := absurd hd List.not_mem_nil
  made x sym hold hnew hk := absurd hk (hmade x sym hold hnew)

/-- No symbol is made at all. -/
theorem of_symbols (hr : s.Retains s')
    (h : ∀ x, s'.table.symbol? x = s.table.symbol? x) : s.Seals [] s' :=
  .of_nil hr fun x sym hold hnew => by
    rw [h, hold] at hnew
    cases hnew

theorem refl (s : Store) : s.Seals [] s := .of_symbols (.refl s) fun _ => rfl

theorem trans (h : s.Seals ds s') (h' : s'.Seals ds' s'') : s.Seals (ds ++ ds') s'' where
  retains := h.retains.trans h'.retains
  nodup := by
    rw [List.map_append, List.nodup_append]
    refine ⟨h.nodup, h'.nodup, fun x hx y hy hxy => ?_⟩
    -- What is made first is there when the rest is made.
    obtain ⟨d, hd, rfl⟩ := List.mem_map.1 hx
    obtain ⟨d', hd', rfl⟩ := List.mem_map.1 hy
    obtain ⟨_, ⟨z, sym, _, hz, hsym, _⟩, _⟩ := h.sealed d hd
    exact nomatch hsym.symm.trans (h'.fresh d' hd' z (hxy.symm.trans hz))
  fresh d hd x hx := by
    rcases List.mem_append.1 hd with hd | hd
    · exact h.fresh d hd x hx
    · by_contra hne
      obtain ⟨sym, hsym⟩ := Option.ne_none_iff_exists'.1 hne
      exact nomatch (h.retains.symbol hsym).symm.trans (h'.fresh d hd x hx)
  sealed d hd := (List.mem_append.1 hd).elim (fun hd => (h.sealed d hd).mono h'.retains)
    (h'.sealed d)
  made x sym hold hnew hk := by
    cases hx : s'.table.symbol? x with
    | none =>
      obtain ⟨d, hd, hsymbol⟩ := h'.made x sym hx hnew hk
      exact ⟨d, List.mem_append_right _ hd, hsymbol⟩
    | some sym' =>
      cases (h'.retains.symbol hx).symm.trans hnew
      obtain ⟨d, hd, hsymbol⟩ := h.made x sym hold hx hk
      exact ⟨d, List.mem_append_left _ hd, hsymbol⟩

/-- The order in which the structs are listed does not matter. -/
theorem perm (h : s.Seals ds s') (hp : ds.Perm ds') : s.Seals ds' s' where
  retains := h.retains
  nodup := (hp.map _).nodup h.nodup
  fresh d hd := h.fresh d (hp.mem_iff.2 hd)
  sealed d hd := h.sealed d (hp.mem_iff.2 hd)
  made x sym hold hnew hk :=
    let ⟨d, hd, hsymbol⟩ := h.made x sym hold hnew hk
    ⟨d, hp.mem_iff.1 hd, hsymbol⟩

end Store.Seals

/-! ## Packages -/

namespace Package

/-- The structs that a package offers are the ones it declares. -/
theorem exists_struct_of_mem_memberOffers {container : Option SymbolId} {p : Package} {o : Offer}
    (ho : o ∈ p.memberOffers container) (hk : o.kind = .struct) :
    ∃ d ∈ p.structs, d.offer container = o := by
  have hinner : ¬o.Inner := fun h => h.elim (fun hvar => nomatch hk.symm.trans hvar)
    fun hcallable => by rw [hk] at hcallable; cases hcallable
  simp only [memberOffers, List.mem_append] at ho
  rcases ho with (((((((hstruct | hconnector) | hservice) | hfield) | haction) | hfunction) |
    hservice) | hvar) | hinit
  · exact List.mem_map.1 hstruct
  · obtain ⟨d, _, ho⟩ := List.mem_flatMap.1 hconnector
    rcases List.mem_cons.1 ho with rfl | ho
    · cases hk
    · exact absurd (Offer.inner_flatMap Callable.inner_functionOffers _ o ho) hinner
  · obtain ⟨d, _, rfl⟩ := List.mem_map.1 hservice
    cases hk
  · exact absurd (Offer.inner_flatMap Struct.inner_fieldOffers _ o hfield) hinner
  · exact absurd (Offer.inner_flatMap Connector.inner_actionOffers _ o haction) hinner
  · exact absurd (Offer.inner_flatMap Callable.inner_functionOffers _ o hfunction) hinner
  · exact absurd (Offer.inner_flatMap (fun d => d.inner_memberOffers _) _ o hservice) hinner
  · exact absurd (VarDecl.inner_flatMap_offers _ _ o hvar) hinner
  · exact absurd (Offer.inner_flatMap Callable.inner_functionOffers _ o hinit) hinner

section

variable {config : Config} {structs structs' : List Struct} {connectors connectors' : List Connector}
  {services services' : List Service} {functions : List Callable} {vars : List VarDecl}
  {s₁ s₂ s₃ s₄ s₅ s₆ s₇ s₈ : Store} {p : Package}

/-- When the types of a package are there, its structs have theirs, and they have no fields yet. -/
theorem hasStruct_declare (h : site.Top m s)
    (h₁ : p.structs.mapM (·.declare site) s = (structs, s₁))
    (h₂ : p.connectors.mapM (·.declare config site) s₁ = (connectors, s₂))
    (h₃ : p.services.mapM (·.declare site) s₂ = (services, s₃)) :
    (structs.map (·.symbol)).Nodup ∧ ∀ d ∈ structs, s₃.HasStruct d.symbol none := by
  have hrun := (run_mapM_declareStruct h h₁).1
  have hstructs := Struct.hasStruct_mapM_declare p.structs h
  rw [h₁] at hstructs
  -- What is declared after the structs leaves alone the types that are there by then.
  have hrest := (run_declare (p := { p with structs := [] }) (h.mono (hrun.follows h.sound)).renew
    rfl h₂ h₃).1
  refine ⟨?_, fun d hd => (hstructs d hd).of_run hrest⟩
  have hfresh := (hrun.fresh h.sound).1
  rw [List.map_map] at hfresh
  exact hfresh

/-- Nothing that is entered after the structs changes what is there. -/
theorem retains_enter (h : site.Top m s₄)
    (hconnector : ∀ d ∈ connectors, d.DeclaredIn m config s₄ site.package)
    (hservice : ∀ d ∈ services, Declared m s₄ site.package .service d.symbol)
    (h₅ : connectors.mapM (·.enterActions site) s₄ = (connectors', s₅))
    (h₆ : p.functions.mapM (·.enterFunction site) s₅ = (functions, s₆))
    (h₇ : services.mapM (·.enterMembers config site) s₆ = (services', s₇))
    (h₈ : p.vars.mapM (·.enter site) s₇ = (vars, s₈)) (f : Callable) :
    s₄.Retains (f.enterFunction site s₈).2 := by
  obtain ⟨hr₅, _⟩ := run_mapM_enterActions h hconnector h₅
  have hf₅ := hr₅.follows h.sound
  obtain ⟨hr₆, _⟩ := run_mapM_enterFunction (h.mono hf₅) h₆
  have hf₆ := hr₆.follows hf₅.sound
  have ht₆ := (h.mono hf₅).mono hf₆
  obtain ⟨hr₈, _⟩ := run_enterServices ht₆
    (fun d hd => ((hservice d hd).mono hf₅.grows).mono hf₆.grows) h₇ h₈
  obtain ⟨hinit, _⟩ := f.run_enterFunction (ht₆.mono (hr₈.follows ht₆.sound)).toAt
  exact ((hr₅.retains.trans hr₆.retains).trans hr₈.retains).trans hinit.retains

end

/-- When the members of a package are entered, all of its structs are sealed. -/
theorem sealed_enterMembers (config : Config) (p : Package) (h : site.Top m s) :
    ∀ d ∈ (p.enterMembers config site s).1.structs, d.SealedIn (p.enterMembers config site s).2 := by
  obtain ⟨structs, connectors, services, structs', connectors', functions, services', vars, s₁, s₂,
    s₃, s₄, s₅, s₆, s₇, s₈, h₁, h₂, h₃, h₄, h₅, h₆, h₇, h₈⟩ := p.exists_stages config site s
  obtain ⟨hdeclare, hd⟩ := run_declare h h₁ h₂ h₃
  have ht₃ := h.mono (hdeclare.follows h.sound)
  obtain ⟨hnodup, hstructs⟩ := hasStruct_declare h h₁ h₂ h₃
  have hsealed := Struct.sealed_mapM_enterFields ht₃
    (fun d hd' => ⟨hd.struct d hd', hstructs d hd'⟩) hnodup
  rw [h₄] at hsealed
  have hf₄ := (run_mapM_enterFields ht₃ hd.struct h₄).1.follows ht₃.sound
  have hretains := retains_enter (ht₃.mono hf₄)
    (fun d hd' => (hd.connector d hd').mono hf₄ ht₃.sound)
    (fun d hd' => (hd.service d hd').mono hf₄.grows) h₅ h₆ h₇ h₈
    (makeInitializer (s₈.symbolText site.package) p.span vars config)
  rw [enterMembers_eq h₁ h₂ h₃ h₄ h₅ h₆ h₇ h₈]
  exact fun d hd' => (hsealed d hd').mono hretains

/-- The structs that entering the members of a package makes are those of the package, and they are
    sealed. -/
theorem seals_enterMembers (config : Config) (p : Package) (h : site.Top m s) :
    s.Seals (p.enterMembers config site s).1.structs (p.enterMembers config site s).2 := by
  obtain ⟨hrun, _⟩ := p.run_enterMembers config h
  have hsealed := p.sealed_enterMembers config h
  generalize p.enterMembers config site s = r at *
  obtain ⟨p', s'⟩ := r
  obtain ⟨hnodup, hfresh⟩ := hrun.fresh h.sound
  have hmem : ∀ d ∈ p'.structs, d.offer (some site.package) ∈
      p'.memberOffers (some site.package) := fun d hd => by
    simp only [memberOffers, List.mem_append]
    exact .inl (.inl (.inl (.inl (.inl (.inl (.inl (.inl (List.mem_map_of_mem hd))))))))
  refine ⟨hrun.retains, ?_, fun d hd x hx => hfresh _ (hmem d hd) x hx, hsealed,
    fun x sym hold hnew hk => ?_⟩
  · simp only [memberOffers, List.append_assoc, List.map_append, List.map_map] at hnodup
    exact (List.nodup_append.1 hnodup).1
  · obtain ⟨o, ho, hsymbol⟩ := hrun.mem_of_made hold (hnew ▸ rfl)
    obtain ⟨y, sym', hy, hsym', hkind, _⟩ := (hrun.follows h.sound).has o ho
    cases hsymbol.symm.trans hy
    cases hnew.symm.trans hsym'
    obtain ⟨d, hd, rfl⟩ := exists_struct_of_mem_memberOffers ho (hkind.symm.trans hk)
    exact ⟨d, hd, hsymbol⟩

end Package

/-! ## What is sealed between two sessions -/

namespace Package

/-- The package, if it is entered with success. -/
def finished (p : Package) : Except EnterError SymbolId → List Package
  | .ok _ => [p]
  | .error _ => []

end Package

/-- The library has a package that is `p` once it is entered. -/
def Library.Provides (l : Library) (p : Package) : Prop :=
  ∃ path version q, l.fetch? path version = some q ∧ p.bare = q.collect.bare

/-- Packages of the library are published between `s` and `s'`, and the structs that are made are
    theirs and those of the packages `ps`. All are sealed. -/
structure Session.Seals (s : Session) (ps : List Package) (s' : Session) : Prop where
  library : s'.registry.library = s.registry.library
  store : ∃ qs, s'.registry.loaded = s.registry.loaded ++ qs ∧
    (∀ q ∈ qs, s.registry.library.Provides q) ∧
    s.store.Seals ((qs ++ ps).flatMap (·.structs)) s'.store

namespace Session.Seals

variable {s s' s'' : Session} {ps ps' : List Package}

theorem of_store (hlibrary : s'.registry.library = s.registry.library)
    (hloaded : s'.registry.loaded = s.registry.loaded)
    (h : s.store.Seals (ps.flatMap (·.structs)) s'.store) : s.Seals ps s' :=
  ⟨hlibrary, [], hloaded.trans (List.append_nil _).symm, fun _ hq => absurd hq List.not_mem_nil, h⟩

theorem refl (s : Session) : s.Seals [] s := .of_store rfl rfl (.refl s.store)

theorem trans (h : s.Seals ps s') (h' : s'.Seals ps' s'') : s.Seals (ps ++ ps') s'' := by
  obtain ⟨hlibrary, qs, hqs, hprovides, hseals⟩ := h
  obtain ⟨hlibrary', qs', hqs', hprovides', hseals'⟩ := h'
  refine ⟨hlibrary'.trans hlibrary, qs ++ qs', by rw [hqs', hqs, List.append_assoc],
    fun q hq => ?_, (hseals.trans hseals').perm ?_⟩
  · rw [hlibrary] at hprovides'
    exact (List.mem_append.1 hq).elim (hprovides q) (hprovides' q)
  · -- The packages that are published come first, and then those of the caller.
    rw [← List.flatMap_append]
    refine List.Perm.flatMap_right _ ?_
    rw [List.append_assoc, List.append_assoc]
    refine List.Perm.append_left _ ?_
    rw [← List.append_assoc, ← List.append_assoc]
    exact List.perm_append_comm.append_right _

/-- States do not matter. -/
theorem setState (h : s.Seals ps s') (name : PackageName) (state : LoadState) :
    s.Seals ps (Session.setState name state s').2 :=
  ⟨h.library, h.store⟩

/-- A package of the library that is published was entered. -/
theorem publish {p : Package} (h : s.Seals [p] s') (hp : s.registry.library.Provides p) :
    s.Seals [] (Session.publish p s').2 := by
  obtain ⟨hlibrary, qs, hqs, hprovides, hseals⟩ := h
  refine ⟨hlibrary, qs ++ [p], ?_, fun q hq => ?_, ?_⟩
  · exact (congrArg (· ++ [p]) hqs).trans (List.append_assoc _ _ _)
  · rcases List.mem_append.1 hq with hq | hq
    · exact hprovides q hq
    · rw [List.mem_singleton.1 hq]
      exact hp
  · rw [List.append_nil]
    exact hseals

/-- What is done to a session without making a symbol or publishing a package. -/
theorem of_course (h : s.Course s') (hlibrary : s'.registry.library = s.registry.library)
    (hloaded : s'.registry.loaded = s.registry.loaded)
    (hmade : ∀ x, s'.store.table.symbol? x = s.store.table.symbol? x) : s.Seals [] s' :=
  .of_store hlibrary hloaded (.of_symbols h.retains hmade)

end Session.Seals

/-- Making a package name makes no symbol. -/
theorem Session.seals_internPackage (path : List String) (version : Option String) (s : Session) :
    s.Seals [] (onStore (Store.internPackage path version) s).2 :=
  .of_course (course_internPackage path version s) rfl rfl fun _ => rfl

/-- A package is finished as what comes of its entry. -/
theorem Package.bare_of_mem_finished {load : Loader} {path : Option PackageName} {p q : Package}
    {s : Session} (hp : p ∈ (q.enterWith load path s).1.1.finished (q.enterWith load path s).1.2) :
    p.bare = q.collect.bare := by
  have hbare := q.bare_enterWith load path s
  generalize q.enterWith load path s = r at *
  obtain ⟨⟨q', outcome⟩, s'⟩ := r
  cases outcome with
  | error e => exact absurd hp List.not_mem_nil
  | ok x =>
    rw [List.mem_singleton.1 hp]
    exact hbare

/-- A loader publishes the packages whose structs it makes, and all of these are sealed. -/
def Loader.Seals (load : Loader) : Prop :=
  ∀ name (s : Session), s.Sound → name.Known s.store.names → s.Seals [] (load name s).2

/-! ### Imports -/

namespace Import

variable {load : Loader} {site : Site} {s₀ s : Session}

theorem seals_enter (hseals : load.Seals) (site : Site) (i : Import) (hs : s.Sound) :
    s.Seals [] (i.enter load site s).2 := by
  obtain ⟨hs₁, _, hknown⟩ := hs.internPackage i.target.1 i.target.2
  have hload : s.Seals [] (i.loaded load s).2 :=
    (Session.seals_internPackage _ _ s).trans (hseals _ _ hs₁ hknown)
  cases hi : i.loaded load s with
  | mk outcome s₁ =>
    rw [hi] at hload
    cases outcome with
    | error e =>
      rw [enter_of_error hi]
      exact hload.trans (.of_course (.report s₁ _ _) rfl rfl fun _ => rfl)
    | ok x =>
      rw [enter_of_ok hi]
      have hintern : s₁.Course { s₁ with store := (Store.intern i.localName s₁.store).2 } :=
        .run (.intern (m := s₁.store.mark) _ _)
      exact hload.trans (.of_course (hintern.trans (.offer _ _ _ _ _)) rfl rfl fun y =>
        symbol?_define _ _ _ _ _ y)

theorem seals_enterAll (hload : load.Sound) (hseals : load.Seals) (imports : List Import)
    (h : site.Opens s₀ s) : s.Seals [] (enterAll load site imports s).2 := by
  induction imports generalizing s with
  | nil => exact .refl s
  | cons i rest ih =>
    obtain ⟨h₁, _⟩ := i.enter_opens hload h
    rw [enterAll_cons]
    exact (i.seals_enter hseals site h.sound).trans (ih h₁)

end Import

/-! ### Packages -/

namespace Package

variable {load : Loader} {site : Site} {s₀ s : Session} {path : Option PackageName}

/-- A package gets its symbol, which is no struct. -/
theorem store_seals_opened (p : Package) (hs : s.Sound)
    (hpath : ∀ name ∈ path, name.Known s.store.names) :
    s.store.Seals [] (p.opened path s).2.2.store := by
  have hopens := (p.opened_spec hs hpath).1.opens
  obtain ⟨_, hmade, _⟩ := p.opened_made path s
  refine .of_nil (p.course_opened hpath).retains fun x sym hold hnew hk => ?_
  rcases (hmade x).1 (hnew ▸ rfl) with hsome | rfl
  · rw [hold] at hsome
    cases hsome
  · obtain ⟨sym', hsym', hkind⟩ := Option.map_eq_some_iff.1 hopens.kindOf
    cases hnew.symm.trans hsym'
    exact nomatch hk.symm.trans hkind

theorem seals_opened (p : Package) (hs : s.Sound)
    (hpath : ∀ name ∈ path, name.Known s.store.names) : s.Seals [] (p.opened path s).2.2 :=
  .of_store rfl rfl (p.store_seals_opened hs hpath)

theorem seals_enterContents (hload : load.Sound) (hseals : load.Seals) (h : site.Opens s₀ s)
    (p : Package) :
    s.Seals ((p.enterContents load site s).1.1.finished (p.enterContents load site s).1.2)
      (p.enterContents load site s).2 := by
  obtain ⟨h₁, _⟩ := Import.enterAll_opens hload p.imports h
  have himports := Import.seals_enterAll hload hseals p.imports h
  cases hall : Import.enterAll load site p.imports s with
  | mk r s₁ =>
    obtain ⟨imports, failure⟩ := r
    rw [hall] at h₁ himports
    cases failure with
    | some e =>
      rw [enterContents_of_error hall]
      exact himports
    | none =>
      have hmembers := seals_enterMembers s₁.config { p with imports } h₁.top
      cases hp : { p with imports }.enterMembers s₁.config site s₁.store with
      | mk p' st =>
        rw [hp] at hmembers
        rw [enterContents_of_none hall hp]
        refine himports.trans (.of_store rfl rfl ?_)
        rw [List.flatMap_singleton]
        exact hmembers

theorem seals_enterWith (hload : load.Sound) (hseals : load.Seals) (p : Package) (hs : s.Sound)
    (hpath : ∀ name ∈ path, name.Known s.store.names) :
    s.Seals ((p.enterWith load path s).1.1.finished (p.enterWith load path s).1.2)
      (p.enterWith load path s).2 := by
  obtain ⟨hopened, _⟩ := p.collect.opened_spec hs hpath
  have hopen := p.collect.seals_opened hs hpath
  cases ho : p.collect.opened path s with
  | mk key r =>
    obtain ⟨site, s₁⟩ := r
    rw [ho] at hopened hopen
    have hcontents := seals_enterContents hload hseals hopened.opens
      { p.collect with symbol := some site.package }
    rw [enterWith_eq ho rfl]
    exact (hopen.trans hcontents).setState _ _

end Package

/-! ### Loads and requests -/

namespace Session

variable {s : Session}

theorem seals_enterFetched {load : Loader} (hload : load.Sound) (hseals : load.Seals)
    {name : PackageName} {p : Package} (hp : s.fetch? name = some p) (hs : s.Sound)
    (hname : name.Known s.store.names) : s.Seals [] (enterFetched load name p s).2 := by
  have hs₁ : (setState name .inProgress s).2.Sound := hs.setState hname nofun
  have hbegin : s.Seals [] (setState name .inProgress s).2 := (Seals.refl s).setState _ _
  have hentry := p.seals_enterWith hload hseals hs₁ (known_of_mem_some hname)
  have hbare := p.bare_enterWith load (some name) (setState name .inProgress s).2
  cases hr : p.enterWith load (some name) (setState name .inProgress s).2 with
  | mk r s₂ =>
    obtain ⟨p', outcome⟩ := r
    rw [hr] at hentry hbare
    cases outcome with
    | error e =>
      rw [enterFetched_of_error hr]
      exact hbegin.trans (hentry.setState _ _)
    | ok x =>
      rw [enterFetched_of_ok hr]
      exact (hbegin.trans (hentry.setState _ _)).publish ⟨_, _, p, hp, hbare⟩

/-- Loading, with loads nested at most `depth` deep in one another. -/
theorem loadWithin_seals : ∀ depth : Nat, Loader.Seals (loadWithin depth) :=
  loadWithin_induction (Q := fun _ s r => s.Seals [] r.2) (fun _ s _ _ _ _ => .refl s)
    fun depth _ _ _ ih hs hname hp =>
      seals_enterFetched (loadWithin_sound depth) ih hp.fetch? hs hname

end Session

/-- The package of the caller that a request was answered with, if it was entered with success. -/
def Response.finished : Response → List Package
  | .entered p outcome => p.finished outcome
  | .loaded _ => []

/-- The package is the one that the request gives. -/
inductive Request.Gives : Request → Package → Prop
  | define (p : Package) : Gives (.define p) p
  | enterAs (path : List String) (version : Option String) (p : Package) :
    Gives (.enterAs path version p) p

namespace Session

variable {s : Session}

/-- The packages of the caller that are entered with success by some requests, in order. -/
def finished (s : Session) : List Request → List Package
  | [] => []
  | r :: rest => (respond r s).1.finished ++ (respond r s).2.finished rest

theorem seals_respond (r : Request) (hs : s.Sound) :
    s.Seals (respond r s).1.finished (respond r s).2 := by
  cases r with
  | define p =>
    exact p.seals_enterWith (loadWithin_sound s.depthBound) (loadWithin_seals s.depthBound) hs nofun
  | enterAs path version p =>
    obtain ⟨hs₁, _, hname⟩ := hs.internPackage path version
    exact (seals_internPackage path version s).trans
      (p.seals_enterWith (loadWithin_sound _) (loadWithin_seals _) hs₁ (known_of_mem_some hname))
  | load path version =>
    obtain ⟨hs₁, _, hname⟩ := hs.internPackage path version
    exact (seals_internPackage path version s).trans (loadWithin_seals _ _ _ hs₁ hname)

/-- Whatever is requested, the structs that are made are those of the packages that are published or
    entered for the caller, and all of them are sealed. -/
theorem seals_after (requests : List Request) (hs : s.Sound) :
    s.Seals (s.finished requests) (s.after requests) := by
  induction requests generalizing s with
  | nil => exact .refl s
  | cons r rest ih => exact (seals_respond r hs).trans (ih (respond_spec r hs).1)

/-- What is entered for the caller is bare what the request gives. -/
theorem bare_of_mem_finished {requests : List Request} {p : Package}
    (hp : p ∈ s.finished requests) :
    ∃ r ∈ requests, ∃ q, r.Gives q ∧ p.bare = q.collect.bare := by
  induction requests generalizing s with
  | nil => exact absurd hp List.not_mem_nil
  | cons r rest ih =>
    rcases List.mem_append.1 hp with hp | hp
    · cases r with
      | define q => exact ⟨_, List.mem_cons_self, q, .define q, Package.bare_of_mem_finished hp⟩
      | enterAs path version q =>
        exact ⟨_, List.mem_cons_self, q, .enterAs path version q, Package.bare_of_mem_finished hp⟩
      | load => exact absurd hp List.not_mem_nil
    · obtain ⟨r', hr', hq⟩ := ih hp
      exact ⟨r', List.mem_cons_of_mem _ hr', hq⟩

end Session

end Binder
