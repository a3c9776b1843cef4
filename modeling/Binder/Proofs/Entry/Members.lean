import Binder.Proofs.Bare
import Binder.Proofs.Entry.Function

/-!
# Entering the members of a package is a run

Each kind of members is entered at the top level of the package, and a container later once more, in
its scope. What comes out of an earlier stage is not disturbed by a later one: types are offered
only in the first stages, in which nothing is resolved but the names of connectors, which are bound
by then.

* `Store.Declared`: a struct, connector or service has its symbol.
* `Package.run_enterMembers`: the members of a package.
-/

namespace Binder

open Store

variable {m : Mark} {s s' : Store} {site : Site} {c : SymbolId}

/-! ## The top level of a package -/

/-- The site is the top level of a package. -/
structure Site.Top (site : Site) (m : Mark) (s : Store) : Prop extends site.At site.package m s where
  kindOf : s.table.kindOf site.package = some .package
  kind : site.kind = .package
  callable_eq : site.callable = none

theorem Site.Top.mono (h : site.Top m s) {os : List Offer} (hf : s.Follows os s') :
    site.Top m s' where
  toAt := h.toAt.mono hf
  kindOf := hf.grows.table.kindOf h.kindOf
  kind := h.kind
  callable_eq := h.callable_eq

/-- What is entered at the top level is public only if it is declared so. -/
theorem Site.Top.publishes (h : site.Top m s) : site.publishes = false := by
  rw [Site.publishes, h.kind]
  rfl

/-- A container of the package `p` has a symbol, and a type that is not older than the mark. -/
def Store.Declared (m : Mark) (s : Store) (p : SymbolId) (kind : SymbolKind)
    (symbol : Option SymbolId) : Prop :=
  ∃ x sym id, symbol = some x ∧ s.table.symbol? x = some sym ∧ sym.kind = kind ∧
    sym.owner = some p ∧ sym.ty = some id ∧ m.types ≤ id.index

theorem Store.Declared.mono {p : SymbolId} {kind : SymbolKind} {symbol : Option SymbolId}
    (h : Declared m s p kind symbol) (g : s.Grows s') : Declared m s' p kind symbol := by
  obtain ⟨x, sym, id, hx, hsym, hkind, howner, hty, hid⟩ := h
  obtain ⟨sym', hsym', hcore, hty'⟩ := g.table.symbol hsym
  exact ⟨x, sym', id, hx, hsym', (Symbol.eq_of_core Symbol.kind (fun _ => rfl) hcore).trans hkind,
    (Symbol.eq_of_core Symbol.owner (fun _ => rfl) hcore).trans howner, hty' id hty, hid⟩

/-- The inside of a container that has its symbol. -/
theorem Site.Top.inContainer (h : site.Top m s) {kind : SymbolKind} (hk : kind.isType)
    {symbol : Option SymbolId} (hd : Declared m s site.package kind symbol) (k : SiteKind) :
    ∃ x i, symbol = some x ∧ symbol.bind s.table.scopeOf = some i ∧
      (site.inContainer k i).At x m s := by
  obtain ⟨x, sym, id, rfl, hsym, rfl, howner, hty, hid⟩ := hd
  obtain ⟨hpackage, hvar⟩ := SymbolKind.of_isType hk
  obtain ⟨i, _, hi, _⟩ := (h.sound.linked.symbol x sym hsym).withScope hvar
  refine ⟨x, i, rfl, ?_, h.toAt.of_owner hsym hpackage howner hi (.inl h.callable_eq) rfl rfl⟩
  rw [Option.bind_some, Table.scopeOf, hsym, Option.bind_some, hi]

/-! ## Containers -/

/-- Containers are declared one after another, each at the top level of the package. -/
theorem Site.Top.run_mapM_declare {α β : Type} {f : α → Entry β} {O : β → List Offer}
    {R : β → Store → Prop}
    (hR : ∀ {y s os s'}, R y s → s.Follows os s' → s.Sound → R y s')
    (hf : ∀ x s, site.Top m s → Run m s (O (f x s).1) (f x s).2 ∧ R (f x s).1 (f x s).2)
    (xs : List α) (h : site.Top m s) :
    Run m s ((xs.mapM f s).1.flatMap O) (xs.mapM f s).2 ∧
      ∀ y ∈ (xs.mapM f s).1, R y (xs.mapM f s).2 :=
  Run.mapM (Q := fun _ => True) (P := site.Top m) (R := R) (fun _ _ _ => trivial)
    (fun h => h.sound) (fun hf h => h.mono hf) (fun hf _ h hy => hR hy hf h.sound)
    (fun x _ s h => hf x s h) h

/-- What is declared is entered, one after another. What is written in it is left as it is, but for
    what `g'` adds. -/
theorem Site.Top.run_mapM_enter {α β γ : Type} {f : α → Entry β} {O : β → List Offer}
    {V : β → List VarDecl} {D : α → Store → Prop} {g : β → γ} {g' : α → γ}
    (hinner : ∀ y, ∀ o ∈ O y, o.Inner)
    (hD : ∀ {x s os s'}, D x s → s.Follows os s' → s.Sound → D x s')
    (hf : ∀ x s, site.Top m s → D x s → Run m s (O (f x s).1) (f x s).2 ∧
      ∀ v ∈ V (f x s).1, v.EnteredIn (f x s).2 site.package)
    (hg : ∀ x s, site.Top m s → D x s → g (f x s).1 = g' x)
    (xs : List α) (h : site.Top m s) (hd : ∀ x ∈ xs, D x s) :
    Run m s ((xs.mapM f s).1.flatMap O) (xs.mapM f s).2 ∧
      (∀ v ∈ (xs.mapM f s).1.flatMap V, v.EnteredIn (xs.mapM f s).2 site.package) ∧
      (xs.mapM f s).1.map g = xs.map g' := by
  have hkeeps : ∀ x ∈ xs, ∀ s, (site.Top m s ∧ ∀ x ∈ xs, D x s) →
      site.Top m (f x s).2 ∧ ∀ y ∈ xs, D y (f x s).2 := fun x hx s h =>
    have hfollows := (hf x s h.1 (h.2 x hx)).1.follows h.1.sound
    ⟨h.1.mono hfollows, fun y hy => hD (h.2 y hy) hfollows h.1.sound⟩
  have hmap := map_run_mapM_of hkeeps (fun x hx s h => hg x s h.1 (h.2 x hx)) ⟨h, hd⟩
  obtain ⟨hrun, hentered⟩ := Run.mapM (Q := Offer.Inner)
    (P := fun s => site.Top m s ∧ ∀ x ∈ xs, D x s)
    (R := fun y s => ∀ v ∈ V y, v.EnteredIn s site.package) hinner (fun h => h.1.sound)
    (fun hf h => ⟨h.1.mono hf, fun x hx => hD (h.2 x hx) hf h.1.sound⟩)
    (fun hf hos h hvs v hv => (hvs v hv).mono hf h.1.sound hos)
    (fun x hx s h => hf x s h.1 (h.2 x hx)) ⟨h, hd⟩
  refine ⟨hrun, fun v hv => ?_, hmap⟩
  obtain ⟨y, hy, hv⟩ := List.mem_flatMap.1 hv
  exact hentered y hy v hv

/-- The symbol of a container, its type and its scope are made, and the symbol is offered. -/
theorem Store.declareContainer_eq (h : site.Top m s) (kind : SymbolKind) (ident : Ident)
    (flags : Flags) (span : Span) :
    let s₁ := (intern ident.text s).2
    let sym : Symbol :=
      { kind, name := (intern ident.text s).1, flags, pkg := site.pkg, owner := some site.package
        span }
    declareContainer site kind ident flags span s = (s₁.table.nextSymbol,
      s₁.offerNext sym site.scope (s₁.table.addTypeOwner sym (some site.scope))) := by
  have hintern : Run m s [] (intern ident.text s).2 := .intern s _
  have h₁ := h.mono (hintern.follows h.sound)
  unfold declareContainer
  simp only [run_bind, run_get, run_pure, h₁.toAt.ownerOf]
  generalize intern ident.text s = r at *
  obtain ⟨name, s₁⟩ := r
  let sym : Symbol := { kind, name, flags, pkg := site.pkg, owner := some site.package, span }
  have hmake : _ = s₁.offerNext sym site.scope (s₁.table.addTypeOwner sym (some site.scope)) :=
    congrArg (fun r : ScopeId × Table =>
      (define span site.scope name s₁.table.nextSymbol { s₁ with table := r.2 }).2)
      (s₁.table.addScope_modifySymbol_addSymbol sym (some site.scope))
  exact congrArg (Prod.mk s₁.table.nextSymbol) hmake

/-- A struct, connector or service gets its symbol. -/
theorem Store.run_declareContainer (h : site.Top m s) {kind : SymbolKind} (hk : kind.isType)
    (ident : Ident) (flags : Flags) (span : Span) :
    Run m s [{ container := some site.package, text := ident.text, kind, flags, span
               symbol := some (declareContainer site kind ident flags span s).1 }]
        (declareContainer site kind ident flags span s).2 ∧
      Declared m (declareContainer site kind ident flags span s).2 site.package kind
        (some (declareContainer site kind ident flags span s).1) := by
  have hintern : Run m s [] (intern ident.text s).2 := .intern s _
  have h₁ := h.mono (hintern.follows h.sound)
  have hname : (intern ident.text s).2.names.text? (intern ident.text s).1 = some ident.text :=
    s.names.text?_intern _
  rw [declareContainer_eq h]
  generalize intern ident.text s = r at *
  obtain ⟨name, s₁⟩ := r
  let o : Offer :=
    { container := some site.package, text := ident.text, kind, flags, span
      symbol := some s₁.table.nextSymbol }
  have hadmits : s₁.Admits m o site.package site.scope name site.pkg :=
    h₁.toAt.admits rfl rfl hname
  have hmade := hadmits.made_container h₁.sound hk rfl h₁.kindOf
  have hrun : Run m s₁ [o] _ := .container hadmits hk rfl h₁.kindOf
  have hdeclared : Declared m (s₁.offerNext (o.toSymbol name site.pkg) site.scope
      (s₁.table.addTypeOwner (o.toSymbol name site.pkg) (some site.scope))) site.package kind
      (some s₁.table.nextSymbol) :=
    ⟨_, _, _, rfl, (hmade.symbol?_offerNext _).trans hmade.symbol?_next, rfl, rfl, rfl, h₁.types⟩
  exact ⟨hintern.trans hrun, hdeclared⟩

/-! ## Structs -/

namespace Struct

theorem run_declare (d : Struct) (h : site.Top m s) :
    Run m s [(d.declare site s).1.offer (some site.package)] (d.declare site s).2 ∧
      Declared m (d.declare site s).2 site.package .struct (d.declare site s).1.symbol :=
  run_declareContainer h rfl d.name d.flags d.span

theorem offer_enterFields (container : Option SymbolId) (d : Struct) (s : Store) :
    (d.enterFields site s).1.offer container = d.offer container := by
  unfold enterFields
  simp only [run_bind, run_get]
  cases d.symbol.bind s.table.scopeOf <;> rfl

/-- The fields of the struct are entered in the package `p`. -/
def EnteredIn (s : Store) (p : SymbolId) (d : Struct) : Prop := ∀ v ∈ d.fields, v.EnteredIn s p

theorem inner_fieldOffers (d : Struct) : ∀ o ∈ d.fieldOffers, o.Inner :=
  VarDecl.inner_flatMap_offers d.fields d.symbol

/-- A field of a struct is entered like a variable. -/
theorem run_enterField (v : VarDecl) (h : site.At c m s) :
    Run m s ((enterField site v s).1.1.offers (some c)) (enterField site v s).2 ∧
      (enterField site v s).1.1.EnteredIn (enterField site v s).2 site.package ∧
      (enterField site v s).2.Usable (enterField site v s).1.2.ty := by
  obtain ⟨hrun, hentered⟩ := v.run_enter h
  have hf := hrun.follows h.sound
  have hintern : Run m (v.enter site s).2 []
      (intern (v.enter site s).1.name.text (v.enter site s).2).2 := .intern _ _
  have hf' := hintern.follows hf.sound
  obtain ⟨ty, hty, hu⟩ := hentered.ty
  have hruns := hrun.trans hintern
  rw [List.append_nil] at hruns
  refine ⟨hruns, hentered.mono hf' hf.sound fun o ho => absurd ho List.not_mem_nil, ?_⟩
  unfold enterField
  simp only [run_bind, run_pure, hty, Option.getD_some]
  exact hf'.grows.usable hu

theorem run_mapM_enterField (vs : List VarDecl) (h : site.At c m s) :
    Run m s ((vs.mapM (enterField site) s).1.flatMap (·.1.offers (some c)))
        (vs.mapM (enterField site) s).2 ∧
      ∀ r ∈ (vs.mapM (enterField site) s).1,
        r.1.EnteredIn (vs.mapM (enterField site) s).2 site.package ∧
        (vs.mapM (enterField site) s).2.Usable r.2.ty :=
  Run.mapM (Q := Offer.Inner) (P := site.At c m)
    (R := fun (r : VarDecl × Field) s => r.1.EnteredIn s site.package ∧ s.Usable r.2.ty)
    (fun _ _ ho => VarDecl.inner_of_mem_offers ho) (fun h => h.sound) (fun hf h => h.mono hf)
    (fun hf hos h hr => ⟨hr.1.mono hf h.sound hos, hf.grows.usable hr.2⟩)
    (fun v _ _ h => run_enterField v h) h

theorem enterFields_eq {d : Struct} {i : ScopeId} (hi : d.symbol.bind s.table.scopeOf = some i) :
    d.enterFields site s =
      ({ d with
          fields := (d.fields.mapM (enterField (site.inContainer .struct i)) s).1.map (·.1) },
        (Store.setFields ((d.symbol.map s.table.typeOf).getD .error)
          ((d.fields.mapM (enterField (site.inContainer .struct i)) s).1.map (·.2))
          (d.fields.mapM (enterField (site.inContainer .struct i)) s).2).2) := by
  unfold enterFields
  simp only [run_bind, run_get]
  rw [hi]
  rfl

/-- The fields of a struct are entered in its scope, and its type gets them. -/
theorem run_enterFields (d : Struct) (h : site.Top m s)
    (hd : Declared m s site.package .struct d.symbol) :
    Run m s (d.enterFields site s).1.fieldOffers (d.enterFields site s).2 ∧
      (d.enterFields site s).1.EnteredIn (d.enterFields site s).2 site.package := by
  have hk : SymbolKind.struct.isType := rfl
  obtain ⟨x, i, hx, hi, hsite⟩ := h.inContainer hk hd .struct
  obtain ⟨hrun, hentered⟩ := run_mapM_enterField d.fields hsite
  have hmark : m.types ≤ ((d.symbol.map s.table.typeOf).getD .error).index := by
    obtain ⟨y, sym, id, hy, hsym, _, _, hty, hid⟩ := hd
    rw [hy, Option.map_some, Option.getD_some, Table.typeOf, hsym, Option.bind_some, hty]
    exact hid
  have hf := hrun.follows h.sound
  have hset : Run m _ [] _ := .setFields hmark fun f hf => by
    obtain ⟨y, hy, rfl⟩ := List.mem_map.1 hf
    exact (hentered y hy).2
  have hruns := hrun.trans hset
  rw [List.append_nil] at hruns
  rw [enterFields_eq hi]
  refine ⟨?_, fun v hv => ?_⟩
  · rw [hx] at hruns
    rw [fieldOffers, List.flatMap_map, hx]
    exact hruns
  · obtain ⟨r, hr, rfl⟩ := List.mem_map.1 hv
    have hs₁ := hf.sound
    exact (hentered r hr).1.mono (hset.follows hs₁) hs₁ fun o ho => absurd ho List.not_mem_nil

/-- The fields of a struct are public, and else as they are written. -/
theorem unbound_enterFields_of_declared (d : Struct) (h : site.Top m s)
    (hd : Declared m s site.package .struct d.symbol) :
    (d.enterFields site s).1.unbound = d.equipped.unbound := by
  have hk : SymbolKind.struct.isType := rfl
  obtain ⟨_, i, _, hi, _⟩ := h.inContainer hk hd .struct
  exact unbound_enterFields site hi

end Struct

/-! ## Connectors -/

namespace Connector

/-- A connector whose initializer is entered in the package `p`, where its name is bound. -/
structure DeclaredIn (m : Mark) (config : Config) (s : Store) (p : SymbolId) (d : Connector) :
    Prop where
  symbol : Declared m s p .connector d.symbol
  bound : (s.bound? p d.name.text).isSome
  initializer : ∃ f, d.initializer = some f ∧ f.bare = (d.makeInitializer config).bare ∧
    ∀ v ∈ f.functionParts, v.EnteredIn s p

/-- The initializer of a connector has one part, its parameter. -/
theorem exists_param_of_bare {config : Config} {d : Connector} {f : Callable}
    (hf : f.bare = (d.makeInitializer config).bare) : ∃ v, f.head.params = [v] ∧
      v.bare = (d.initParam config).bare ∧ f.functionParts = [v] := by
  have hkind : f.functionKind = .function := by
    rw [← Callable.functionKind_bare, hf]
    rfl
  obtain ⟨head, workers⟩ := f
  have hmk : Callable.mk head.bare (Callable.bareAll workers) = .mk _ [] := hf
  obtain ⟨hhead, hworkers⟩ := Callable.mk.inj hmk
  have hparams : head.params.map (·.bare) = [(d.initParam config).bare] :=
    congrArg CallableHead.params hhead
  have hreturns : head.returns.map (·.bare) = [] := congrArg CallableHead.returns hhead
  have hnone : workers = [] := by
    cases workers with
    | nil => rfl
    | cons => cases hworkers
  obtain ⟨v, hv, hbare⟩ := List.map_eq_singleton_iff.1 hparams
  refine ⟨v, hv, hbare, ?_⟩
  rw [Callable.functionParts, hkind, Callable.allParts, hnone, CallableHead.parts, hv,
    List.map_eq_nil_iff.1 hreturns]
  rfl

/-- Nothing is written in the initializer of a connector but the name of the connector. -/
theorem baseName?_of_bare {config : Config} {d : Connector} {f : Callable}
    (hf : f.bare = (d.makeInitializer config).bare) {v : VarDecl}
    (hv : v ∈ f.functionParts) : v.type.baseName? = some (none, d.name) := by
  obtain ⟨w, _, hbare, hparts⟩ := exists_param_of_bare hf
  rw [hparts] at hv
  rw [List.mem_singleton.1 hv, ← w.type.baseName?_bare,
    show w.type.bare = _ from congrArg VarDecl.type hbare]
  rfl

/-- The initializer of a connector stays entered, whatever is declared afterwards. -/
theorem DeclaredIn.mono {config : Config} {p : SymbolId} {d : Connector} {os : List Offer}
    (h : d.DeclaredIn m config s p) (hf : s.Follows os s') (hs : s.Sound) :
    d.DeclaredIn m config s' p := by
  obtain ⟨hsymbol, hbound, f, hf', hbare, hentered⟩ := h
  refine ⟨hsymbol.mono hf.grows, ?_, f, hf', hbare, ?_⟩
  · obtain ⟨x, hx⟩ := Option.isSome_iff_exists.1 hbound
    rw [hf.effect.bound?_of_some hx]
    rfl
  · intro v hv
    obtain ⟨ty, hty, hu⟩ := (hentered v hv).ty
    refine ⟨(hentered v hv).type.of_meaning hf.grows fun b hb => ?_, ty, hty, hf.grows.usable hu⟩
    -- The name of the connector is bound, so its meaning is settled.
    cases (baseName?_of_bare hbare hv).symm.trans hb
    exact hf.typeIn_eq_of_bound hs hbound

theorem declare_eq {config : Config} {d : Connector} {x : SymbolId} {s₁ s₂ : Store} {f : Callable}
    (h₁ : declareContainer site .connector d.name d.flags d.span s = (x, s₁))
    (h₂ : (d.makeInitializer config).enterFunction site s₁ = (f, s₂)) :
    d.declare config site s = ({ d with symbol := some x, initializer := some f }, s₂) := by
  unfold declare
  rw [run_bind, h₁, run_bind]
  rw [show (makeInitializer { d with symbol := some x } config).enterFunction site s₁ = _ from h₂]
  rfl

theorem run_declare (config : Config) (d : Connector) (h : site.Top m s) :
    Run m s ((d.declare config site s).1.offer (some site.package) ::
        (d.declare config site s).1.initializerOffers (some site.package))
        (d.declare config site s).2 ∧
      (d.declare config site s).1.DeclaredIn m config (d.declare config site s).2 site.package := by
  have hk : SymbolKind.connector.isType := rfl
  obtain ⟨hrun, hdeclared⟩ := run_declareContainer h hk d.name d.flags d.span
  have hf := hrun.follows h.sound
  have h₁ := h.mono hf
  cases hx : declareContainer site .connector d.name d.flags d.span s with
  | mk x s₁ =>
    rw [hx] at hrun hdeclared hf h₁
    obtain ⟨hinit, hentered⟩ := (d.makeInitializer config).run_enterFunction h₁.toAt
    have hbare := (d.makeInitializer config).bare_enterFunction site s₁
    have hbinds : s₁.binds site.package d.name.text = true := by
      have htaken := hf.effect.taken (some site.package, d.name.text)
      simp only [List.map_singleton, Offer.place, List.contains_cons, beq_self_eq_true,
        Bool.true_or] at htaken
      exact htaken
    obtain ⟨y, hy⟩ := Option.isSome_iff_exists.1 (isSome_bound?_iff.2 hbinds)
    cases hinitializer : (d.makeInitializer config).enterFunction site s₁ with
    | mk f s₂ =>
      rw [hinitializer] at hinit hentered hbare
      have hf' := hinit.follows h₁.sound
      rw [declare_eq hx hinitializer]
      refine ⟨?_, hdeclared.mono hf'.grows, ?_, f, rfl, hbare, hentered⟩
      · have hruns := hrun.trans hinit
        rw [initializerOffers, Option.toList_some, List.flatMap_singleton]
        exact hruns
      · exact Option.isSome_iff_exists.2 ⟨y, hf'.effect.bound?_of_some hy⟩

theorem inner_actionOffers (d : Connector) : ∀ o ∈ d.actionOffers, o.Inner :=
  Callable.inner_flatMap_memberOffers rfl _ _

theorem offer_enterActions (container : Option SymbolId) (d : Connector) (s : Store) :
    (d.enterActions site s).1.offer container ::
        (d.enterActions site s).1.initializerOffers container =
      d.offer container :: d.initializerOffers container := by
  unfold enterActions
  simp only [run_bind, run_get]
  cases d.symbol.bind s.table.scopeOf <;> rfl

theorem enterActions_eq {d : Connector} {i : ScopeId} (hi : d.symbol.bind s.table.scopeOf = some i) :
    d.enterActions site s =
      ({ d with actions :=
          (Callable.enterMembers (site.inContainer .connector i) .action d.actions s).1 },
        (Callable.enterMembers (site.inContainer .connector i) .action d.actions s).2) := by
  unfold enterActions
  simp only [run_bind, run_get]
  rw [hi]
  rfl

/-- The actions of a connector are entered in its scope. -/
theorem run_enterActions {config : Config} (d : Connector) (h : site.Top m s)
    (hd : d.DeclaredIn m config s site.package) :
    Run m s (d.enterActions site s).1.actionOffers (d.enterActions site s).2 ∧
      ∀ v ∈ (d.enterActions site s).1.allVars,
        v.EnteredIn (d.enterActions site s).2 site.package := by
  have hk : SymbolKind.connector.isType := rfl
  obtain ⟨x, i, hx, hi, hsite⟩ := h.inContainer hk hd.symbol .connector
  have haction : SymbolKind.action.isCallable := rfl
  obtain ⟨hrun, hentered⟩ :=
    Callable.run_enterMembers haction (by decide) d.actions hsite
  obtain ⟨f, hf, hbare, hinit⟩ := hd.mono (hrun.follows h.sound) h.sound |>.initializer
  rw [enterActions_eq hi]
  refine ⟨?_, fun v hv => ?_⟩
  · rw [actionOffers, hx]
    exact hrun
  · rcases List.mem_append.1 hv with hv | hv
    · rw [hf, Option.toList_some, List.flatMap_singleton] at hv
      exact hinit v hv
    · obtain ⟨f', hf', hv⟩ := List.mem_flatMap.1 hv
      exact hentered f' hf' v hv

/-- The actions of a connector are public, and else as they are written. -/
theorem unbound_enterActions_of_declared {config : Config} (d : Connector) (h : site.Top m s)
    (hd : d.DeclaredIn m config s site.package) :
    (d.enterActions site s).1.unbound = d.published.unbound := by
  have hk : SymbolKind.connector.isType := rfl
  obtain ⟨_, i, _, hi, _⟩ := h.inContainer hk hd.symbol .connector
  exact unbound_enterActions site hi

end Connector

/-! ## Services -/

namespace Service

theorem run_declare (d : Service) (h : site.Top m s) :
    Run m s [(d.declare site s).1.offer (some site.package)] (d.declare site s).2 ∧
      Declared m (d.declare site s).2 site.package .service (d.declare site s).1.symbol :=
  run_declareContainer h rfl d.name d.flags d.span

theorem offer_enterMembers (config : Config) (container : Option SymbolId) (d : Service)
    (s : Store) : (d.enterMembers config site s).1.offer container = d.offer container := by
  unfold enterMembers
  simp only [run_bind, run_get]
  cases d.symbol.bind ((d.makeInitializer config).enterFunction site s).2.table.scopeOf <;> rfl

theorem enterMembers_eq {config : Config} {d : Service} {s₁ : Store} {f : Callable} {i : ScopeId}
    (hf : (d.makeInitializer config).enterFunction site s = (f, s₁))
    (hi : d.symbol.bind s₁.table.scopeOf = some i) :
    d.enterMembers config site s =
      ({ d with
          initializer := some f
          resources :=
            (Callable.enterMembers (site.inContainer .service i) .resource d.resources s₁).1 },
        (Callable.enterMembers (site.inContainer .service i) .resource d.resources s₁).2) := by
  unfold enterMembers
  simp only [run_bind, run_get, hf]
  rw [hi]
  rfl

theorem inner_memberOffers (container : Option SymbolId) (d : Service) :
    ∀ o ∈ d.initializerOffers container ++ d.resourceOffers, o.Inner := fun o ho => by
  rcases List.mem_append.1 ho with ho | ho
  · exact Offer.inner_flatMap Callable.inner_functionOffers _ o ho
  · exact Callable.inner_flatMap_memberOffers rfl _ _ o ho

/-- The initializer of a service is entered, and its resources are, in its scope. -/
theorem run_enterMembers (config : Config) (d : Service) (h : site.Top m s)
    (hd : Declared m s site.package .service d.symbol) :
    Run m s ((d.enterMembers config site s).1.initializerOffers (some site.package) ++
        (d.enterMembers config site s).1.resourceOffers) (d.enterMembers config site s).2 ∧
      ∀ v ∈ (d.enterMembers config site s).1.allVars,
        v.EnteredIn (d.enterMembers config site s).2 site.package := by
  have hk : SymbolKind.service.isType := rfl
  have hresource : SymbolKind.resource.isCallable := rfl
  obtain ⟨hinit, hinitEntered⟩ := (d.makeInitializer config).run_enterFunction h.toAt
  have hf₁ := hinit.follows h.sound
  have h₁ := h.mono hf₁
  generalize hf : (d.makeInitializer config).enterFunction site s = r at *
  obtain ⟨f, s₁⟩ := r
  obtain ⟨x, i, hx, hi, hsite⟩ := h₁.inContainer hk (hd.mono hf₁.grows) .service
  obtain ⟨hrun, hentered⟩ :=
    Callable.run_enterMembers hresource (by decide) d.resources hsite
  have hruns := hinit.trans hrun
  have hinner := Callable.inner_flatMap_memberOffers hresource (some x)
  rw [enterMembers_eq hf hi, initializerOffers, resourceOffers, allVars, hx, Option.toList_some,
    List.flatMap_singleton, List.flatMap_singleton]
  refine ⟨hruns, VarDecl.enteredIn_append hinitEntered h₁.sound (hrun.follows h₁.sound)
    (hinner _) fun v hv => ?_⟩
  obtain ⟨f', hf', hv⟩ := List.mem_flatMap.1 hv
  exact hentered f' hf' v hv

/-- The resources of a service are public, and else as they are written. -/
theorem unbound_enterMembers_of_declared (config : Config) (d : Service) (h : site.Top m s)
    (hd : Declared m s site.package .service d.symbol) :
    (d.enterMembers config site s).1.unbound = (d.equipped config).unbound := by
  have hk : SymbolKind.service.isType := rfl
  have hinit := ((d.makeInitializer config).run_enterFunction h.toAt).1.follows h.sound
  obtain ⟨_, i, _, hi, _⟩ := (h.mono hinit).inContainer hk (hd.mono hinit.grows) .service
  exact unbound_enterMembers config h.publishes hi

end Service

/-! ## Packages -/

namespace Package

variable {config : Config} {structs structs' : List Struct} {connectors connectors' : List Connector}
  {services services' : List Service} {functions : List Callable} {vars : List VarDecl}
  {s₁ s₂ s₃ s₄ s₅ s₆ s₇ s₈ : Store}

/-- The stages in which the members of a package are entered, each with what it comes to. -/
theorem exists_stages (config : Config) (site : Site) (p : Package) (s : Store) :
    ∃ structs connectors services structs' connectors' functions services' vars,
      ∃ s₁ s₂ s₃ s₄ s₅ s₆ s₇ s₈,
        p.structs.mapM (·.declare site) s = (structs, s₁) ∧
        p.connectors.mapM (·.declare config site) s₁ = (connectors, s₂) ∧
        p.services.mapM (·.declare site) s₂ = (services, s₃) ∧
        structs.mapM (·.enterFields site) s₃ = (structs', s₄) ∧
        connectors.mapM (·.enterActions site) s₄ = (connectors', s₅) ∧
        p.functions.mapM (·.enterFunction site) s₅ = (functions, s₆) ∧
        services.mapM (·.enterMembers config site) s₆ = (services', s₇) ∧
        p.vars.mapM (·.enter site) s₇ = (vars, s₈) :=
  ⟨_, _, _, _, _, _, _, _, _, _, _, _, _, _, _, _, rfl, rfl, rfl, rfl, rfl, rfl, rfl, rfl⟩

/-- What the members of a package become, stage by stage. -/
theorem enterMembers_eq {p : Package} (h₁ : p.structs.mapM (·.declare site) s = (structs, s₁))
    (h₂ : p.connectors.mapM (·.declare config site) s₁ = (connectors, s₂))
    (h₃ : p.services.mapM (·.declare site) s₂ = (services, s₃))
    (h₄ : structs.mapM (·.enterFields site) s₃ = (structs', s₄))
    (h₅ : connectors.mapM (·.enterActions site) s₄ = (connectors', s₅))
    (h₆ : p.functions.mapM (·.enterFunction site) s₅ = (functions, s₆))
    (h₇ : services.mapM (·.enterMembers config site) s₆ = (services', s₇))
    (h₈ : p.vars.mapM (·.enter site) s₇ = (vars, s₈)) :
    p.enterMembers config site s =
      ({ p with
          structs := structs', connectors := connectors', services := services', functions, vars
          initializer := some ((makeInitializer (s₈.symbolText site.package) p.span vars
            config).enterFunction site s₈).1 },
        ((makeInitializer (s₈.symbolText site.package) p.span vars config).enterFunction
          site s₈).2) := by
  unfold enterMembers
  rw [run_bind, h₁, run_bind, h₂, run_bind, h₃, run_bind, h₄, run_bind, h₅, run_bind, h₆, run_bind,
    h₇, run_bind, h₈]
  rfl

/-- The structs, connectors and services of a package are declared. -/
structure Declares (m : Mark) (config : Config) (s : Store) (c : SymbolId) (structs : List Struct)
    (connectors : List Connector) (services : List Service) : Prop where
  struct : ∀ d ∈ structs, Declared m s c .struct d.symbol
  connector : ∀ d ∈ connectors, d.DeclaredIn m config s c
  service : ∀ d ∈ services, Declared m s c .service d.symbol

/-- The symbols of structs are made. -/
theorem run_mapM_declareStruct {p : Package} (h : site.Top m s)
    (h₁ : p.structs.mapM (·.declare site) s = (structs, s₁)) :
    Run m s (structs.map (·.offer (some site.package))) s₁ ∧
      ∀ d ∈ structs, Declared m s₁ site.package .struct d.symbol := by
  have hr₁ := h.run_mapM_declare (O := fun d : Struct => [d.offer (some site.package)])
    (R := fun d s => Declared m s site.package .struct d.symbol) (fun hd hf _ => hd.mono hf.grows)
    (fun d _ h => d.run_declare h) p.structs
  rw [h₁, ← List.map_eq_flatMap] at hr₁
  exact hr₁

/-- The symbols of connectors are made, and their initializers are entered. -/
theorem run_mapM_declareConnector {p : Package} (h : site.Top m s₁)
    (h₂ : p.connectors.mapM (·.declare config site) s₁ = (connectors, s₂)) :
    Run m s₁ (connectors.flatMap fun d =>
        d.offer (some site.package) :: d.initializerOffers (some site.package)) s₂ ∧
      ∀ d ∈ connectors, d.DeclaredIn m config s₂ site.package := by
  have hr₂ := h.run_mapM_declare
    (O := fun d : Connector =>
      d.offer (some site.package) :: d.initializerOffers (some site.package))
    (R := fun d s => d.DeclaredIn m config s site.package) (fun hd hf hs => hd.mono hf hs)
    (fun d _ h => d.run_declare config h) p.connectors
  rw [h₂] at hr₂
  exact hr₂

/-- The symbols of services are made. -/
theorem run_mapM_declareService {p : Package} (h : site.Top m s₂)
    (h₃ : p.services.mapM (·.declare site) s₂ = (services, s₃)) :
    Run m s₂ (services.map (·.offer (some site.package))) s₃ ∧
      ∀ d ∈ services, Declared m s₃ site.package .service d.symbol := by
  have hr₃ := h.run_mapM_declare (O := fun d : Service => [d.offer (some site.package)])
    (R := fun d s => Declared m s site.package .service d.symbol)
    (fun hd hf _ => hd.mono hf.grows) (fun d _ h => d.run_declare h) p.services
  rw [h₃, ← List.map_eq_flatMap] at hr₃
  exact hr₃

/-- The symbols of structs, connectors and services are made. -/
theorem run_declare {p : Package} (h : site.Top m s)
    (h₁ : p.structs.mapM (·.declare site) s = (structs, s₁))
    (h₂ : p.connectors.mapM (·.declare config site) s₁ = (connectors, s₂))
    (h₃ : p.services.mapM (·.declare site) s₂ = (services, s₃)) :
    Run m s (structs.map (·.offer (some site.package)) ++
        connectors.flatMap (fun d =>
          d.offer (some site.package) :: d.initializerOffers (some site.package)) ++
        services.map (·.offer (some site.package))) s₃ ∧
      Declares m config s₃ site.package structs connectors services := by
  obtain ⟨hstructs, hd₁⟩ := run_mapM_declareStruct h h₁
  have ht₁ := h.mono (hstructs.follows h.sound)
  obtain ⟨hconnectors, hd₂⟩ := run_mapM_declareConnector ht₁ h₂
  have hf₂ := hconnectors.follows ht₁.sound
  have ht₂ := ht₁.mono hf₂
  obtain ⟨hservices, hd₃⟩ := run_mapM_declareService ht₂ h₃
  have hf₃ := hservices.follows ht₂.sound
  exact ⟨(hstructs.trans hconnectors).trans hservices,
    fun d hd => ((hd₁ d hd).mono hf₂.grows).mono hf₃.grows,
    fun d hd => (hd₂ d hd).mono hf₃ ht₂.sound, hd₃⟩

/-- The fields of structs are entered. -/
theorem run_mapM_enterFields (h : site.Top m s₃)
    (hd : ∀ d ∈ structs, Declared m s₃ site.package .struct d.symbol)
    (h₄ : structs.mapM (·.enterFields site) s₃ = (structs', s₄)) :
    Run m s₃ (structs'.flatMap (·.fieldOffers)) s₄ ∧
      (∀ v ∈ structs'.flatMap (·.fields), v.EnteredIn s₄ site.package) ∧
      structs'.map (·.unbound) = structs.map (·.equipped.unbound) := by
  have hr₄ := h.run_mapM_enter (O := Struct.fieldOffers) (V := Struct.fields)
    (D := fun (d : Struct) s => Declared m s site.package .struct d.symbol)
    Struct.inner_fieldOffers (fun hd hf _ => hd.mono hf.grows)
    (fun d _ h hd => d.run_enterFields h hd)
    (fun d _ h hd => d.unbound_enterFields_of_declared h hd) structs hd
  rw [h₄] at hr₄
  exact hr₄

/-- The actions of connectors are entered. -/
theorem run_mapM_enterActions (h : site.Top m s₄)
    (hd : ∀ d ∈ connectors, d.DeclaredIn m config s₄ site.package)
    (h₅ : connectors.mapM (·.enterActions site) s₄ = (connectors', s₅)) :
    Run m s₄ (connectors'.flatMap (·.actionOffers)) s₅ ∧
      (∀ v ∈ connectors'.flatMap (·.allVars), v.EnteredIn s₅ site.package) ∧
      connectors'.map (·.unbound) = connectors.map (·.published.unbound) := by
  have hr₅ := h.run_mapM_enter (O := Connector.actionOffers) (V := Connector.allVars)
    (D := fun d s => d.DeclaredIn m config s site.package) Connector.inner_actionOffers
    (fun hd hf hs => hd.mono hf hs) (fun d _ h hd => d.run_enterActions h hd)
    (fun d _ h hd => d.unbound_enterActions_of_declared h hd) connectors hd
  rw [h₅] at hr₅
  exact hr₅

/-- What is in structs and connectors is entered. -/
theorem run_enterContainers (h : site.Top m s₃)
    (hd : Declares m config s₃ site.package structs connectors services)
    (h₄ : structs.mapM (·.enterFields site) s₃ = (structs', s₄))
    (h₅ : connectors.mapM (·.enterActions site) s₄ = (connectors', s₅)) :
    Run m s₃ (structs'.flatMap (·.fieldOffers) ++ connectors'.flatMap (·.actionOffers)) s₅ ∧
      (∀ v ∈ structs'.flatMap (·.fields) ++ connectors'.flatMap (·.allVars),
        v.EnteredIn s₅ site.package) ∧
      structs'.map (·.unbound) = structs.map (·.equipped.unbound) ∧
      connectors'.map (·.unbound) = connectors.map (·.published.unbound) := by
  have hr₄ := run_mapM_enterFields h hd.struct h₄
  have hf₄ := hr₄.1.follows h.sound
  have ht₄ := h.mono hf₄
  have hr₅ := run_mapM_enterActions ht₄ (fun d hd' => (hd.connector d hd').mono hf₄ h.sound) h₅
  exact ⟨hr₄.1.trans hr₅.1, VarDecl.enteredIn_append hr₄.2.1 ht₄.sound (hr₅.1.follows ht₄.sound)
    (Offer.inner_flatMap Connector.inner_actionOffers _) hr₅.2.1, hr₄.2.2, hr₅.2.2⟩

/-- Functions are entered. -/
theorem run_mapM_enterFunction {p : Package} (h : site.Top m s₅)
    (h₆ : p.functions.mapM (·.enterFunction site) s₅ = (functions, s₆)) :
    Run m s₅ (functions.flatMap (·.functionOffers (some site.package))) s₆ ∧
      (∀ v ∈ functions.flatMap (·.functionParts), v.EnteredIn s₆ site.package) ∧
      functions.map (·.unbound) = p.functions.map (·.equipped.unbound) := by
  have hr₆ := h.run_mapM_enter (O := Callable.functionOffers (some site.package))
    (V := Callable.functionParts) (D := fun _ _ => True) Callable.inner_functionOffers
    (fun _ _ _ => trivial) (fun f _ h _ => f.run_enterFunction h.toAt)
    (fun f s h _ => f.unbound_enterFunction_of_not h.publishes s) p.functions fun _ _ => trivial
  rw [h₆] at hr₆
  exact hr₆

/-- What is in services is entered. -/
theorem run_mapM_enterService (h : site.Top m s₆)
    (hd : ∀ d ∈ services, Declared m s₆ site.package .service d.symbol)
    (h₇ : services.mapM (·.enterMembers config site) s₆ = (services', s₇)) :
    Run m s₆ (services'.flatMap fun d =>
        d.initializerOffers (some site.package) ++ d.resourceOffers) s₇ ∧
      (∀ v ∈ services'.flatMap (·.allVars), v.EnteredIn s₇ site.package) ∧
      services'.map (·.unbound) = services.map (fun d => (d.equipped config).unbound) := by
  have hr₇ := h.run_mapM_enter
    (O := fun d => d.initializerOffers (some site.package) ++ d.resourceOffers)
    (V := Service.allVars) (D := fun (d : Service) s => Declared m s site.package .service d.symbol)
    (fun d => d.inner_memberOffers _) (fun hd hf _ => hd.mono hf.grows)
    (fun d _ h hd => d.run_enterMembers config h hd)
    (fun d _ h hd => d.unbound_enterMembers_of_declared config h hd) services hd
  rw [h₇] at hr₇
  exact hr₇

/-- What is in services is entered, and so are variables. -/
theorem run_enterServices {p : Package} (h : site.Top m s₆)
    (hd : ∀ d ∈ services, Declared m s₆ site.package .service d.symbol)
    (h₇ : services.mapM (·.enterMembers config site) s₆ = (services', s₇))
    (h₈ : p.vars.mapM (·.enter site) s₇ = (vars, s₈)) :
    Run m s₆ (services'.flatMap (fun d =>
          d.initializerOffers (some site.package) ++ d.resourceOffers) ++
        vars.flatMap (·.offers (some site.package))) s₈ ∧
      (∀ v ∈ services'.flatMap (·.allVars) ++ vars, v.EnteredIn s₈ site.package) ∧
      services'.map (·.unbound) = services.map (fun d => (d.equipped config).unbound) := by
  have hr₇ := run_mapM_enterService h hd h₇
  have ht₇ := h.mono (hr₇.1.follows h.sound)
  have hr₈ := VarDecl.run_mapM_enter p.vars ht₇.toAt
  rw [h₈] at hr₈
  exact ⟨hr₇.1.trans hr₈.1, VarDecl.enteredIn_append hr₇.2.1 ht₇.sound (hr₈.1.follows ht₇.sound)
    (VarDecl.inner_flatMap_offers _ _) hr₈.2, hr₇.2.2⟩

/-- What services and variables offer is neither a type nor a package. -/
theorem inner_serviceOffers (container : Option SymbolId) (services : List Service)
    (vars : List VarDecl) :
    ∀ o ∈ services.flatMap (fun d => d.initializerOffers container ++ d.resourceOffers) ++
      vars.flatMap (·.offers container), o.Inner := fun o ho =>
  (List.mem_append.1 ho).elim (Offer.inner_flatMap (fun d => d.inner_memberOffers _) _ o)
    (VarDecl.inner_flatMap_offers _ _ o)

/-- What is in structs, connectors and services is entered, and so are functions and variables. -/
theorem run_enter {p : Package} (h : site.Top m s₃)
    (hd : Declares m config s₃ site.package structs connectors services)
    (h₄ : structs.mapM (·.enterFields site) s₃ = (structs', s₄))
    (h₅ : connectors.mapM (·.enterActions site) s₄ = (connectors', s₅))
    (h₆ : p.functions.mapM (·.enterFunction site) s₅ = (functions, s₆))
    (h₇ : services.mapM (·.enterMembers config site) s₆ = (services', s₇))
    (h₈ : p.vars.mapM (·.enter site) s₇ = (vars, s₈)) :
    Run m s₃ (structs'.flatMap (·.fieldOffers) ++ connectors'.flatMap (·.actionOffers) ++
        functions.flatMap (·.functionOffers (some site.package)) ++
        services'.flatMap (fun d =>
          d.initializerOffers (some site.package) ++ d.resourceOffers) ++
        vars.flatMap (·.offers (some site.package))) s₈ ∧
      (∀ v ∈ structs'.flatMap (·.fields) ++ connectors'.flatMap (·.allVars) ++
        functions.flatMap (·.functionParts) ++ services'.flatMap (·.allVars) ++ vars,
        v.EnteredIn s₈ site.package) ∧
      structs'.map (·.unbound) = structs.map (·.equipped.unbound) ∧
      connectors'.map (·.unbound) = connectors.map (·.published.unbound) ∧
      functions.map (·.unbound) = p.functions.map (·.equipped.unbound) ∧
      services'.map (·.unbound) = services.map (fun d => (d.equipped config).unbound) := by
  obtain ⟨hr₅, hv₅, hunbound₄, hunbound₅⟩ := run_enterContainers h hd h₄ h₅
  have hf₅ := hr₅.follows h.sound
  have ht₅ := h.mono hf₅
  have hr₆ := run_mapM_enterFunction ht₅ h₆
  have hf₆ := hr₆.1.follows ht₅.sound
  have ht₆ := ht₅.mono hf₆
  obtain ⟨hr₈, hv₈, hunbound₇⟩ := run_enterServices ht₆
    (fun d hd' => ((hd.service d hd').mono hf₅.grows).mono hf₆.grows) h₇ h₈
  have hv₆ := VarDecl.enteredIn_append hv₅ ht₅.sound hf₆
    (Offer.inner_flatMap Callable.inner_functionOffers _) hr₆.2.1
  have hruns := (hr₅.trans hr₆.1).trans hr₈
  have hvars := VarDecl.enteredIn_append hv₆ ht₆.sound (hr₈.follows ht₆.sound)
    (inner_serviceOffers _ _ _) hv₈
  rw [← List.append_assoc] at hruns hvars
  exact ⟨hruns, hvars, hunbound₄, hunbound₅, hr₆.2.2, hunbound₇⟩

/-- What declares a container is offered as it was declared. -/
theorem declareOffers_eq (c : Option SymbolId)
    (h₄ : structs.mapM (·.enterFields site) s₃ = (structs', s₄))
    (h₅ : connectors.mapM (·.enterActions site) s₄ = (connectors', s₅))
    (h₇ : services.mapM (·.enterMembers config site) s₆ = (services', s₇)) :
    structs'.map (·.offer c) ++ connectors'.flatMap (fun d => d.offer c :: d.initializerOffers c) ++
        services'.map (·.offer c) =
      structs.map (·.offer c) ++ connectors.flatMap (fun d => d.offer c :: d.initializerOffers c) ++
        services.map (·.offer c) := by
  rw [map_eq_of_run_mapM (Struct.offer_enterFields c) h₄,
    map_eq_of_run_mapM (Service.offer_enterMembers config c) h₇, List.flatMap_def, List.flatMap_def,
    map_eq_of_run_mapM (Connector.offer_enterActions c) h₅]

/-- Declaring structs, connectors and services adds nothing to what is written but the initializers
    of connectors. -/
theorem unbound_declare {p : Package} (h : site.publishes = false)
    (h₁ : p.structs.mapM (·.declare site) s = (structs, s₁))
    (h₂ : p.connectors.mapM (·.declare config site) s₁ = (connectors, s₂))
    (h₃ : p.services.mapM (·.declare site) s₂ = (services, s₃)) :
    structs.map (·.equipped.unbound) = p.structs.map (·.equipped.unbound) ∧
      connectors.map (·.published.unbound) =
        p.connectors.map (fun d => (d.equipped config).unbound) ∧
      services.map (fun d => (d.equipped config).unbound) =
        p.services.map (fun d => (d.equipped config).unbound) :=
  ⟨map_eq_of_run_mapM (fun d s => d.unbound_equipped_declare site s) h₁,
    map_eq_of_run_mapM (fun d s => d.unbound_published_declare config h s) h₂,
    map_eq_of_run_mapM (fun d s => d.unbound_equipped_declare config site s) h₃⟩

/-- The members of a package are entered. -/
theorem run_enterMembers (config : Config) (p : Package) (h : site.Top m s) :
    Run m s ((p.enterMembers config site s).1.memberOffers (some site.package))
        (p.enterMembers config site s).2 ∧
      (∀ v ∈ (p.enterMembers config site s).1.allVars,
        v.EnteredIn (p.enterMembers config site s).2 site.package) ∧
      (p.enterMembers config site s).1.unbound =
        (p.equipped config (s.symbolText site.package) (p.enterMembers config site s).1.vars).unbound
      := by
  obtain ⟨structs, connectors, services, structs', connectors', functions, services', vars, s₁, s₂,
    s₃, s₄, s₅, s₆, s₇, s₈, h₁, h₂, h₃, h₄, h₅, h₆, h₇, h₈⟩ := p.exists_stages config site s
  obtain ⟨hdeclare, hd⟩ := run_declare h h₁ h₂ h₃
  rw [← declareOffers_eq _ h₄ h₅ h₇] at hdeclare
  have hf₃ := hdeclare.follows h.sound
  have ht₃ := h.mono hf₃
  obtain ⟨henter, hentered, hu₄, hu₅, hu₆, hu₇⟩ := run_enter ht₃ hd h₄ h₅ h₆ h₇ h₈
  obtain ⟨hu₁, hu₂, hu₃⟩ := unbound_declare h.publishes h₁ h₂ h₃
  have hf₈ := henter.follows ht₃.sound
  have ht₈ := ht₃.mono hf₈
  obtain ⟨hinit, hinitEntered⟩ := (makeInitializer (s₈.symbolText site.package) p.span vars
    config).run_enterFunction ht₈.toAt
  have hruns := (hdeclare.trans henter).trans hinit
  have hkind : site.kind ≠ .struct := by
    rw [h.kind]
    nofun
  have hu₈ := map_eq_of_run_mapM (VarDecl.unbound_enter_of_ne hkind) h₈
  obtain ⟨sym, hsym, _⟩ := Option.map_eq_some_iff.1 h.kindOf
  have htitle : s₈.symbolText site.package = s.symbolText site.package :=
    h.sound.symbolText_eq (hf₃.grows.trans hf₈.grows) hsym
  rw [enterMembers_eq h₁ h₂ h₃ h₄ h₅ h₆ h₇ h₈, memberOffers, allVars, Option.toList_some,
    List.flatMap_singleton, List.flatMap_singleton]
  simp only [List.append_assoc] at hruns ⊢
  refine ⟨hruns, ?_, ?_⟩
  · simp only [← List.append_assoc]
    exact VarDecl.enteredIn_append hentered ht₈.sound (hinit.follows ht₈.sound)
      (Callable.inner_functionOffers _) hinitEntered
  · have hinitializer : (makeInitializer (s.symbolText site.package) p.span vars config).equipped =
        makeInitializer (s.symbolText site.package) p.span vars config := rfl
    simp only [unbound, equipped, List.map_map, Function.comp_def, Option.map_some, hu₄, hu₁, hu₅,
      hu₂, hu₆, hu₇, hu₃, hu₈, htitle, Callable.unbound_enterFunction_of_not h.publishes,
      hinitializer]

end Package

end Binder
