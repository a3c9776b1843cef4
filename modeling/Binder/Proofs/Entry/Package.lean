import Binder.Proofs.Entry.Import

/-!
# Entering packages

A package gets its symbol and its scope, then its imports are entered and, if all are had, its
members. All of that leaves alone what was there when the package began to be entered, whether it
succeeds or fails.

* `Package.title`: the texts of the name of a package.
* `Package.opened`: a package with its symbol and scope, before its imports are entered.
* `Package.enterContents_of_ok`: what a package comes to that is entered with success.
* `Package.enterWith_spec`: a package is entered.
* `Package.exists_members`: how a package is entered with success.
-/

namespace Binder

namespace Package

variable {load : Loader} {site : Site} {s₀ s : Session}

/-! ## The name and the symbol -/

/-- The texts of the name of a package: by its clause, else by the path it is imported by, else by
    the settings. -/
def title (config : Config) (path : Option PackageKey) (p : Package) : PackageKey :=
  match p.clause, path with
  | some c, _ => (c.path.map (·.text), c.version.map (·.text))
  | none, some key => key
  | none, none => ([config.defaultPackage], none)

theorem naming_spec (m : Mark) (config : Config) {path : Option PackageName} (p : Package)
    {s : Store} (hpath : ∀ name ∈ path, name.Known s.names) :
    Store.Run m s [] (p.naming config path s).2 ∧
      (p.naming config path s).1.Known (p.naming config path s).2.names ∧
      (p.naming config path s).1.key (p.naming config path s).2.names =
        p.title config (path.map (·.key s.names)) := by
  unfold naming title
  cases p.clause with
  | some c => exact ⟨Store.run_internPackage m _ _ s, Store.internPackage_spec _ _ s⟩
  | none =>
    cases path with
    | some name => exact ⟨.refl s, hpath name rfl, rfl⟩
    | none => exact ⟨Store.run_internPackage m _ _ s, Store.internPackage_spec _ _ s⟩

/-- The symbol of a package, like an offer to the root symbol. It is bound to no name there. -/
def rootOffer (text : String) (span : Span) (x : SymbolId) : Offer :=
  { container := some Table.root, text, kind := .package, ty := some .package, span
    symbol := some x }

end Package

/-- The symbol of a package is made. -/
theorem Store.Sound.made_package {s : Store} (hs : s.Sound) {name : Name} {text : String}
    (htext : s.names.text? name = some text) (pkg : PackageId) (span : Span)
    (packages : List PackageName) {sym : Symbol}
    (hsym : (Package.rootOffer text span s.table.nextSymbol).toSymbol name pkg = sym) :
    s.Made (Package.rootOffer text span s.table.nextSymbol) name pkg
      { s.table.addOwner sym none with packages } { sym with scope := some s.table.nextScope } := by
  have hpackage : s.table.types.get? .package = some .package := hs.types.builtin (by decide)
  have hkind : sym.kind = .package := hsym ▸ rfl
  have hsymbol : ∀ x, Table.symbol? { s.table.addOwner sym none with packages } x = _ :=
    s.table.symbol?_addOwner sym none
  have hscope : ∀ i, Table.scope? { s.table.addOwner sym none with packages } i = _ :=
    s.table.scope?_addOwner sym none
  have g : s.table.Grows { s.table.addOwner sym none with packages } :=
    Table.grows_of_next (fun x hx => (hsymbol x).trans (if_neg hx))
      (fun i hi => (hscope i).trans (if_neg hi)) fun _ _ => rfl
  have htype : ∀ id, sym.ty = some id → (s.table.types.get? id).isSome := fun id hid => by
    rw [← hsym] at hid
    cases hid
    rw [hpackage]
    rfl
  have hsuits : s.table.Suits sym Table.root :=
    ⟨hsym ▸ rfl, fun h => absurd hkind h, ⟨.package, hs.linked.root, fun _ => rfl⟩, htype⟩
  have hlinked := hs.linked.of_owner g hsuits (by rw [hkind]; nofun) (.inl ⟨hkind, rfl⟩) rfl hsymbol
    hscope htype fun ht => by rw [hkind] at ht; cases ht
  refine ⟨hs.of_table hlinked hs.types (fun x sym' hx => ?_) fun i sc hi =>
    (made_scope hscope i sc hi).imp_right And.right, ⟨g, List.prefix_rfl, List.prefix_rfl,
      List.prefix_rfl⟩, hsym ▸ rfl, hsymbol, made_scope hscope⟩
  rw [hsymbol] at hx
  split at hx
  · cases hx
    have hname : sym.name = name := hsym ▸ rfl
    rw [hname, htext]
    exact .inr rfl
  · exact .inl hx

namespace Package

variable {load : Loader} {site : Site} {s₀ s : Session}

/-- Names of packages that are there stay there. -/
theorem declare_eq (name : PackageName) (p : Package) (s : Store) : ∃ packages pkg,
    s.table.packages <+: packages ∧ p.declare name s =
      (.ofPackage s.table.nextSymbol pkg s.table.nextScope,
        { (Store.intern (name.text s.names) s).2 with
          table :=
            { s.table.addOwner
                ((rootOffer (name.text s.names) p.span s.table.nextSymbol).toSymbol
                  (Store.intern (name.text s.names) s).1 pkg) none with
              packages } }) := by
  obtain ⟨pkg, packages, hgrows, hadd⟩ : ∃ pkg packages, s.table.packages <+: packages ∧
      s.table.addPackage name = (pkg, { s.table with packages }) := by
    unfold Table.addPackage
    split
    · exact ⟨_, s.table.packages, List.prefix_rfl, rfl⟩
    · exact ⟨_, _, List.prefix_append _ _, rfl⟩
  refine ⟨packages, pkg, hgrows, ?_⟩
  have hpackage : Store.addPackage name (Store.intern (name.text s.names) s).2 =
      (pkg, { (Store.intern (name.text s.names) s).2 with table := { s.table with packages } }) := by
    simp only [Store.addPackage, Store.intern, hadd]
  unfold declare
  simp only [run_bind, run_get, run_pure, hpackage]
  exact congrArg (fun r : ScopeId × Store => (Site.ofPackage s.table.nextSymbol pkg r.1, r.2))
    (Store.addScope_addSymbol
      { (Store.intern (name.text s.names) s).2 with table := { s.table with packages } } _ none)

/-- Naming a package changes names only. -/
theorem table_naming (config : Config) (path : Option PackageName) (p : Package) (s : Store) :
    (p.naming config path s).2.table = s.table ∧ (p.naming config path s).2.log = s.log := by
  unfold naming
  cases p.clause with
  | some c => exact ⟨rfl, rfl⟩
  | none => cases path <;> exact ⟨rfl, rfl⟩

/-- Declaring a package makes its symbol and its scope. -/
theorem declare_made (name : PackageName) (p : Package) (s : Store) :
    (p.declare name s).2.log = s.log ∧
      (∀ x, ((p.declare name s).2.table.symbol? x).isSome ↔
        (s.table.symbol? x).isSome ∨ x = (p.declare name s).1.package) ∧
      ∀ i, ((p.declare name s).2.table.scope? i).isSome ↔
        (s.table.scope? i).isSome ∨ i = (p.declare name s).1.scope := by
  obtain ⟨packages, pkg, _, heq⟩ := p.declare_eq name s
  rw [heq]
  generalize Offer.toSymbol _ _ _ = sym
  exact ⟨rfl, s.table.isSome_symbol?_addOwner sym none, s.table.isSome_scope?_addOwner sym none⟩

/-- A package called `text` has its symbol and its scope, and nothing is bound there yet. -/
structure Opened (text : String) (site : Site) (s s' : Session) : Prop where
  opens : site.Opens s s'
  redeclarations : s'.store.redeclarations = s.store.redeclarations
  bindings : s'.store.bindings site.package = []
  text : s'.store.symbolText site.package = text

/-- A package gets its symbol and its scope. -/
theorem declare_spec (name : PackageName) (p : Package) (h₀ : s₀.Leads s) (hs₀ : s₀.Sound)
    (hs : s.Sound) (hlog : s.store.redeclarations = s₀.store.redeclarations) :
    Opened (name.text s.store.names) (Session.onStore (p.declare name) s).1 s₀
      (Session.onStore (p.declare name) s).2 := by
  obtain ⟨packages, pkg, _, heq⟩ := declare_eq name p s.store
  rw [run_onStore, heq]
  have hintern : Store.Run s₀.store.mark s.store []
    (Store.intern (name.text s.store.names) s.store).2 := .intern _ _
  obtain ⟨hs₁, hl₁⟩ := hs.run hs₀ h₀ hintern
  have hname : (Store.intern (name.text s.store.names) s.store).2.names.text?
      (Store.intern (name.text s.store.names) s.store).1 = some (name.text s.store.names) :=
    s.store.names.text?_intern _
  have hmade := hs₁.store.made_package hname pkg p.span packages rfl
  have hnext := hmade.symbol?_next
  have hkeeps := hl₁.keeps.trans (hmade.keeps fun _ _ => rfl)
  have hold : s.store.table.symbol? s.store.table.nextSymbol = none :=
    Array.getElem?_eq_none (Nat.le_refl _)
  have holdScope : s.store.table.scope? s.store.table.nextScope = none :=
    Array.getElem?_eq_none (Nat.le_refl _)
  have hempty := (hmade.effect hs₁.store).bindings_nil s.store.table.nextSymbol
  have hs₂ := hs₁.withStore hmade.sound hmade.grows fun x sym hx => by
    rw [hmade.symbol] at hx
    split at hx
    · cases hx
      rfl
    · exact hs₁.typed x sym hx
  refine ⟨⟨hs₀, hs₂, ⟨hkeeps, hl₁.config, hl₁.library⟩, ?_, ?_, ?_, ?_, ?_, rfl, rfl⟩, hlog, ?_, ?_⟩
  · cases hx : s₀.store.table.symbol? s.store.table.nextSymbol with
    | none => exact hx
    | some sym => exact absurd (hold.symm.trans (h₀.keeps.symbol hx)) nofun
  · cases hi : s₀.store.table.scope? s.store.table.nextScope with
    | none => exact hi
    | some sc => exact absurd (holdScope.symm.trans (h₀.keeps.scope hi)) nofun
  · exact Option.bind_eq_some_iff.2 ⟨_, hnext, rfl⟩
  · exact Option.map_eq_some_iff.2 ⟨_, hnext, rfl⟩
  · exact Option.map_eq_some_iff.2 ⟨_, hnext, rfl⟩
  · have hscope : s.store.table.scopeOf s.store.table.nextSymbol = none := by
      rw [Table.scopeOf, hold, Option.bind_none]
    exact hempty.trans (congrArg (List.map _) (Store.entries_eq_nil hscope))
  · refine (Store.symbolText_of_symbol? hnext).trans ?_
    exact s.store.names.text_intern (name.text s.store.names)

/-- A package with its name, its symbol and its scope, before its imports are entered: the name its
    state is kept under, the site of its top level and the session. -/
def opened (path : Option PackageName) (p : Package) (s : Session) :
    PackageName × Site × Session :=
  let (name, s₁) := Session.onStore (p.naming s.config path) s
  let (site, s₂) := Session.onStore (p.declare name) s₁
  (path.getD name, site, (Session.setState (path.getD name) .inProgress s₂).2)

theorem opened_spec {path : Option PackageName} (p : Package) (hs : s.Sound)
    (hpath : ∀ name ∈ path, name.Known s.store.names) :
    Opened (let key := p.title s.config (path.map (·.key s.store.names))
        PackageName.render key.1 key.2) (p.opened path s).2.1 s (p.opened path s).2.2 ∧
      (p.opened path s).1.Known (p.opened path s).2.2.store.names := by
  obtain ⟨hnaming, hknown, hkey⟩ := p.naming_spec s.store.mark s.config hpath
  obtain ⟨hs₁, hl₁⟩ := hs.run hs (.refl s) hnaming
  have hlog := (hnaming.follows hs.store).effect.redeclarations
  have hopened := declare_spec (p.naming s.config path s.store).1 p hl₁ hs hs₁
    (hlog.trans (List.append_nil _))
  have hnames := hopened.opens.leads.keeps.names
  have htext := congrArg (fun k : PackageKey => PackageName.render k.1 k.2) hkey
  have hkey' : (path.getD (p.naming s.config path s.store).1).Known
      (p.opened path s).2.2.store.names := by
    cases path with
    | none =>
      exact hknown.mono (declare_spec _ p (.refl _) hs₁ hs₁ rfl).opens.leads.keeps.names
    | some name => exact (hpath name rfl).mono hnames
  refine ⟨⟨?_, hopened.redeclarations, hopened.bindings, hopened.text.trans htext⟩, hkey'⟩
  exact hopened.opens.mono (hopened.opens.sound.setState hkey' nofun) (.refl _)
    (hopened.opens.leads.setState _ _)

/-- Nothing else is made before the imports of a package have their turns. -/
theorem opened_made (path : Option PackageName) (p : Package) (s : Session) :
    (p.opened path s).2.2.store.log = s.store.log ∧
      (∀ x, ((p.opened path s).2.2.store.table.symbol? x).isSome ↔
        (s.store.table.symbol? x).isSome ∨ x = (p.opened path s).2.1.package) ∧
      ∀ i, ((p.opened path s).2.2.store.table.scope? i).isSome ↔
        (s.store.table.scope? i).isSome ∨ i = (p.opened path s).2.1.scope := by
  obtain ⟨htable, hlog⟩ := table_naming s.config path p s.store
  have hmade := declare_made (p.naming s.config path s.store).1 p (p.naming s.config path s.store).2
  rw [htable, hlog] at hmade
  exact hmade

/-! ## The contents -/

/-- The package `p` has all of `imports`, with which it gets as far as the session `s₁`, and its
    members are entered. -/
structure Entered (load : Loader) (site : Site) (s₀ s s₁ : Session) (imports : List Import)
    (p : Package) (s' : Session) : Prop where
  opens : site.Opens s₀ s₁
  imports : Import.AllEntered load site.package s (Import.loadLog load site imports s) p.imports s₁
  members : Store.Run s₀.store.mark s₁.store (p.memberOffers (some site.package)) s'.store
  vars : ∀ v ∈ p.allVars, v.EnteredIn s'.store site.package
  initialized : p.Initialized s₀.config (s.store.symbolText site.package)

theorem imports_enterMembers (config : Config) (site : Site) (p : Package) (s : Store) :
    (p.enterMembers config site s).1.imports = p.imports := by
  unfold enterMembers
  rfl

theorem enterContents_of_error {p : Package} {imports : List Import} {e : EnterError} {s₁ : Session}
    (h : Import.enterAll load site p.imports s = ((imports, some e), s₁)) :
    p.enterContents load site s = (({ p with imports }, .error e), s₁) := by
  simp only [enterContents, run_bind, h]
  rfl

theorem enterContents_of_none {p p' : Package} {imports : List Import} {s₁ : Session} {st : Store}
    (h : Import.enterAll load site p.imports s = ((imports, none), s₁))
    (hp : { p with imports }.enterMembers s₁.config site s₁.store = (p', st)) :
    p.enterContents load site s = ((p', .ok site.package), { s₁ with store := st }) := by
  simp only [enterContents, run_bind, h, run_get, run_onStore, hp]
  rfl

/-- The contents of a package that is entered with success: all of its imports are had, and then its
    members are entered. -/
theorem enterContents_of_ok {p : Package} {x : SymbolId}
    (hok : (p.enterContents load site s).1.2 = .ok x) :
    let r := Import.enterAll load site p.imports s
    let members := { p with imports := r.1.1 }.enterMembers r.2.config site r.2.store
    r.1.2 = none ∧ x = site.package ∧ (p.enterContents load site s).1.1 = members.1 ∧
      (p.enterContents load site s).2.store = members.2 := by
  cases hall : Import.enterAll load site p.imports s with
  | mk r s₁ =>
    obtain ⟨imports, failure⟩ := r
    cases failure with
    | some e =>
      rw [enterContents_of_error hall] at hok
      cases hok
    | none =>
      rw [enterContents_of_none hall rfl] at hok ⊢
      exact ⟨rfl, (Except.ok.inj hok).symm, rfl, rfl⟩

/-- The members of a package are entered when all of its imports are had. -/
theorem entered_enterMembers (hload : load.Sound) (h : site.Opens s₀ s) {p p' : Package}
    {imports : List Import} {s₁ : Session} {st : Store}
    (hall : Import.enterAll load site p.imports s = ((imports, none), s₁))
    (hp : { p with imports }.enterMembers s₁.config site s₁.store = (p', st)) :
    Entered load site s₀ s s₁ p.imports p' { s₁ with store := st } := by
  obtain ⟨h₁, g₁⟩ := Import.enterAll_opens hload p.imports h
  have himports := Import.enterAll_spec hload p.imports h
  have hentered := imports_enterMembers s₁.config site { p with imports } s₁.store
  rw [hall] at h₁ g₁ himports
  obtain ⟨hrun, hvars, hunbound⟩ := run_enterMembers s₁.config { p with imports } h₁.top
  obtain ⟨sym, hsym⟩ := h.exists_symbol
  rw [hp] at hentered hrun hvars hunbound
  rw [h₁.leads.config, h.sound.store.symbolText_eq g₁ hsym] at hunbound
  exact ⟨h₁, hentered ▸ himports rfl, hrun, hvars, .of_unbound hunbound⟩

/-- The contents of a package are entered, as far as its imports are had. -/
theorem enterContents_spec (hload : load.Sound) (h : site.Opens s₀ s) (p : Package) :
    site.Opens s₀ (p.enterContents load site s).2 ∧
      s.store.Grows (p.enterContents load site s).2.store ∧
      ∀ x, (p.enterContents load site s).1.2 = .ok x → x = site.package ∧ ∃ s₁,
        Entered load site s₀ s s₁ p.imports (p.enterContents load site s).1.1
          (p.enterContents load site s).2 := by
  obtain ⟨h₁, g₁⟩ := Import.enterAll_opens hload p.imports h
  cases hall : Import.enterAll load site p.imports s with
  | mk r s₁ =>
    obtain ⟨imports, failure⟩ := r
    rw [hall] at h₁ g₁
    cases failure with
    | some e =>
      rw [enterContents_of_error hall]
      exact ⟨h₁, g₁, nofun⟩
    | none =>
      cases hp : { p with imports }.enterMembers s₁.config site s₁.store with
      | mk p' st =>
        have hentered := entered_enterMembers hload h hall hp
        obtain ⟨hs₂, hl₂⟩ := h₁.sound.run h.start h₁.leads hentered.members
        have g₂ := hentered.members.grows h₁.sound.store
        rw [enterContents_of_none hall hp]
        exact ⟨h₁.mono hs₂ g₂ hl₂, g₁.trans g₂,
          fun x hx => ⟨(Except.ok.inj hx).symm, s₁, hentered⟩⟩

/-! ## The package -/

theorem enterWith_eq {path : Option PackageName} {p p' : Package} {key : PackageName}
    {outcome : Except EnterError SymbolId} {s₁ s₂ : Session}
    (ho : p.collect.opened path s = (key, site, s₁))
    (hc : { p.collect with symbol := some site.package }.enterContents load site s₁ =
      ((p', outcome), s₂)) :
    p.enterWith load path s =
      ((p', outcome), (Session.setState key (stateAfter outcome) s₂).2) := by
  let contents (o : PackageName × Site × Session) :=
    { p.collect with symbol := some o.2.1.package }.enterContents load o.2.1 o.2.2
  have heq : p.enterWith load path s = (fun o =>
      ((contents o).1, (Session.setState o.1 (stateAfter (contents o).1.2) (contents o).2).2))
        (p.collect.opened path s) := rfl
  rw [heq, ho]
  simp only [contents, hc]

/-- What a package comes to is up to its imports. -/
theorem enterWith_congr {load' : Loader} {path : Option PackageName} (p : Package)
    (h : let o := p.collect.opened path s
      Import.enterAll load' o.2.1 p.collect.imports o.2.2 =
        Import.enterAll load o.2.1 p.collect.imports o.2.2) :
    p.enterWith load' path s = p.enterWith load path s := by
  cases ho : p.collect.opened path s with
  | mk key r =>
    obtain ⟨site, s₁⟩ := r
    rw [ho] at h
    let q : Package := { p.collect with symbol := some site.package }
    have hcontents : q.enterContents load' site s₁ = q.enterContents load site s₁ := by
      unfold enterContents
      simp only [run_bind]
      rw [show Import.enterAll load' site q.imports s₁ = _ from h]
    cases hq : q.enterContents load site s₁ with
    | mk r s₂ => rw [enterWith_eq ho (hcontents.trans hq), enterWith_eq ho hq]

/-- A package is entered. -/
theorem enterWith_spec (hload : load.Sound) {path : Option PackageName} (p : Package)
    (hs : s.Sound) (hpath : ∀ name ∈ path, name.Known s.store.names) :
    (p.collect.opened path s).2.1.Opens s (p.enterWith load path s).2 ∧
      ∀ x, (p.enterWith load path s).1.2 = .ok x → x = (p.collect.opened path s).2.1.package ∧
        ∃ s₁, Entered load (p.collect.opened path s).2.1 s (p.collect.opened path s).2.2 s₁
          p.collect.imports (p.enterWith load path s).1.1 (p.enterWith load path s).2 := by
  obtain ⟨hopened, hknown⟩ := p.collect.opened_spec hs hpath
  cases ho : p.collect.opened path s with
  | mk key r =>
    obtain ⟨site, s₁⟩ := r
    rw [ho] at hopened hknown
    obtain ⟨h₂, g₂, hok⟩ :=
      enterContents_spec hload hopened.opens { p.collect with symbol := some site.package }
    cases hc : { p.collect with symbol := some site.package }.enterContents load site s₁ with
    | mk r s₂ =>
      obtain ⟨p', outcome⟩ := r
      rw [hc] at h₂ g₂ hok
      have hloaded : ∀ x, stateAfter outcome = .loaded x →
          s₂.store.table.kindOf x = some .package := fun x hx => by
        cases outcome with
        | error e => cases hx
        | ok y =>
          cases hx
          rw [(hok x rfl).1]
          exact h₂.kindOf
      have hs₂ := h₂.sound.setState (hknown.mono g₂.names) hloaded
      rw [enterWith_eq ho hc]
      refine ⟨h₂.mono hs₂ (.refl _) (h₂.leads.setState _ _), fun x hx => ?_⟩
      obtain ⟨hx, s, h⟩ := hok x hx
      exact ⟨hx, s, h.opens, h.imports, h.members, h.vars, h.initialized⟩

/-- If a package fails, nothing comes after its imports. -/
theorem store_eq_of_error {path : Option PackageName} {p p' : Package} {key : PackageName}
    {s₁ s' : Session} {e : EnterError} (ho : p.collect.opened path s = (key, site, s₁))
    (hp : p.enterWith load path s = ((p', .error e), s')) :
    s'.store = (Import.enterAll load site p.collect.imports s₁).2.store := by
  let q : Package := { p.collect with symbol := some site.package }
  cases hall : Import.enterAll load site q.imports s₁ with
  | mk r s₂ =>
    obtain ⟨imports, failure⟩ := r
    cases failure with
    | none => cases hp.symm.trans (enterWith_eq ho (enterContents_of_none hall rfl))
    | some e' =>
      cases hp.symm.trans (enterWith_eq ho (enterContents_of_error hall))
      rfl

/-- A package that is entered with success: all of its imports are had, and then its members are
    entered. -/
theorem exists_members (hload : load.Sound) {path : Option PackageName} {p p' : Package}
    {key : PackageName} {s₁ s' : Session} {x : SymbolId} (hs : s.Sound)
    (hpath : ∀ name ∈ path, name.Known s.store.names)
    (ho : p.collect.opened path s = (key, site, s₁))
    (hp : p.enterWith load path s = ((p', .ok x), s')) :
    let q : Package := { p.collect with symbol := some site.package }
    ∃ imports s₂, Import.enterAll load site q.imports s₁ = ((imports, none), s₂) ∧
      x = site.package ∧
      { q with imports }.enterMembers s₂.config site s₂.store = (p', s'.store) ∧
      Entered load site s s₁ s₂ q.imports p' s' := by
  intro q
  obtain ⟨hopened, _⟩ := p.collect.opened_spec hs hpath
  rw [ho] at hopened
  cases hall : Import.enterAll load site q.imports s₁ with
  | mk r s₂ =>
    obtain ⟨imports, failure⟩ := r
    cases failure with
    | some e =>
      rw [enterWith_eq ho (enterContents_of_error hall)] at hp
      cases hp
    | none =>
      cases hm : { q with imports }.enterMembers s₂.config site s₂.store with
      | mk p₂ st =>
        have h := entered_enterMembers hload hopened.opens hall hm
        rw [enterWith_eq ho (enterContents_of_none hall hm)] at hp
        cases hp
        exact ⟨imports, s₂, rfl, rfl, hm, h.opens, h.imports, h.members, h.vars, h.initialized⟩

end Package

end Binder
