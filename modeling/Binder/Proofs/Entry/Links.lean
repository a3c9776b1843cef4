import Binder.Proofs.Annotation
import Binder.Proofs.Entry.Complete
import Binder.Proofs.Entry.Ending
import Binder.Proofs.Initializers

/-!
# Links to parts

The symbol of a callable links to the symbols of its parts. A part that has a name gets a symbol when
the callable is entered, so what is linked to then is a variable that was made meanwhile and belongs
to the callable. A part without a name gets none, but it keeps the symbol it is written with, if any:
it *presets* that symbol, and the callable links to it, whatever it is.

* `Library.Presets`: the symbols that the packages of a library preset.
* `Store.LinksOwn`: what is made between two stores links to variables of its own that are made there
  and to symbols of a given kind.
* `Session.Course.links_eq_none`: only callables link to anything.
* `Package.linksOwn_enterMembers`: the members of a package.
* `Session.loadWithin_linksOwn`: what loads make, however deep they are nested.
-/

namespace Binder

open Store

/-- A package of the library presets the symbol `z`. -/
def Library.Presets (l : Library) (z : SymbolId) : Prop :=
  ∃ path version q, l.fetch? path version = some q ∧ q.collect.Presets z

/-! ## Links between two stores -/

/-- The symbols in the links. -/
def Links.symbols (l : Links) : List SymbolId := l.params ++ l.returns ++ l.receiver.toList

namespace Store

/-- The symbol `z` is made between the stores `s` and `s'`, for a variable that belongs to `x`. -/
def MakesVar (s s' : Store) (x z : SymbolId) : Prop :=
  s.table.symbol? z = none ∧
    ∃ sym, s'.table.symbol? z = some sym ∧ sym.kind = .var ∧ sym.owner = some x

/-- Whatever is made between `s` and `s'` links to variables that are made there, too, and belong to
    it, and to symbols for which `P` holds. -/
structure LinksOwn (s : Store) (P : SymbolId → Prop) (s' : Store) : Prop where
  retains : s.Retains s'
  links : ∀ x sym links, s.table.symbol? x = none → s'.table.symbol? x = some sym →
    sym.links = some links → ∀ z ∈ links.symbols, s.MakesVar s' x z ∨ P z

variable {s s' s'' : Store} {P Q : SymbolId → Prop}

/-- What was not there later was not there before. -/
theorem Retains.symbol?_eq_none (h : s.Retains s') {x : SymbolId} (hx : s'.table.symbol? x = none) :
    s.table.symbol? x = none := by
  by_contra hne
  obtain ⟨sym, hsym⟩ := Option.ne_none_iff_exists'.1 hne
  cases (h.symbol hsym).symm.trans hx

theorem MakesVar.mono {x z : SymbolId} (h : s.MakesVar s' x z) (hr : s'.Retains s'') :
    s.MakesVar s'' x z := by
  obtain ⟨hold, sym, hsym, hkind, howner⟩ := h
  exact ⟨hold, sym, hr.symbol hsym, hkind, howner⟩

theorem MakesVar.before {x z : SymbolId} (h : s'.MakesVar s'' x z) (hr : s.Retains s') :
    s.MakesVar s'' x z :=
  ⟨hr.symbol?_eq_none h.1, h.2⟩

namespace LinksOwn

/-- Nothing is made that has links. -/
theorem of_links (hr : s.Retains s') (h : ∀ x sym, s.table.symbol? x = none →
    s'.table.symbol? x = some sym → sym.links = none) : s.LinksOwn P s' where
  retains := hr
  links x sym links hold hnew hlinks := by cases (h x sym hold hnew).symm.trans hlinks

/-- No symbol is made at all. -/
theorem of_symbols (hr : s.Retains s') (h : ∀ x, s'.table.symbol? x = s.table.symbol? x) :
    s.LinksOwn P s' :=
  .of_links hr fun x sym hold hnew => by
    rw [h, hold] at hnew
    cases hnew

theorem refl (s : Store) : s.LinksOwn P s := .of_symbols (.refl s) fun _ => rfl

theorem trans (h : s.LinksOwn P s') (h' : s'.LinksOwn P s'') : s.LinksOwn P s'' where
  retains := h.retains.trans h'.retains
  links x sym links hold hnew hlinks z hz := by
    cases hx : s'.table.symbol? x with
    | none =>
      exact (h'.links x sym links hx hnew hlinks z hz).imp_left fun hz => hz.before h.retains
    | some sym' =>
      -- What was made first has its links by then, and keeps them.
      cases (h'.retains.symbol hx).symm.trans hnew
      exact (h.links x sym links hold hx hlinks z hz).imp_left fun hz => hz.mono h'.retains

theorem mono (h : s.LinksOwn P s') (hPQ : ∀ z, P z → Q z) : s.LinksOwn Q s' where
  retains := h.retains
  links x sym links hold hnew hlinks z hz :=
    (h.links x sym links hold hnew hlinks z hz).imp_right (hPQ z)

end LinksOwn

end Store

/-! ## Only callables link to anything -/

/-- Of what a run makes, only callables have links. -/
theorem Store.Run.links_eq_none {m : Mark} {s s' : Store} {os : List Offer} (h : Run m s os s')
    {x : SymbolId} {sym : Symbol} (hold : s.table.symbol? x = none)
    (hnew : s'.table.symbol? x = some sym) (hk : ¬sym.kind.isCallable) : sym.links = none := by
  induction h with
  | @trans s s₁ s₂ _ _ _ h' ih ih' =>
    cases hx : s₁.table.symbol? x with
    | none => exact ih' hx hnew
    | some sym₁ =>
      cases (h'.retains.symbol hx).symm.trans hnew
      exact ih hold hx
  | var =>
    rw [symbol?_offerNext, Table.symbol?_addSymbol] at hnew
    split at hnew
    · cases hnew
      rfl
    · cases hold.symm.trans hnew
  | container =>
    rw [symbol?_offerNext, Table.symbol?_addTypeOwner] at hnew
    split at hnew
    · cases hnew
      rfl
    · cases hold.symm.trans hnew
  | @callable s s₁ o os c scope name pkg signature links _ hcallable _ hrun _ _ ih =>
    have hmade := s.table.symbol?_addOwner (o.toSymbol name pkg) (some scope)
    rw [Table.symbol?_complete] at hnew
    split at hnew
    · next hx =>
      -- The symbol that is completed is that of the callable itself.
      have hinside := hrun.retains.symbol
        (s.symbol?_offerNext_addOwner (o.toSymbol name pkg) scope (some scope))
      rw [hx, hinside] at hnew
      cases hnew
      exact absurd hcallable hk
    · next hne => exact ih (by rw [symbol?_offerNext, hmade, if_neg hne, hold]) hnew
  | setFields =>
    simp only [Store.setFields] at hnew
    split at hnew <;> cases hold.symm.trans hnew
  | _ => cases hold.symm.trans hnew

theorem Session.Course.links_eq_none {s s' : Session} (h : s.Course s') {x : SymbolId} {sym : Symbol}
    (hold : s.store.table.symbol? x = none) (hnew : s'.store.table.symbol? x = some sym)
    (hk : ¬sym.kind.isCallable) : sym.links = none := by
  induction h with
  | refl => cases hold.symm.trans hnew
  | @trans s s₁ s' _ h' ih ih' =>
    cases hx : s₁.store.table.symbol? x with
    | none => exact ih' hx hnew
    | some sym₁ =>
      cases (h'.retains.symbol hx).symm.trans hnew
      exact ih hold hx
  | run hrun => exact hrun.links_eq_none hold hnew hk
  | @declare s name p _ =>
    obtain ⟨packages, pkg, _, heq⟩ := p.declare_eq name s.store
    rw [run_onStore, heq] at hnew
    have hmade := s.store.table.symbol?_addOwner
      ((Package.rootOffer (name.text s.store.names) p.span s.store.table.nextSymbol).toSymbol
        (Store.intern (name.text s.store.names) s.store).1 pkg) none x
    replace hnew := hmade.symm.trans hnew
    split at hnew
    · cases hnew
      rfl
    · cases hold.symm.trans hnew
  | offer =>
    rw [run_onStore, symbol?_define] at hnew
    cases hold.symm.trans hnew
  | _ => cases hold.symm.trans hnew

/-! ## The members of a package -/

namespace Callable

mutual

/-- What is offered of a callable, apart from variables, are the callable and the workers nested in
    it. -/
theorem exists_nested_of_mem_offers (c : Option SymbolId) (text : String) (kind : SymbolKind) :
    ∀ (f : Callable) {o : Offer}, o ∈ f.offers c text kind → o.kind ≠ .var →
      ∃ e ∈ f.nested kind, e.2.head.symbol = o.symbol
  | mk head workers, o, ho, hk => by
    rw [offers] at ho
    rw [nested]
    rcases List.mem_cons.1 ho with rfl | ho
    · exact ⟨_, List.mem_cons_self, rfl⟩
    rcases List.mem_append.1 ho with ho | ho
    · obtain ⟨v, _, ho⟩ := List.mem_flatMap.1 ho
      exact absurd (VarDecl.kind_of_mem_offers ho) hk
    · obtain ⟨e, he, hsymbol⟩ := exists_nested_of_mem_workerOffers head.symbol workers ho hk
      exact ⟨e, List.mem_cons_of_mem _ he, hsymbol⟩

theorem exists_nested_of_mem_workerOffers (c : Option SymbolId) :
    ∀ (workers : List Callable) {o : Offer}, o ∈ workerOffers c workers → o.kind ≠ .var →
      ∃ e ∈ nestedWorkers workers, e.2.head.symbol = o.symbol
  | [], _, ho, _ => absurd ho List.not_mem_nil
  | w :: rest, o, ho, hk => by
    rw [workerOffers] at ho
    rw [nestedWorkers]
    rcases List.mem_append.1 ho with ho | ho
    · obtain ⟨e, he, hsymbol⟩ := exists_nested_of_mem_offers c w.head.name.text .worker w ho hk
      exact ⟨e, List.mem_append_left _ he, hsymbol⟩
    · obtain ⟨e, he, hsymbol⟩ := exists_nested_of_mem_workerOffers c rest ho hk
      exact ⟨e, List.mem_append_right _ he, hsymbol⟩

end

end Callable

namespace Package

/-- The callables that a package offers are those that are written in it or made for it. -/
theorem exists_callable_of_mem_memberOffers {c : Option SymbolId} {p : Package} {o : Offer}
    (ho : o ∈ p.memberOffers c) (hk : o.kind.isCallable) :
    ∃ e ∈ p.everyCallable, e.2.head.symbol = o.symbol := by
  obtain ⟨hpackage, hvar, htype⟩ := SymbolKind.of_isCallable hk
  -- It is enough to find the callable at the top level that the offer is one of.
  suffices h : ∃ e ∈ p.callables, ∃ c text, o ∈ e.2.offers c text e.1 by
    obtain ⟨e₀, he₀, c, text, ho⟩ := h
    obtain ⟨e, he, hsymbol⟩ := e₀.2.exists_nested_of_mem_offers c text e₀.1 ho hvar
    exact ⟨e, List.mem_flatMap.2 ⟨e₀, he₀, he⟩, hsymbol⟩
  simp only [memberOffers, List.mem_append] at ho
  rcases ho with (((((((hstruct | hconnector) | hservice) | hfield) | haction) | hfunction) |
    hservice) | hvars) | hinit
  · obtain ⟨d, _, rfl⟩ := List.mem_map.1 hstruct
    exact absurd rfl htype
  · obtain ⟨d, hd, ho⟩ := List.mem_flatMap.1 hconnector
    rcases List.mem_cons.1 ho with rfl | ho
    · exact absurd rfl htype
    · obtain ⟨f, hf, ho⟩ := List.mem_flatMap.1 ho
      exact ⟨_, mem_callables.2 (.connectorInitializer hd hf), _, _, ho⟩
  · obtain ⟨d, _, rfl⟩ := List.mem_map.1 hservice
    exact absurd rfl htype
  · obtain ⟨d, _, ho⟩ := List.mem_flatMap.1 hfield
    obtain ⟨v, _, ho⟩ := List.mem_flatMap.1 ho
    exact absurd (VarDecl.kind_of_mem_offers ho) hvar
  · obtain ⟨d, hd, ho⟩ := List.mem_flatMap.1 haction
    obtain ⟨f, hf, ho⟩ := List.mem_flatMap.1 ho
    exact ⟨_, mem_callables.2 (.action hd hf), _, _, ho⟩
  · obtain ⟨f, hf, ho⟩ := List.mem_flatMap.1 hfunction
    exact ⟨_, mem_callables.2 (.function hf), _, _, ho⟩
  · obtain ⟨d, hd, ho⟩ := List.mem_flatMap.1 hservice
    rcases List.mem_append.1 ho with ho | ho
    · obtain ⟨f, hf, ho⟩ := List.mem_flatMap.1 ho
      exact ⟨_, mem_callables.2 (.serviceInitializer hd hf), _, _, ho⟩
    · obtain ⟨f, hf, ho⟩ := List.mem_flatMap.1 ho
      exact ⟨_, mem_callables.2 (.resource hd hf), _, _, ho⟩
  · obtain ⟨v, _, ho⟩ := List.mem_flatMap.1 hvars
    exact absurd (VarDecl.kind_of_mem_offers ho) hvar
  · obtain ⟨f, hf, ho⟩ := List.mem_flatMap.1 hinit
    exact ⟨_, mem_callables.2 (.initializer hf), _, _, ho⟩

end Package

/-- What a callable links to are the symbols of its parts. -/
theorem CallableHead.exists_part_of_mem_links {kind : SymbolKind} {h : CallableHead}
    (hreceives : (h.received kind).isSome ↔ kind = .method) {z : SymbolId}
    (hz : z ∈ (h.links (h.received kind)).symbols) : ∃ v ∈ h.parts kind, v.symbol = some z := by
  simp only [Links.symbols, links, List.mem_append, List.mem_filterMap, Option.mem_toList,
    Option.ite_none_right_eq_some, Option.bind_eq_some_iff] at hz
  simp only [parts, List.mem_append]
  rcases hz with (⟨v, hv, hz⟩ | ⟨v, hv, hz⟩) | ⟨hmethod, v, hv, hz⟩
  · exact ⟨v, .inl (.inl hv), hz⟩
  · exact ⟨v, .inr hv, hz⟩
  · rw [if_pos (hreceives.1 hmethod)]
    exact ⟨v, .inl (.inr (Option.mem_toList.2 hv)), hz⟩

namespace Package

variable {m : Mark} {s : Store} {site : Site}

/-- When the members of a package are entered, callables link to variables of their own, and to what
    their parts preset. -/
theorem linksOwn_enterMembers (config : Config) (p : Package) (h : site.Top m s) :
    s.LinksOwn p.Presets (p.enterMembers config site s).2 := by
  obtain ⟨hrun, _, hunbound⟩ := p.run_enterMembers config h
  have hcompleted := p.completed_enterMembers config h
  have hpresets := presets_of_mem_everyCallable hunbound
  generalize p.enterMembers config site s = r at *
  obtain ⟨p', s'⟩ := r
  refine ⟨hrun.retains, fun x sym links hold hnew hlinks z hz => ?_⟩
  have hk : sym.kind.isCallable := by
    by_contra hk
    cases (hrun.links_eq_none hold hnew hk).symm.trans hlinks
  -- The symbol is that of a callable, which has been completed.
  obtain ⟨o, ho, hsymbol⟩ := hrun.mem_of_made hold (hnew ▸ rfl)
  obtain ⟨_, _, hx, hsym, hkind, _⟩ := (hrun.follows h.sound).has o ho
  cases hsymbol.symm.trans hx
  cases hnew.symm.trans hsym
  obtain ⟨e, he, hsymbol'⟩ := exists_callable_of_mem_memberOffers ho (hkind ▸ hk)
  have hcomplete := hcompleted e he
  obtain ⟨_, _, _, hx', hsym', _, _, hlinks'⟩ := hcomplete.complete
  cases (hsymbol'.trans hsymbol).symm.trans hx'
  cases hnew.symm.trans hsym'
  cases hlinks'.symm.trans hlinks
  obtain ⟨v, hv, hz⟩ := CallableHead.exists_part_of_mem_links hcomplete.receives hz
  by_cases hname : v.name.text = ""
  · exact .inr (hpresets e he v (e.2.head.parts_subset_vars e.1 hv) z ⟨hname, hz⟩)
  · have hoffer := offer_mem_memberOffers_of_part (c := site.package) he hv hname
    obtain ⟨_, zsym, hzx, hzsym, hzkind, howner, _⟩ := (hrun.follows h.sound).has _ hoffer
    cases hz.symm.trans hzx
    exact .inl ⟨(hrun.fresh h.sound).2 _ hoffer z hz, zsym, hzsym, hzkind, howner.trans hx'⟩

end Package

/-! ## Imports, packages and loads -/

/-- What a loader makes links to variables of its own, and to what the library presets. -/
def Loader.LinksOwn (load : Loader) : Prop :=
  ∀ name (s : Session), s.Sound → name.Known s.store.names →
    s.store.LinksOwn s.registry.library.Presets (load name s).2.store

/-- What is done to a session without making a symbol. -/
theorem Session.Course.linksOwn_of_symbols {s s' : Session} {P : SymbolId → Prop} (h : s.Course s')
    (hmade : ∀ x, s'.store.table.symbol? x = s.store.table.symbol? x) :
    s.store.LinksOwn P s'.store :=
  .of_symbols h.retains hmade

namespace Import

variable {load : Loader} {site : Site} {s₀ s : Session}

theorem linksOwn_enter (hlinks : load.LinksOwn) (site : Site) (i : Import) (hs : s.Sound) :
    s.store.LinksOwn s.registry.library.Presets (i.enter load site s).2.store := by
  obtain ⟨hs₁, _, hknown⟩ := hs.internPackage i.target.1 i.target.2
  have hname : s.store.LinksOwn s.registry.library.Presets (i.targetName s).2.store :=
    (Session.course_internPackage i.target.1 i.target.2 s).linksOwn_of_symbols fun _ => rfl
  have hload : s.store.LinksOwn s.registry.library.Presets (i.loaded load s).2.store :=
    hname.trans (hlinks _ _ hs₁ hknown)
  cases hi : i.loaded load s with
  | mk outcome s₁ =>
    rw [hi] at hload
    cases outcome with
    | error e =>
      rw [enter_of_error hi]
      exact hload.trans ((Session.Course.report s₁ _ _).linksOwn_of_symbols fun _ => rfl)
    | ok x =>
      rw [enter_of_ok hi]
      have hintern : s₁.Course { s₁ with store := (Store.intern i.localName s₁.store).2 } :=
        .run (.intern (m := s₁.store.mark) _ _)
      exact hload.trans ((hintern.trans (.offer _ _ _ _ _)).linksOwn_of_symbols fun y =>
        symbol?_define _ _ _ _ _ y)

theorem linksOwn_enterAll (hload : load.Sound) (hlinks : load.LinksOwn) (imports : List Import)
    (h : site.Opens s₀ s) :
    s.store.LinksOwn s₀.registry.library.Presets (enterAll load site imports s).2.store := by
  induction imports generalizing s with
  | nil => exact .refl s.store
  | cons i rest ih =>
    obtain ⟨h₁, _⟩ := i.enter_opens hload h
    have hfirst := i.linksOwn_enter hlinks site h.sound
    rw [h.leads.library] at hfirst
    rw [enterAll_cons]
    exact hfirst.trans (ih h₁)

end Import

namespace Package

variable {load : Loader} {site : Site} {s₀ s : Session} {path : Option PackageName}

/-- A package gets its symbol, which has no links. -/
theorem linksOwn_opened {P : SymbolId → Prop} (p : Package) (hs : s.Sound)
    (hpath : ∀ name ∈ path, name.Known s.store.names) :
    s.store.LinksOwn P (p.opened path s).2.2.store := by
  have hcourse := p.course_opened hpath
  have hopens := (p.opened_spec hs hpath).1.opens
  obtain ⟨_, hmade, _⟩ := p.opened_made path s
  refine .of_links hcourse.retains fun x sym hold hnew => hcourse.links_eq_none hold hnew ?_
  rcases (hmade x).1 (hnew ▸ rfl) with hsome | rfl
  · rw [hold] at hsome
    cases hsome
  · obtain ⟨sym', hsym', hkind⟩ := Option.map_eq_some_iff.1 hopens.kindOf
    cases hnew.symm.trans hsym'
    rw [hkind]
    exact Bool.false_ne_true

theorem linksOwn_enterContents (hload : load.Sound) (hlinks : load.LinksOwn) (h : site.Opens s₀ s)
    (p : Package) : s.store.LinksOwn (fun z => p.Presets z ∨ s₀.registry.library.Presets z)
      (p.enterContents load site s).2.store := by
  obtain ⟨h₁, _⟩ := Import.enterAll_opens hload p.imports h
  have himports := (Import.linksOwn_enterAll hload hlinks p.imports h).mono
    (Q := fun z => p.Presets z ∨ s₀.registry.library.Presets z) fun _ => .inr
  cases hall : Import.enterAll load site p.imports s with
  | mk r s₁ =>
    obtain ⟨imports, failure⟩ := r
    rw [hall] at h₁ himports
    cases failure with
    | some e =>
      rw [enterContents_of_error hall]
      exact himports
    | none =>
      -- Imports that are entered preset nothing: they are no variables.
      have hmembers := linksOwn_enterMembers s₁.config { p with imports } h₁.top
      rw [enterContents_of_none hall rfl]
      exact himports.trans (hmembers.mono fun _ => .inl)

theorem linksOwn_enterWith (hload : load.Sound) (hlinks : load.LinksOwn) (p : Package)
    (hs : s.Sound) (hpath : ∀ name ∈ path, name.Known s.store.names) :
    s.store.LinksOwn (fun z => p.collect.Presets z ∨ s.registry.library.Presets z)
      (p.enterWith load path s).2.store := by
  obtain ⟨hopened, _⟩ := p.collect.opened_spec hs hpath
  have hopen : s.store.LinksOwn (fun z => p.collect.Presets z ∨ s.registry.library.Presets z)
      (p.collect.opened path s).2.2.store := p.collect.linksOwn_opened hs hpath
  cases ho : p.collect.opened path s with
  | mk key r =>
    obtain ⟨site, s₁⟩ := r
    rw [ho] at hopened hopen
    have hcontents := linksOwn_enterContents hload hlinks hopened.opens
      { p.collect with symbol := some site.package }
    rw [enterWith_eq ho rfl]
    exact hopen.trans hcontents

end Package

namespace Session

variable {s : Session}

theorem linksOwn_enterFetched {load : Loader} (hload : load.Sound) (hlinks : load.LinksOwn)
    {name : PackageName} {p : Package} (hp : s.fetch? name = some p) (hs : s.Sound)
    (hname : name.Known s.store.names) :
    s.store.LinksOwn s.registry.library.Presets (enterFetched load name p s).2.store := by
  have hs₁ : (setState name .inProgress s).2.Sound := hs.setState hname nofun
  have hentry := p.linksOwn_enterWith hload hlinks hs₁ (known_of_mem_some hname)
  rw [(enterFetched_left load name p s).1]
  -- What the package itself presets, the library does, which it comes from.
  exact hentry.mono fun z hz => hz.elim (fun hz => ⟨_, _, p, hp, hz⟩) id

/-- Loading, with loads nested at most `depth` deep in one another. -/
theorem loadWithin_linksOwn : ∀ depth : Nat, Loader.LinksOwn (loadWithin depth) :=
  loadWithin_induction (Q := fun _ s r => s.store.LinksOwn s.registry.library.Presets r.2.store)
    (fun _ s _ _ _ _ => .refl s.store)
    fun depth _ _ _ ih hs hname hp =>
      linksOwn_enterFetched (loadWithin_sound depth) ih hp.fetch? hs hname

end Session

end Binder
