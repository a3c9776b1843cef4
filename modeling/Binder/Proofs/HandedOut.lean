import Binder.Proofs.Contents
import Binder.Proofs.Entry.Conclude
import Binder.Proofs.Finished

/-!
# What is handed out

Whenever a package is handed out, its own entry has ended with success, however deep the loads are
nested that are under way. From then on nothing changes that was made in the course of that entry:
only the scopes of packages that are being entered change, and these were made before it began or
after it ended.

* `Loader.Traced`: the moments of a load.
* `Import.segment_moments`, `Package.segment_moments`: the moments of an import and of an entry.
* `Session.handed_out`: every moment of every history.
-/

namespace Binder

open Session (Ready)

/-! ## Sessions that are ready -/

namespace Session.Ready

variable {s : Session} {ds : List Done} (h : Ready ds s)
include h

/-- Names are made. -/
theorem internPackage (path : List String) (version : Option String) :
    Ready ds (onStore (Store.internPackage path version) s).2 := by
  obtain ⟨hs, hl, _⟩ := h.sound.internPackage path version
  have hrun := Store.run_internPackage s.store.mark path version s.store
  exact ⟨h.toSteady.withRegistry hs rfl, h.respects.of_keeps h.sound.store hl.keeps
    (hrun.follows h.sound.store).effect.bindings_nil, h.loaded⟩

/-- The state of a package is set, to that of a package that is done if it is loaded. -/
theorem setState {name : PackageName} (hname : name.Known s.store.names) {state : LoadState}
    (hkind : ∀ x, state = .loaded x → s.store.table.kindOf x = some .package)
    (hstate : ∀ x, state = .loaded x → ∃ d ∈ ds, d.symbol = x) :
    Ready ds (setState name state s).2 where
  toSteady := h.toSteady.withRegistry (h.sound.setState hname hkind) rfl
  respects := h.respects
  loaded n x hx := by
    have hset : (s.registry.setState name state).state? n = some (.loaded x) := hx
    rw [Registry.state?_setState] at hset
    split at hset
    · exact hstate x (Option.some.inj hset)
    · exact h.loaded n x hset

theorem publish (p : Package) : Ready ds (publish p s).2 :=
  ⟨h.toSteady.withRegistry (h.sound.publish p) rfl, h.respects, h.loaded⟩

/-- One more entry is done. -/
theorem done {d : Done} (hd : d.Intact s.store) : Ready (ds ++ [d]) s where
  toSteady := h.toSteady
  respects := h.respects.done hd
  loaded name x hx :=
    have ⟨d', hd', hsymbol⟩ := h.loaded name x hx
    ⟨d', List.mem_append_left _ hd', hsymbol⟩

end Session.Ready

/-! ## Loaders -/

/-- What is expected of a loader. -/
structure Loader.Proper (load : Loader) : Prop where
  sound : load.Sound
  courses : load.Courses
  seals : load.Seals
  settles : load.Settles

theorem Session.loadWithin_proper (depth : Nat) : Loader.Proper (loadWithin depth) :=
  ⟨loadWithin_sound depth, loadWithin_courses depth, loadWithin_seals depth,
    loadWithin_settles depth⟩

namespace Loader

/-- The moments of a load lead to its end. -/
def Traced (load : Loader) (trace : Tracer) : Prop :=
  ∀ ds name (s : Session), Ready ds s → name.Known s.store.names →
    Segment ds s (trace name s) (load name s).2

variable {load : Loader} {name : PackageName} {s : Session}

/-- What a load comes to is loaded. -/
theorem Proper.state?_of_ok (h : load.Proper) (hs : s.Sound) (hname : name.Known s.store.names)
    {x : SymbolId} (hx : (load name s).1 = .ok x) :
    (load name s).2.registry.state? name = some (.loaded x) := by
  obtain ⟨hs', hl, _⟩ := h.sound name s hs hname
  have hstate := (h.settles name s hs hname).2 x hx
  rw [← hname.key_eq hl.keeps.names, hs'.stateOf_eq (hname.mono hl.keeps.names)] at hstate
  exact hstate

theorem Proper.handed (h : load.Proper) (hs : s.Sound) (hname : name.Known s.store.names)
    {n : PackageName} {x : SymbolId}
    (hx : (load name s).1.toOption.map (name, ·) = some (n, x)) :
    (load name s).2.registry.state? n = some (.loaded x) := by
  cases hload : (load name s).1 with
  | error e =>
    rw [hload] at hx
    cases hx
  | ok y =>
    rw [hload] at hx
    cases hx
    exact h.state?_of_ok hs hname hload

end Loader

/-! ## Imports -/

namespace Import

variable {load : Loader} {trace : Tracer} {site : Site} {s₀ s : Session} {ds : List Done}

/-- What is loaded for an import has a state that says so. -/
theorem state?_loaded (hload : load.Proper) (i : Import) (hs : s.Sound) {x : SymbolId}
    (hx : (i.loaded load s).1 = .ok x) :
    (i.loaded load s).2.registry.state? (i.targetName s).1 = some (.loaded x) :=
  have ⟨hs₁, _, hknown⟩ := hs.internPackage i.target.1 i.target.2
  hload.state?_of_ok hs₁ hknown hx

/-- Once it is loaded what an import asks for, it is bound in the scope of the importing package, or
    the import is reported. -/
theorem respects_enter (hload : load.Proper) (i : Import) (h : site.Opens s₀ s)
    (hr : Ready ds (i.loaded load s).2) (hds : ∀ d ∈ ds, d.Spares site.scope) :
    (i.enter load site s).2.store.Respects ds ∧
      (i.enter load site s).2.registry = (i.loaded load s).2.registry := by
  cases hi : i.loaded load s with
  | mk outcome s₁ =>
    rw [hi] at hr
    cases outcome with
    | error e =>
      rw [enter_of_error hi]
      have hkeeps := (Store.Keeps.refl s₁.store).report
        (e.problem ((i.targetName s).1.text s₁.store.names)) i.span
      exact ⟨hr.respects.of_keeps hr.sound.store hkeeps fun _ => rfl, rfl⟩
    | ok x =>
      obtain ⟨_, _, _, heffect⟩ := enter_spec_of_ok hload.sound h hi
      obtain ⟨_, _, hx⟩ := i.loaded_spec hload.sound h.sound
      rw [hi] at hx
      obtain ⟨sym, hsym, _⟩ := Option.map_eq_some_iff.1 (hx x rfl)
      rw [enter_of_ok hi] at heffect ⊢
      have hintern : Store.Run s₀.store.mark s₁.store [] (Store.intern i.localName s₁.store).2 :=
        .intern _ _
      have hretains := hintern.retains.trans
        (.define i.span site.scope (Store.intern i.localName s₁.store).1 x _)
      have hkeeps : s₁.store.KeepsScopes site.scope (Store.intern i.localName s₁.store).2 :=
        fun _ _ hsc _ => hsc
      refine ⟨⟨fun d hd => (hr.respects.intact d hd).of_keepsScopes hr.complete hretains
        (hkeeps.define (.inl rfl) i.span hsym) (hds d hd), ?_⟩, rfl⟩
      -- The package that is bound is loaded.
      refine hr.respects.bindsOnly.of_effect hr.sound.store hretains heffect fun o ho y hy _ => ?_
      cases List.mem_singleton.1 ho
      cases hy
      have hstate := i.state?_loaded hload h.sound (congrArg Prod.fst hi)
      rw [hi] at hstate
      exact hr.loaded _ x hstate

/-- The moments of an import. -/
theorem segment_moments (hload : load.Proper) (htrace : load.Traced trace) (i : Import)
    (h : site.Opens s₀ s) (hr : Ready ds s) (hds : ∀ d ∈ ds, d.Spares site.scope) :
    Segment ds s (i.moments load trace site s) (i.enter load site s).2 := by
  obtain ⟨hs₁, hl₁, hknown⟩ := h.sound.internPackage i.target.1 i.target.2
  have hr₁ : Ready ds (i.targetName s).2 := hr.internPackage _ _
  have htraced := (htrace ds _ _ hr₁ hknown).cons hr₁.still rfl hl₁.keeps.grows
  obtain ⟨hopens, g⟩ := i.enter_opens hload.sound h
  -- The importing package is older than what is done while the import is loaded.
  obtain ⟨hrespects, hregistry⟩ := i.respects_enter hload h htraced.ready
    (htraced.spares h.isSome_scope? hds)
  have hsteady := hr.toSteady.step hopens.sound (i.course_enter hload.courses site h.sound)
    (i.seals_enter hload.seals site h.sound)
  refine htraced.still ⟨hsteady, hrespects, hregistry ▸ htraced.ready.loaded⟩ g fun name x hx => ?_
  rw [hregistry]
  exact hload.handed hs₁ hknown hx

/-- The moments of the imports of a package. -/
theorem segment_allMoments (hload : load.Proper) (htrace : load.Traced trace)
    (imports : List Import) (h : site.Opens s₀ s) (hr : Ready ds s)
    (hds : ∀ d ∈ ds, d.Spares site.scope) :
    Segment ds s (allMoments load trace site imports s) (enterAll load site imports s).2 := by
  induction imports generalizing ds s with
  | nil => exact .nil hr
  | cons i rest ih =>
    have hi := i.segment_moments hload htrace h hr hds
    obtain ⟨h₁, _⟩ := i.enter_opens hload.sound h
    rw [enterAll_cons, allMoments]
    exact hi.append (ih h₁ hi.ready (hi.spares h.isSome_scope? hds))

end Import

/-! ## Packages -/

namespace Package

variable {load : Loader} {trace : Tracer} {site : Site} {s₀ s : Session} {ds : List Done}
  {path : Option PackageName}

/-- A package that has its symbol and its scope binds nothing yet. -/
theorem bindings_opened (p : Package) (hs : s.Sound)
    (hpath : ∀ name ∈ path, name.Known s.store.names) (c : SymbolId) :
    (p.opened path s).2.2.store.bindings c = s.store.bindings c := by
  obtain ⟨⟨hopens, _, hbindings, _⟩, _⟩ := p.opened_spec hs hpath
  by_cases hc : c = (p.opened path s).2.1.package
  · rw [hc, hbindings, Store.bindings_of_symbol?_eq_none hopens.fresh]
  cases hold : s.store.table.symbol? c with
  | some sym => exact hopens.leads.keeps.bindings_eq hs.store hold
  | none =>
    have hnew : (p.opened path s).2.2.store.table.symbol? c = none := by
      rw [← Option.not_isSome_iff_eq_none, ((p.opened_made path s).2.1 c), hold]
      exact fun h => h.elim nofun hc
    rw [Store.bindings_of_symbol?_eq_none hold, Store.bindings_of_symbol?_eq_none hnew]

theorem ready_opened (p : Package) (hr : Ready ds s)
    (hpath : ∀ name ∈ path, name.Known s.store.names) : Ready ds (p.opened path s).2.2 := by
  obtain ⟨⟨hopens, _⟩, _⟩ := p.opened_spec hr.sound hpath
  have hsteady := hr.toSteady.step hopens.sound (p.course_opened hpath)
    (p.seals_opened hr.sound hpath)
  refine ⟨hsteady, hr.respects.of_keeps hr.sound.store hopens.leads.keeps
    (p.bindings_opened hr.sound hpath), fun name x hx => ?_⟩
  have hset : (s.registry.setState (p.opened path s).1 .inProgress).state? name =
    some (.loaded x) := hx
  rw [Registry.state?_setState] at hset
  split at hset
  · cases hset
  · exact hr.loaded name x hset

/-- While the members of a package are entered, what is done is respected. -/
theorem respects_members (h : site.Opens s₀ s) (hr : Ready ds s)
    (hds : ∀ d ∈ ds, d.Spares site.scope) (config : Config) (p : Package) :
    ∀ m os u, os <+: (p.enterMembers config site s.store).1.memberOffers (some site.package) →
      Store.Reaches m s.store os u → u.Respects ds := by
  intro m os u hos hu
  obtain ⟨hrun, _⟩ := run_enterMembers config p h.top
  have hoffers := offersTo_of_run hrun h.sound.store
  exact hr.respects.of_reaches h.sound.store hr.complete h.scopeOf
    (fun o ho => hoffers o (hos.subset ho)) hds hu

/-- The moments at which the members of a package begin and end, if its imports are had. -/
theorem segment_contents (hload : load.Proper) {p : Package} (h : site.Opens s₀ s)
    (hsteady : s.Steady) (hr : Ready ds (Import.enterAll load site p.imports s).2)
    (hds : ∀ d ∈ ds, d.Spares site.scope) :
    let r := Import.enterAll load site p.imports s
    let r' := p.enterContents load site s
    let offers := r'.1.1.memberOffers (some site.package)
    Segment ds r.2
      [{ session := r.2, entering := if r.1.2.isNone then some offers else none },
        { session := r'.2 }] r'.2 := by
  obtain ⟨h₂, _⟩ := Import.enterAll_opens hload.sound p.imports h
  obtain ⟨h₃, _⟩ := enterContents_spec hload.sound h p
  have hsteady₃ := hsteady.step h₃.sound (course_enterContents hload.sound hload.courses h p)
    (seals_enterContents hload.sound hload.seals h p)
  simp only
  cases hall : Import.enterAll load site p.imports s with
  | mk r s₂ =>
    obtain ⟨imports, failure⟩ := r
    rw [hall] at h₂ hr
    cases failure with
    | some e =>
      -- No members are entered if an import failed.
      rw [enterContents_of_error hall]
      exact ((Segment.nil hr).cons hr.still rfl (.refl _)).cons hr.still rfl (.refl _)
    | none =>
      cases hp : { p with imports }.enterMembers s₂.config site s₂.store with
      | mk p' st =>
        rw [enterContents_of_none hall hp] at hsteady₃ ⊢
        have hmembers := respects_members h₂ hr hds s₂.config { p with imports }
        have hrun := (run_enterMembers s₂.config { p with imports } h₂.top).1
        rw [hp] at hmembers hrun
        have hr₃ : Ready ds { s₂ with store := st } :=
          ⟨hsteady₃, hmembers _ _ _ List.prefix_rfl (.run hrun), hr.loaded⟩
        have hfair : Moment.Fair ds
            { session := s₂, entering := some (p'.memberOffers (some site.package)) } := by
          refine ⟨hr, ?_, nofun, nofun⟩
          rintro u (rfl | ⟨m, os, os', he, hprefix, hu⟩)
          · exact hr.respects
          · cases he
            exact hmembers m os' u hprefix hu
        exact ((Segment.nil hr₃).cons hr₃.still rfl (hrun.grows h₂.sound.store)).cons hfair rfl
          (.refl _)

/-- The moment at which an entry ends. -/
theorem fair_last (h : site.Opens s₀ s) (hr : Ready ds s) {key : PackageName}
    (hkey : key.Known s.store.names) {outcome : Except EnterError SymbolId}
    (hok : ∀ x, outcome = .ok x → x = site.package) :
    let m : Moment := { session := (Session.setState key (stateAfter outcome) s).2
                        completed := outcome.toOption.map (s₀, ·) }
    m.Fair (ds ++ m.done) := by
  cases outcome with
  | error e =>
    refine (?_ : Ready (ds ++ []) _).fair rfl nofun nofun
    rw [List.append_nil]
    exact hr.setState hkey nofun nofun
  | ok x =>
    obtain rfl := hok x rfl
    let d : Done := ⟨s₀, (Session.setState key (.loaded site.package) s).2, site.package⟩
    have hr' : Ready (ds ++ [d]) d.ended := (hr.done d.intact_ended).setState hkey
      (fun y hy => LoadState.loaded.inj hy ▸ h.kindOf)
      fun y hy => ⟨d, List.mem_append_right _ (List.mem_singleton_self d), LoadState.loaded.inj hy⟩
    refine hr'.fair rfl nofun fun d' hd' => ?_
    cases List.mem_singleton.1 hd'
    exact ⟨h.kindOf, h.fresh, ⟨_, h.scopeOf, h.scope?_eq_none⟩,
      ⟨key, (s.registry.state?_setState key key _).trans (if_pos rfl)⟩, hr.complete⟩

/-- The moments of the entry of a package. -/
theorem segment_moments (hload : load.Proper) (htrace : load.Traced trace) (p : Package)
    (hr : Ready ds s) (hpath : ∀ name ∈ path, name.Known s.store.names) :
    Segment ds s (p.moments load trace path s) (p.enterWith load path s).2 := by
  obtain ⟨⟨hopens, _⟩, hknown⟩ := p.collect.opened_spec hr.sound hpath
  have hr₁ := p.collect.ready_opened hr hpath
  cases ho : p.collect.opened path s with
  | mk key r =>
    obtain ⟨site, s₁⟩ := r
    rw [ho] at hopens hknown hr₁
    let q : Package := { p.collect with symbol := some site.package }
    -- The scope of the package is newer than what was done before, and older than the rest.
    have hds : ∀ d ∈ ds, d.Spares site.scope := fun d hd =>
      (hr.respects.intact d hd).spares hopens.scope?_eq_none
    have himports := Import.segment_allMoments hload htrace q.imports hopens hr₁ hds
    have hcontents := segment_contents hload (p := q) hopens hr₁.toSteady himports.ready
      (himports.spares hopens.isSome_scope? hds)
    have hsofar := (himports.append hcontents).cons hr₁.still rfl hopens.leads.keeps.grows
    obtain ⟨h₃, g₃, hok⟩ := enterContents_spec hload.sound hopens q
    cases hc : q.enterContents load site s₁ with
    | mk r s₃ =>
      obtain ⟨p₃, outcome⟩ := r
      simp only [hc] at hsofar h₃ g₃ hok
      let m : Moment := { session := (Session.setState key (stateAfter outcome) s₃).2
                          completed := outcome.toOption.map (s, ·) }
      have hlast : m.Fair _ :=
        fair_last h₃ hsofar.ready (hknown.mono g₃.names) fun x hx => (hok x hx).1
      have hbegun : ∀ d ∈ m.done, s.store.Grows d.begun.store := fun d hd => by
        obtain ⟨x, _, hx⟩ := Option.map_eq_some_iff.1 (Moment.mem_done_iff.1 hd).1
        cases hx
        exact .refl _
      have hall := hsofar.concat hlast hsofar.grows hbegun
      rw [moments, ho, enterWith_eq ho hc]
      simp only [q] at hc hall
      simp only [hc]
      rw [List.cons_append, List.append_assoc] at hall
      exact hall

end Package

/-! ## Loads -/

namespace Session

variable {s : Session} {ds : List Done} {name : PackageName}

/-- A package that was fetched is kept when its entry is done. -/
theorem ready_enterFetched {load : Loader} (hload : load.Proper) {p : Package} (hs : s.Sound)
    (hname : name.Known s.store.names)
    (hr : Ready ds (p.enterWith load (some name) (setState name .inProgress s).2).2) :
    Ready ds (enterFetched load name p s).2 := by
  have hs₁ : (setState name .inProgress s).2.Sound := hs.setState hname nofun
  obtain ⟨hopens, hok⟩ := p.enterWith_spec hload.sound hs₁ (known_of_mem_some hname)
  have hset := (p.enterWith_settles hload.sound hload.settles hs₁
    (known_of_mem_some hname)).stateOf_own
  cases hp : p.enterWith load (some name) (setState name .inProgress s).2 with
  | mk r s₂ =>
    obtain ⟨p', outcome⟩ := r
    rw [hp] at hr hopens hok hset
    have hknown : name.Known s₂.store.names := hname.mono hopens.leads.keeps.names
    cases outcome with
    | error e =>
      rw [enterFetched_of_error hp]
      exact hr.setState hknown nofun nofun
    | ok x =>
      have hstate : s₂.registry.state? name = some (.loaded x) := by
        rw [← hr.sound.stateOf_eq hknown, hname.key_eq hopens.leads.keeps.names]
        exact hset
      rw [enterFetched_of_ok hp]
      refine (hr.setState hknown (fun y hy => ?_) fun y hy => ?_).publish p'
      · rw [← LoadState.loaded.inj hy, (hok x rfl).1]
        exact hopens.kindOf
      · rw [← LoadState.loaded.inj hy]
        exact hr.loaded name x hstate

/-- The last moment of a load. -/
theorem segment_load (depth : Nat) (hs : s.Sound) (hname : name.Known s.store.names)
    {s₁ : Session} {l : List Moment} (h : Segment ds s l s₁)
    (hr : Ready (ds ++ doneAt l) (loadWithin depth name s).2) :
    Segment ds s (l ++ [loadMoment (loadWithin depth) name s]) (loadWithin depth name s).2 :=
  h.still hr (loadWithin_sound depth name s hs hname).2.1.keeps.grows fun _ _ hx =>
    (loadWithin_proper depth).handed hs hname hx

/-- Loading, with loads nested at most `depth` deep in one another. -/
theorem loadWithin_traced :
    ∀ depth : Nat, Loader.Traced (loadWithin depth) (momentsWithin depth) := by
  intro depth ds name s hr hname
  -- Unless a package is fetched, the session stays as it is, and there is one moment.
  have hsame (h : (loadWithin depth name s).2 = s) :
      Segment ds s ([] ++ [loadMoment (loadWithin depth) name s]) (loadWithin depth name s).2 :=
    segment_load depth hr.sound hname (.nil hr) (h.symm ▸ (Segment.nil hr).ready)
  cases hsettled : s.settled? name with
  | some outcome =>
    have h := hsame (by rw [loadWithin_of_settled? hsettled])
    cases depth with
    | zero => exact h
    | succ depth =>
      simp only [momentsWithin, hsettled]
      exact h
  | none =>
    cases hp : s.fetch? name with
    | none =>
      have h := hsame (by rw [loadWithin_of_fetch?_eq_none hsettled hp])
      cases depth with
      | zero => exact h
      | succ depth =>
        simp only [momentsWithin, hsettled, hp]
        exact h
    | some p =>
      have hf : s.Fetches name p := ⟨hsettled, hp⟩
      cases depth with
      | zero => exact hsame (by rw [hf.loadWithin_zero])
      | succ depth =>
        have hr₁ : Ready ds (setState name .inProgress s).2 := hr.setState hname nofun nofun
        have hentry := (p.segment_moments (loadWithin_proper depth) (loadWithin_traced depth) hr₁
          (known_of_mem_some hname)).cons (s := s) hr₁.still rfl (.refl _)
        simp only [momentsWithin, hsettled, hp]
        refine segment_load (depth + 1) hr.sound hname hentry ?_
        rw [hf.loadWithin_succ]
        exact ready_enterFetched (loadWithin_proper depth) hr.sound hname hentry.ready

/-! ## Requests -/

theorem segment_request (r : Request) (hr : Ready ds s) :
    Segment ds s (r.moments s) (respond r s).2 := by
  cases r with
  | define p =>
    exact p.segment_moments (loadWithin_proper _) (loadWithin_traced _) hr nofun
  | enterAs path version p =>
    obtain ⟨_, hl₁, hname⟩ := hr.sound.internPackage path version
    have hr₁ := hr.internPackage path version
    exact (p.segment_moments (loadWithin_proper _) (loadWithin_traced _) hr₁
      (known_of_mem_some hname)).cons hr₁.still rfl hl₁.keeps.grows
  | load path version =>
    obtain ⟨_, hl₁, hname⟩ := hr.sound.internPackage path version
    have hr₁ := hr.internPackage path version
    exact (loadWithin_traced _ ds _ _ hr₁ hname).cons hr₁.still rfl hl₁.keeps.grows

/-- The moments of requests. -/
theorem segment_moments (requests : List Request) (hr : Ready ds s) :
    Segment ds s (s.moments requests) (s.after requests) := by
  induction requests generalizing ds s with
  | nil => exact .nil hr
  | cons r rest ih =>
    have h := segment_request r hr
    exact h.append (ih h.ready)

theorem ready_start (names : Names) (config : Config) (library : Library) :
    Ready [] (start names config library) where
  sound := sound_start names config library
  stratified := stratified_start names config library
  complete := by
    rintro id ty hid x rfl
    obtain ⟨sym, hsym, hkind, _⟩ := (sound_start names config library).store.exists_struct
      (stratified_start names config library) hid
    -- The only symbol in the beginning is the root, which is a package.
    rw [Array.mem_singleton.1 (Array.mem_of_getElem? hsym)] at hkind
    cases hkind
  respects := by
    refine ⟨nofun, fun c b x hb => ?_⟩
    obtain ⟨i, sc, hi, e, he, _⟩ := Store.exists_entry_of_mem_bindings hb
    rw [Array.mem_singleton.1 (Array.mem_of_getElem? hi)] at he
    cases he
  loaded := nofun

/-- No package is ever seen before it is done to enter it. Between requests, no package is in
    progress. At every moment, a package that is handed out is loaded then, and its entry is done; and
    so is, there and until the next moment, that of every package that is bound in a scope. -/
theorem handed_out (names : Names) (config : Config) (library : Library)
    (requests : List Request) :
    let s := start names config library
    (∀ name, (s.after requests).registry.state? name ≠ some .inProgress) ∧
      ∀ k m, (s.moments requests)[k]? = some m →
        (∀ name x, m.handed = some (name, x) →
          m.session.registry.state? name = some (.loaded x) ∧ DoneBy (s.moments requests) k x) ∧
        ∀ u, m.Reaches u → u.BindsOnly (DoneBy (s.moments requests) k) := by
  intro s
  have hhonest := (segment_moments requests (ready_start names config library)).honest
  refine ⟨((Reachable.start names config library).after requests).state?_ne_inProgress,
    fun k m hm => ?_⟩
  have hfair := hhonest.fair hm
  refine ⟨fun name x hx => ?_, fun u hu c b x hb hx hk => ?_⟩
  · have hstate := hfair.handed name x hx
    obtain ⟨d, hd, rfl⟩ := hfair.ready.loaded name x hstate
    exact ⟨hstate, hhonest.doneBy hd⟩
  · obtain ⟨d, hd, rfl⟩ := (hfair.respects u hu).bindsOnly c b x hb hx hk
    exact hhonest.doneBy hd

/-- A package is bound in the scope of another one that is in progress, as is the one that imports
    that. -/
theorem handed_out_nested :
    let importing (name : String) : Package :=
      { imports := [{ span := .origin, path := [⟨name, .origin⟩] }] }
    let a : Package := { structs := [{ span := .origin, name := ⟨"S", .origin⟩ }] }
    let library := (Library.insert {} "a" none a).insert "b" none (importing "a")
    let moments := (start {} {} library).moments [.define (importing "b")]
    ∃ m name, moments[11]? = some m ∧ m.handed = some (name, ⟨3⟩) ∧
      m.session.registry.states.map (·.2) = [.inProgress, .inProgress, .loaded ⟨3⟩] ∧
      m.session.store.bindings ⟨2⟩ = [("a", some ⟨3⟩)] ∧ DoneBy moments 11 ⟨3⟩ := by
  intro importing a library moments
  have hmoment : moments[11]?.map (fun m => (m.handed.map (·.2),
      m.session.registry.states.map (·.2), m.session.store.bindings ⟨2⟩)) =
        some (some ⟨3⟩, [.inProgress, .inProgress, .loaded ⟨3⟩], [("a", some ⟨3⟩)]) := by
    decide +kernel
  obtain ⟨m, hm, heq⟩ := Option.map_eq_some_iff.1 hmoment
  obtain ⟨hx, hstates, hbindings⟩ : _ ∧ _ ∧ _ := by simpa only [Prod.mk.injEq] using heq
  obtain ⟨⟨name, x⟩, hhanded, rfl⟩ := Option.map_eq_some_iff.1 hx
  have hdone := ((handed_out {} {} library [.define (importing "b")]).2 11 m hm).1 name ⟨3⟩ hhanded
  exact ⟨m, name, hm, hhanded, hstates, hbindings, hdone.2⟩

end Session

end Binder
