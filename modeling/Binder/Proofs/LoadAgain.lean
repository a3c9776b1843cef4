import Binder.Proofs.Frame

/-!
# Packages that are loaded again

A package that has a state is not loaded: a load is answered by the state and leaves the session as
it is. Requests for other packages leave the state alone, so a package that is loaded stays loaded
until the caller enters one under the same path and version. That one takes its place, if it succeeds
as well as if it fails.

* `LoadState.answer`: what a load answers.
* `Session.Sound.respond_load`: a package that has a state is loaded.
* `Session.Sound.respond_own`: the state of a package that the caller enters.
* `Session.Reachable.load_again`: what is loaded is loaded again.
-/

namespace Binder

/-- What a load of the package called `text` answers, if it has a state. -/
def LoadState.answer (text : String) : LoadState → Except LoadError SymbolId
  | loaded x => .ok x
  | inProgress => .error (.cycle text)
  | failed => .error (.failed text)

theorem LoadState.answer_eq_ok_iff {text : String} {state : LoadState} {x : SymbolId} :
    state.answer text = .ok x ↔ state = loaded x := by
  cases state <;> simp [answer]

namespace Response

/-- The state of the package that was entered. -/
def state? : Response → Option LoadState
  | entered _ outcome => some (Package.stateAfter outcome)
  | loaded _ => none

/-- What the load came to, if a load was asked for. -/
def outcome? : Response → Option (Except LoadError SymbolId)
  | entered .. => none
  | loaded outcome => some outcome

theorem eq_loaded {r : Response} {outcome : Except LoadError SymbolId}
    (h : r.outcome? = some outcome) : r = loaded outcome := by
  cases r with
  | entered p o => cases h
  | loaded o =>
    cases h
    rfl

end Response

namespace Session

variable {s : Session} {key : PackageKey} {state : LoadState} {x : SymbolId} {r : Request}

/-! ## Packages that have a state -/

theorem settled?_eq (s : Session) (name : PackageName) :
    s.settled? name = (s.registry.state? name).map (·.answer (name.text s.store.names)) := by
  unfold settled?
  cases s.registry.state? name with
  | none => rfl
  | some state => cases state <;> rfl

/-- What has a state has a name. -/
theorem Sound.exists_name (hs : s.Sound) (h : s.stateOf key = some state) :
    ∃ name : PackageName, name.Known s.store.names ∧ name.key s.store.names = key := by
  obtain ⟨e, he, _⟩ := Option.map_eq_some_iff.1 h
  have hkey := List.find?_some he
  exact ⟨e.1, hs.known e (List.mem_of_find?_eq_some he), beq_iff_eq.1 hkey⟩

/-- A package that has a state is not entered to load it, and nothing changes. -/
theorem Sound.respond_load (hs : s.Sound) (h : s.stateOf key = some state) :
    respond (.load key.1 key.2) s =
      (.loaded (state.answer (PackageName.render key.1 key.2)), s) := by
  obtain ⟨name, hname, hkey⟩ := hs.exists_name h
  have hintern : onStore (Store.internPackage key.1 key.2) s = (name, s) := by
    rw [run_onStore, Store.internPackage_of_known hname hkey]
  have htext : name.text s.store.names = PackageName.render key.1 key.2 := by
    rw [PackageName.text_eq_render, hkey]
  have hsettled : s.settled? name = some (state.answer (PackageName.render key.1 key.2)) := by
    rw [settled?_eq, ← hs.stateOf_eq hname, hkey, h, htext]
    rfl
  have hload : load name s = (state.answer (PackageName.render key.1 key.2), s) :=
    loadWithin_of_settled? hsettled s.depthBound
  simp only [respond, run_bind, hintern, hload]
  rfl

/-- A package that is loaded has a state that says so. -/
theorem Sound.stateOf_of_load (hs : s.Sound) (key : PackageKey)
    (h : (respond (.load key.1 key.2) s).1 = .loaded (.ok x)) :
    (respond (.load key.1 key.2) s).2.stateOf key = some (.loaded x) := by
  obtain ⟨hs₁, _, hname⟩ := hs.internPackage key.1 key.2
  have hkey := (Store.internPackage_spec key.1 key.2 s.store).2
  have hloaded := (load_settles _ _ hs₁ hname).2 x (Response.loaded.inj h)
  rw [run_onStore, hkey] at hloaded
  exact hloaded

/-- What is loaded is there. -/
theorem Sound.isSome_of_loaded (hs : s.Sound) (h : s.stateOf key = some (.loaded x)) :
    (s.store.table.symbol? x).isSome := by
  obtain ⟨e, he, hstate⟩ := Option.map_eq_some_iff.1 h
  have hkind := hs.loaded e (List.mem_of_find?_eq_some he) x hstate
  obtain ⟨sym, hsym, _⟩ := Option.map_eq_some_iff.1 hkind
  rw [hsym]
  rfl

/-! ## Packages that take the place of others -/

/-- A request with a package of the caller enters it in a session that comes later. -/
theorem Sound.exists_enterWith (hs : s.Sound) (h : r.ownKey s.config = some key) :
    ∃ (load : Loader) (path : Option PackageName) (p : Package) (s₁ : Session),
      load.Sound ∧ load.Settles ∧ s₁.Sound ∧ s.Leads s₁ ∧
      (∀ name ∈ path, name.Known s₁.store.names) ∧
      p.collect.ownKey s₁.config (path.map (·.key s₁.store.names)) = key ∧
      respond r s = (.entered (p.enterWith load path s₁).1.1 (p.enterWith load path s₁).1.2,
        (p.enterWith load path s₁).2) := by
  cases r with
  | define p =>
    exact ⟨loadWithin s.depthBound, none, p, s, loadWithin_sound _, loadWithin_settles _, hs,
      .refl s, nofun, Option.some.inj h, rfl⟩
  | enterAs path version p =>
    obtain ⟨hs₁, hl₁, hname⟩ := hs.internPackage path version
    have hkey := (Store.internPackage_spec path version s.store).2
    exact ⟨loadWithin _, some _, p, _, loadWithin_sound _, loadWithin_settles _, hs₁, hl₁,
      known_of_mem_some hname, hkey.trans (Option.some.inj h), rfl⟩
  | load path version => cases h

/-- A package that the caller enters has the state of its outcome, which is a new symbol if it was
    entered with success. -/
theorem Sound.respond_own (hs : s.Sound) (h : r.ownKey s.config = some key) :
    ∃ state, (respond r s).1.state? = some state ∧ (respond r s).2.stateOf key = some state ∧
      ∀ x, state = .loaded x → s.store.table.symbol? x = none := by
  obtain ⟨load, path, p, s₁, hload, hsettles, hs₁, hl₁, hpath, hkey, heq⟩ := hs.exists_enterWith h
  obtain ⟨hopens, hok⟩ := p.enterWith_spec hload hs₁ hpath
  have hstate := (p.enterWith_settles hload hsettles hs₁ hpath).stateOf_own
  rw [hkey] at hstate
  rw [heq]
  refine ⟨_, rfl, hstate, fun x hx => ?_⟩
  cases houtcome : (p.enterWith load path s₁).1.2 with
  | error e =>
    rw [houtcome] at hx
    cases hx
  | ok y =>
    rw [houtcome] at hx
    cases hx
    rw [(hok x houtcome).1]
    cases hold : s.store.table.symbol? (p.collect.opened path s₁).2.1.package with
    | none => rfl
    | some sym => exact absurd (hopens.fresh.symm.trans (hl₁.keeps.symbol hold)) nofun

/-! ## Sequences of requests -/

/-- A state is kept as long as no package is entered under its path and version. -/
theorem Reachable.stateOf_after (h : s.Reachable) {requests : List Request}
    (hne : ∀ r ∈ requests, r.ownKey s.config ≠ some key) (hstate : s.stateOf key = some state) :
    (s.after requests).stateOf key = some state := by
  induction requests generalizing s with
  | nil => exact hstate
  | cons r rest ih =>
    have hconfig := (respond_spec r h.sound).2.config
    refine ih (h.step r) (fun r' hr' => ?_)
      (stateOf_respond h.sound r (hne r List.mem_cons_self).symm hstate)
    rw [hconfig]
    exact hne r' (List.mem_cons_of_mem _ hr')

/-- A package is loaded as long as no package takes its place, and from then on it is not, since
    symbols are not made twice. -/
theorem Reachable.exists_stateOf_after (h : s.Reachable) (requests : List Request)
    (hx : (s.store.table.symbol? x).isSome) (hstate : s.stateOf key = some state) :
    ∃ state', (s.after requests).stateOf key = some state' ∧
      (state' = .loaded x ↔
        state = .loaded x ∧ ∀ r ∈ requests, r.ownKey s.config ≠ some key) := by
  induction requests generalizing s state with
  | nil => exact ⟨state, hstate, by simp⟩
  | cons r rest ih =>
    obtain ⟨_, hl⟩ := respond_spec r h.sound
    obtain ⟨sym, hsym⟩ := Option.isSome_iff_exists.1 hx
    have hx' : ((respond r s).2.store.table.symbol? x).isSome := by
      rw [hl.keeps.symbol hsym]
      rfl
    simp only [List.forall_mem_cons]
    rw [← hl.config]
    by_cases hown : r.ownKey s.config = some key
    · obtain ⟨state₁, _, hstate₁, hfresh⟩ := h.sound.respond_own hown
      obtain ⟨state', hstate', hiff⟩ := ih (h.step r) hx' hstate₁
      have hne : state₁ ≠ .loaded x := fun heq => absurd ((hfresh x heq).symm.trans hsym) nofun
      refine ⟨state', hstate', ⟨fun heq => absurd (hiff.1 heq).1 hne, fun hall => ?_⟩⟩
      exact absurd (hl.config ▸ hown) hall.2.1
    · obtain ⟨state', hstate', hiff⟩ :=
        ih (h.step r) hx' (stateOf_respond h.sound r (Ne.symm hown) hstate)
      refine ⟨state', hstate', hiff.trans (and_congr_right fun _ => ?_)⟩
      exact (and_iff_right (hl.config.symm ▸ hown)).symm

theorem after_append (s : Session) (requests requests' : List Request) :
    s.after (requests ++ requests') = (s.after requests).after requests' :=
  List.foldl_append

/-- A package that the caller enters is the one that is loaded from then on, until another one is
    entered under its path and version. -/
theorem Reachable.stateOf_after_own (h : s.Reachable) {before rest : List Request}
    (hown : r.ownKey s.config = some key) (hne : ∀ r' ∈ rest, r'.ownKey s.config ≠ some key) :
    ∃ state, (respond r (s.after before)).1.state? = some state ∧
      (s.after (before ++ r :: rest)).stateOf key = some state := by
  have hbefore := h.after before
  have hconfig := (h.leads_after before).config
  have hconfig' := (respond_spec r hbefore.sound).2.config.trans hconfig
  rw [← hconfig] at hown
  obtain ⟨state, hresponse, hstate, _⟩ := hbefore.sound.respond_own hown
  refine ⟨state, hresponse, ?_⟩
  rw [after_append]
  refine (hbefore.step r).stateOf_after (fun r' hr' => ?_) hstate
  rw [hconfig']
  exact hne r' hr'

/-- What is loaded can be loaded again, whatever was requested in between, and loading it again
    changes nothing. The answer is the same exactly if the caller entered no package under the same
    path and version; else it is what the last of these packages came to. -/
theorem Reachable.load_again (h : s.Reachable) {path : List String} {version : Option String}
    {s₁ : Session} (hload : respond (.load path version) s = (.loaded (.ok x), s₁))
    (requests : List Request) :
    ∃ outcome, respond (.load path version) (s₁.after requests) =
        (.loaded outcome, s₁.after requests) ∧
      (outcome = .ok x ↔ ∀ r ∈ requests, r.ownKey s.config ≠ some (path, version)) ∧
      ∀ before r rest, requests = before ++ r :: rest →
        r.ownKey s.config = some (path, version) →
        (∀ r' ∈ rest, r'.ownKey s.config ≠ some (path, version)) →
        ∃ state, (respond r (s₁.after before)).1.state? = some state ∧
          outcome = state.answer (PackageName.render path version) := by
  have h₁ : (respond (.load path version) s).2.Reachable := h.step _
  have hconfig := (respond_spec (.load path version) h.sound).2.config
  have hloaded := h.sound.stateOf_of_load (path, version) (congrArg Prod.fst hload)
  simp only [hload] at h₁ hconfig hloaded
  obtain ⟨state, hstate, hiff⟩ :=
    h₁.exists_stateOf_after requests (h₁.sound.isSome_of_loaded hloaded) hloaded
  rw [hconfig] at hiff
  refine ⟨state.answer (PackageName.render path version),
    (h₁.after requests).sound.respond_load hstate, ?_, ?_⟩
  · exact LoadState.answer_eq_ok_iff.trans (hiff.trans (and_iff_right rfl))
  · rintro before r rest rfl hown hne
    rw [← hconfig] at hown hne
    obtain ⟨state', hresponse, hstate'⟩ := h₁.stateOf_after_own hown hne
    cases hstate.symm.trans hstate'
    exact ⟨state, hresponse, rfl⟩

/-- A package is loaded, then others are entered, the last one in its place. -/
theorem load_again_replaced :
    let q : Ident := ⟨"q", .origin⟩
    let clause : PackageClause := { span := .origin, path := [q] }
    let s := start {} {} (Library.insert {} "q" none {})
    let s₁ := (respond (.load ["q"] none) s).2
    let other : Request := .define {}
    let same : Request := .define { clause := some clause }
    s.Reachable ∧ respond (.load ["q"] none) s = (.loaded (.ok ⟨1⟩), s₁) ∧
      s₁.stateOf (["q"], none) = some (.loaded ⟨1⟩) ∧
      ∃ outcome, respond (.load ["q"] none) (s₁.after [other, same]) =
          (.loaded outcome, s₁.after [other, same]) ∧ outcome = .ok ⟨5⟩ := by
  intro q clause s s₁ other same
  have h : s.Reachable := .start {} {} _
  have hok : (respond (.load ["q"] none) s).1.outcome? = some (.ok ⟨1⟩) := by decide +kernel
  have hload : respond (.load ["q"] none) s = (.loaded (.ok ⟨1⟩), s₁) :=
    Prod.ext (Response.eq_loaded hok) rfl
  obtain ⟨outcome, hagain, _, hlast⟩ := h.load_again hload [other, same]
  have hown : same.ownKey s.config = some (["q"], none) := by decide +kernel
  obtain ⟨state, hstate, houtcome⟩ := hlast [other] same [] rfl hown nofun
  have hresponse : (respond same (s₁.after [other])).1.state? = some (.loaded ⟨5⟩) := by
    decide +kernel
  cases hstate.symm.trans hresponse
  exact ⟨h, hload, by decide +kernel, outcome, hagain, houtcome⟩

/-- What is loaded is not always loaded again: a package that the caller enters under the same name
    takes its place, even if it fails. -/
theorem not_load_again :
    let q : Ident := ⟨"q", .origin⟩
    let clause : PackageClause := { span := .origin, path := [q] }
    let missing : Import := { span := .origin, path := [⟨"r", .origin⟩] }
    let s := start {} {} (Library.insert {} "q" none {})
    let s₁ := (respond (.load ["q"] none) s).2
    let again (p : Package) := (respond (.load ["q"] none) (s₁.after [.define p])).1
    s.Reachable ∧ (respond (.load ["q"] none) s).1 = .loaded (.ok ⟨1⟩) ∧
      again { clause := some clause } = .loaded (.ok ⟨3⟩) ∧
      again { clause := some clause, imports := [missing] } = .loaded (.error (.failed "q")) := by
  intro q clause missing s s₁ again
  have hload : (respond (.load ["q"] none) s).1.outcome? = some (.ok ⟨1⟩) := by decide +kernel
  have hentered : (again { clause := some clause }).outcome? = some (.ok ⟨3⟩) := by decide +kernel
  have hfailed : (again { clause := some clause, imports := [missing] }).outcome? =
    some (.error (.failed "q")) := by decide +kernel
  exact ⟨.start {} {} _, Response.eq_loaded hload, Response.eq_loaded hentered,
    Response.eq_loaded hfailed⟩

end Session

end Binder
