import Mathlib.Logic.Function.Basic
import Binder.History
import Binder.Workspace
import Binder.Proofs.Entry.Twin

/-!
# Names do not matter

Sessions may share a table of names, so what a session finds in its table depends on what others did
before, and the names it gives depend on that. Nothing else does: two sessions that are twins and
are asked the same give the same responses and are twins again, whatever others intern in between.

* `Session.Twin`: sessions that are the same up to the places of their texts.
* `Loader.Twin`, `Session.twins_loadWithin`: loading.
* `Session.twins_respond`: a request to two twins.
* `Session.Twin.scopeNames`, `Session.twins_member`: questions about members.
* `Session.answer_twin`: new sessions with any two tables of names, asked the same.
* `Workspace.Mirrors.run`: a session that shares its names is a twin of one that is alone.
* `Workspace.Alike.takeSteps`, `Workspace.responses_unshared`: sharing names changes no response.
-/

namespace Binder

structure Registry.Twin (t t' : Names) (r r' : Registry) : Prop where
  library : r'.library = r.library
  states : List.Forall₂ (fun e e' => PackageName.Twin t t' e.1 e'.1 ∧ e'.2 = e.2) r.states r'.states
  loaded : r'.loaded = r.loaded

structure Session.Twin (s s' : Session) : Prop where
  store : s.store.Twin s'.store
  config : s'.config = s.config
  registry : Registry.Twin s.store.names s'.store.names s.registry s'.registry

instance : Twinned Session := ⟨fun s => s.store.names, Session.Twin⟩

section

variable {s s' u u' : Session} {n n' : PackageName}

theorem Later.packageName (h : Later s s' u u')
    (hn : PackageName.Twin s.store.names s'.store.names n n') :
    PackageName.Twin u.store.names u'.store.names n n' :=
  hn.mono h.names h.names'

theorem Registry.Twin.mono {t t' v v' : Names} {r r' : Registry} (h : Registry.Twin t t' r r')
    (g : t.texts <+: v.texts) (g' : t'.texts <+: v'.texts) : Registry.Twin v v' r r' :=
  { h with states := h.states.imp fun _ _ he => ⟨he.1.mono g g', he.2⟩ }

namespace Session.Twin

variable (h : s.Twin s')
include h

/-- An action on the stores. -/
theorem onStore {α α' : Type} {a : Entry α} {a' : Entry α'} {R : Names → Names → α → α' → Prop}
    (ha : Twins a a' s.store s'.store R) : Twins (Session.onStore a) (Session.onStore a') s s' R :=
  ⟨⟨⟨ha.later.twin, h.config, h.registry.mono ha.later.names ha.later.names'⟩, ha.later.names,
    ha.later.names'⟩, ha.result⟩

theorem state? (hn : PackageName.Twin s.store.names s'.store.names n n') :
    s'.registry.state? n' = s.registry.state? n :=
  eq_of_rel (lookup_of_forall₂ h.registry.states fun _ _ hm => hm.eq_iff hn)

theorem setState (hn : PackageName.Twin s.store.names s'.store.names n n') (state : LoadState) :
    Twins (Session.setState n state) (Session.setState n' state) s s' Same :=
  ⟨⟨⟨h.store, h.config,
    { h.registry with
      states := forall₂_put (S := fun e e' => e' = e) h.registry.states
        (fun _ _ hm => hm.eq_iff hn) hn rfl }⟩, List.prefix_rfl, List.prefix_rfl⟩, rfl⟩

theorem publish (p : Package) : Twins (Session.publish p) (Session.publish p) s s' Same :=
  ⟨⟨⟨h.store, h.config, { h.registry with loaded := congrArg (· ++ [p]) h.registry.loaded }⟩,
    List.prefix_rfl, List.prefix_rfl⟩, rfl⟩

theorem settled? (hn : PackageName.Twin s.store.names s'.store.names n n') :
    s'.settled? n' = s.settled? n := by
  rw [Session.settled?, Session.settled?, h.state? hn, hn.text_eq]

theorem fetch? (hn : PackageName.Twin s.store.names s'.store.names n n') :
    s'.fetch? n' = s.fetch? n := by
  have hpath : n'.pathTexts s'.store.names = n.pathTexts s.store.names := congrArg Prod.fst hn.key
  have hversion : n'.versionText s'.store.names = n.versionText s.store.names :=
    congrArg Prod.snd hn.key
  rw [Session.fetch?, Session.fetch?, h.registry.library, hpath, hversion]

theorem depthBound : s'.depthBound = s.depthBound := by
  rw [Session.depthBound, Session.depthBound, h.registry.library]

end Session.Twin

end

/-! ## Entering packages -/

/-- A loader that does the same for twins. -/
def Loader.Twin (load : Loader) : Prop :=
  ∀ (s s' : Session) (n n' : PackageName), s.Twin s' →
    PackageName.Twin s.store.names s'.store.names n n' → Twins (load n) (load n') s s' Same

section

variable {load : Loader} (hload : load.Twin) {s s' : Session} (h : s.Twin s') (site : Site)

include hload h

theorem Import.twins_enter (i : Import) :
    Twins (i.enter load site) (i.enter load site) s s' Same := by
  refine (h.onStore (h.store.internPackage _ _)).bind fun n n' u u' hu hn => ?_
  refine (hload u u' n n' hu.twin hn).next fun outcome v v' hv => ?_
  cases outcome with
  | error e =>
    refine .get ?_
    rw [(hv.packageName hn).text_eq]
    exact (hv.twin.onStore (hv.twin.store.report _ _)).next fun _ _ _ hw => .pure hw.twin rfl
  | ok symbol =>
    refine (hv.twin.onStore (hv.twin.store.intern _)).bind fun m m' w w' hw hm => ?_
    refine (hw.twin.onStore (hw.twin.store.define _ site.scope hm symbol)).next fun _ z z' hz => ?_
    exact .pure hz.twin rfl

theorem Import.twins_enterAll (imports : List Import) :
    Twins (enterAll load site imports) (enterAll load site imports) s s' Same := by
  induction imports generalizing s s' with
  | nil => exact .pure h rfl
  | cons i rest ih =>
    refine (i.twins_enter hload h site).next ?_
    rintro ⟨i, failure⟩ u u' hu
    refine (ih hu.twin).next ?_
    rintro ⟨rest, failure'⟩ v v' hv
    exact .pure hv.twin rfl

theorem Package.twins_enterContents (p : Package) :
    Twins (p.enterContents load site) (p.enterContents load site) s s' Same := by
  refine (Import.twins_enterAll hload h site p.imports).next ?_
  rintro ⟨imports, failure⟩ u u' hu
  cases failure with
  | some e => exact .pure hu.twin rfl
  | none =>
    refine .get ?_
    rw [hu.twin.config]
    refine (hu.twin.onStore (Package.twins_enterMembers hu.twin.store site _ _)).next ?_
    exact fun _ _ _ hv => .pure hv.twin rfl

end

namespace Package

section

variable {s s' : Store} (h : s.Twin s')
include h

theorem twins_naming (config : Config) {path path' : Option PackageName}
    (hpath : Option.Rel (PackageName.Twin s.names s'.names) path path') (p : Package) :
    Twins (p.naming config path) (p.naming config path') s s' PackageName.Twin := by
  unfold naming
  cases p.clause with
  | some c => exact h.internPackage _ _
  | none =>
    cases hpath with
    | some hname => exact Twins.pure (R := PackageName.Twin) h hname
    | none => exact h.internPackage _ _

theorem twins_declare {n n' : PackageName} (hn : PackageName.Twin s.names s'.names n n')
    (p : Package) : Twins (p.declare n) (p.declare n') s s' Same := by
  refine .get ?_
  rw [hn.text_eq]
  refine (h.intern _).bind fun m m' u u' hu hm => ?_
  refine (hu.twin.addPackage (hn.mono hu.names hu.names')).next fun pkg v v' hv => ?_
  refine (hv.twin.addSymbol ⟨hv.name hm, rfl⟩).next fun x w w' hw => ?_
  refine (hw.twin.addScope x none).next fun i z z' hz => ?_
  exact .pure hz.twin rfl

end

/-- Entering a package that is imported by the same path, if by any. -/
theorem twins_enterWith {load : Loader} (hload : load.Twin) {s s' : Session} (h : s.Twin s')
    {path path' : Option PackageName}
    (hpath : Option.Rel (PackageName.Twin s.store.names s'.store.names) path path')
    (p : Package) : Twins (p.enterWith load path) (p.enterWith load path') s s' Same := by
  refine .get ?_
  rw [h.config]
  refine (h.onStore (twins_naming h.store s.config hpath p.collect)).bind fun n n' u u' hu hn => ?_
  refine (hu.twin.onStore (twins_declare hu.twin.store hn p.collect)).next fun site v v' hv => ?_
  have hkey : PackageName.Twin v.store.names v'.store.names (path.getD n) (path'.getD n') := by
    cases hpath with
    | some hname => exact (hu.trans hv).packageName hname
    | none => exact hv.packageName hn
  refine (hv.twin.setState hkey .inProgress).next fun _ w w' hw => ?_
  refine (twins_enterContents hload hw.twin site
    { p.collect with symbol := some site.package }).next ?_
  rintro ⟨q, outcome⟩ y y' hy
  refine (hy.twin.setState ((hw.trans hy).packageName hkey) (stateAfter outcome)).next ?_
  exact fun _ _ _ hz => .pure hz.twin rfl

end Package

/-! ## Loading -/

namespace Session

theorem twins_enterFetched {load : Loader} (hload : load.Twin) {s s' : Session} (h : s.Twin s')
    {n n' : PackageName} (hn : PackageName.Twin s.store.names s'.store.names n n') (p : Package) :
    Twins (enterFetched load n p) (enterFetched load n' p) s s' Same := by
  refine .get ?_
  rw [hn.text_eq]
  refine (h.setState hn .inProgress).next fun _ u u' hu => ?_
  refine (p.twins_enterWith hload hu.twin (.some (hu.packageName hn))).next ?_
  rintro ⟨q, outcome⟩ v v' hv
  refine (hv.twin.setState ((hu.trans hv).packageName hn) (Package.stateAfter outcome)).next ?_
  intro _ w w' hw
  cases outcome with
  | ok symbol => exact (hw.twin.publish q).next fun _ _ _ hz => .pure hz.twin rfl
  | error _ => exact .pure hw.twin rfl

theorem twins_loadWithin (depth : Nat) : Loader.Twin (loadWithin depth) := by
  induction depth using Nat.strongRecOn with
  | _ depth ih =>
    intro s s' n n' h hn
    unfold loadWithin
    refine .get ?_
    rw [h.settled? hn, h.fetch? hn, hn.text_eq]
    cases s.settled? n with
    | some outcome => exact .pure h rfl
    | none =>
      cases s.fetch? n with
      | none => exact .pure h rfl
      | some p =>
        cases depth with
        | zero => exact .pure h rfl
        | succ depth => exact twins_enterFetched (ih depth (Nat.lt_succ_self depth)) h hn p

/-- A request to twins gets the same response, and leaves twins. -/
theorem twins_respond {s s' : Session} (h : s.Twin s') (r : Request) :
    Twins (respond r) (respond r) s s' Same := by
  have henter : ∀ {u u' : Session} {path path' : Option PackageName} (p : Package), u.Twin u' →
      Option.Rel (PackageName.Twin u.store.names u'.store.names) path path' →
      Twins (fun v => p.enterWith (loadWithin v.depthBound) path v)
        (fun v => p.enterWith (loadWithin v.depthBound) path' v) u u' Same :=
    fun {u u'} _ _ p hu hpath =>
      have hp := p.twins_enterWith (twins_loadWithin u.depthBound) hu hpath
      ⟨by rw [hu.depthBound]; exact hp.later, by rw [hu.depthBound]; exact hp.result⟩
  cases r with
  | define p =>
    refine (henter p h .none).next ?_
    exact fun _ _ _ hu => .pure hu.twin rfl
  | enterAs path version p =>
    refine (h.onStore (h.store.internPackage path version)).bind fun n n' u u' hu hn => ?_
    refine (henter p hu.twin (.some hn)).next ?_
    exact fun _ _ _ hv => .pure hv.twin rfl
  | load path version =>
    refine (h.onStore (h.store.internPackage path version)).bind fun n n' u u' hu hn => ?_
    have hload : Twins (Session.load n) (Session.load n') u u' Same :=
      have hn := twins_loadWithin u.depthBound u u' n n' hu.twin hn
      ⟨by rw [load, load, hu.twin.depthBound]; exact hn.later, by
        rw [load, load, hu.twin.depthBound]; exact hn.result⟩
    exact hload.next fun _ _ _ hv => .pure hv.twin rfl

/-! ## Questions -/

section

variable {s s' : Session} (h : s.Twin s') (container : SymbolId)
include h

theorem Twin.scopeNames : s'.scopeNames container = s.scopeNames container := by
  have hscope : Option.Rel (Scope.Twin s.store.names s'.store.names)
      ((s.store.table.scopeOf container).bind s.store.table.scope?)
      ((s'.store.table.scopeOf container).bind s'.store.table.scope?) := by
    rw [h.store.table.scopeOf]
    cases s.store.table.scopeOf container with
    | none => exact .none
    | some i => exact h.store.table.scope? i
  rw [Session.scopeNames, Session.scopeNames]
  generalize (s.store.table.scopeOf container).bind s.store.table.scope? = o at hscope
  generalize (s'.store.table.scopeOf container).bind s'.store.table.scope? = o' at hscope
  rcases hscope with hsc | _
  · exact eq_of_forall₂ (List.forall₂_map_right_iff.2 (List.forall₂_map_left_iff.2
      (hsc.entries.imp fun _ _ he => he.1.text_eq)))
  · rfl

/-- A member is found by its text in one twin if it is in the other. -/
theorem twins_member (text : String) :
    Twins (member container text) (member container text) s.store s'.store Same := by
  refine .get ?_
  rw [h.store.table.scopeOf]
  cases s.store.table.scopeOf container with
  | none => exact .pure h.store rfl
  | some i =>
    refine (h.store.intern text).bind fun n n' u u' hu hn => .get ?_
    exact .pure hu.twin (hu.twin.table.get? i hn)

theorem twins_memberOfKind (text : String) (mask : KindMask) :
    Twins (memberOfKind container text mask) (memberOfKind container text mask) s.store s'.store
      Same := by
  refine (twins_member h container text).next fun found u u' hu => .get (.pure hu.twin ?_)
  have hkind : ∀ x, (u'.table.symbol? x).any (·.kind.mask.meets mask) =
      (u.table.symbol? x).any (·.kind.mask.meets mask) := fun x => by
    have hx := hu.twin.table.symbol? x
    generalize u.table.symbol? x = o at hx
    generalize u'.table.symbol? x = o' at hx
    rcases hx with hx | _
    · exact congrArg (·.mask.meets mask) hx.kind_eq
    · rfl
  simp only [hkind]

end

/-! ## Sessions that share their names -/

/-- The session with other names. -/
def withNames (s : Session) (names : Names) : Session := { s with store := { s.store with names } }

/-- The session after other sessions, which share its names, have interned `texts`. -/
def amid (s : Session) (texts : List String) : Session :=
  s.withNames (s.store.names.internAll texts).2

/-- What comes of requests, before each of which other sessions have interned some texts. -/
def answer (s : Session) : List (List String × Request) → List Response × Session
  | [] => ([], s)
  | (texts, r) :: rest =>
    let (response, s) := respond r (s.amid texts)
    let (responses, s) := s.answer rest
    (response :: responses, s)

theorem twin_start (names names' : Names) (config : Config) (library : Library) :
    (start names config library).Twin (start names' config library) where
  store := ⟨.initial names names', rfl⟩
  config := rfl
  registry := ⟨rfl, .nil, rfl⟩

/-- Twins stay twins while others intern what they want. -/
theorem Twin.withNames {s s' : Session} (h : s.Twin s') {t t' : Names}
    (g : s.store.names.texts <+: t.texts) (g' : s'.store.names.texts <+: t'.texts) :
    (s.withNames t).Twin (s'.withNames t') :=
  ⟨⟨h.store.table.mono g g', h.store.log⟩, h.config, h.registry.mono g g'⟩

theorem Twin.amid {s s' : Session} (h : s.Twin s') (texts texts' : List String) :
    (s.amid texts).Twin (s'.amid texts') :=
  h.withNames (s.store.names.internAll_spec texts).1 (s'.store.names.internAll_spec texts').1

/-- Twins that are asked the same, amid different others. -/
theorem Twin.answer {s s' : Session} (h : s.Twin s')
    (steps : List ((List String × List String) × Request)) :
    (s'.answer (steps.map fun e => (e.1.2, e.2))).1 =
        (s.answer (steps.map fun e => (e.1.1, e.2))).1 ∧
      (s.answer (steps.map fun e => (e.1.1, e.2))).2.Twin
        (s'.answer (steps.map fun e => (e.1.2, e.2))).2 := by
  induction steps generalizing s s' with
  | nil => exact ⟨rfl, h⟩
  | cons e rest ih =>
    obtain ⟨⟨texts, texts'⟩, r⟩ := e
    have hr := twins_respond (h.amid texts texts') r
    obtain ⟨hresponses, htwin⟩ := ih hr.later.twin
    refine ⟨?_, htwin⟩
    rw [List.map_cons, List.map_cons, Session.answer, Session.answer]
    exact congrArg₂ List.cons hr.result hresponses

/-- New sessions of the same settings and library, with any two tables of names, that are asked
    the same amid different others: the responses are the same, and so are the sessions at the end
    when each of their names is replaced by its text. -/
theorem answer_twin (names names' : Names) (config : Config) (library : Library)
    (steps : List ((List String × List String) × Request)) :
    ((start names' config library).answer (steps.map fun e => (e.1.2, e.2))).1 =
        ((start names config library).answer (steps.map fun e => (e.1.1, e.2))).1 ∧
      ((start names config library).answer (steps.map fun e => (e.1.1, e.2))).2.Twin
        ((start names' config library).answer (steps.map fun e => (e.1.2, e.2))).2 :=
  (twin_start names names' config library).answer steps

end Session

namespace Workspace

variable {w w' : Workspace} {alone : Nat → Session}

/-- Each session is a twin of the one in `alone`. -/
structure Mirrors (w : Workspace) (alone : Nat → Session) : Prop where
  place : ∀ (i place : Nat) (s : Session), w.sessions[i]? = some (place, s) → place < w.names.size
  twin : ∀ (i place : Nat) (s : Session) (t : Names), w.sessions[i]? = some (place, s) →
    w.names[place]? = some t → (alone i).Twin (s.withNames t)

theorem mirrors_empty (alone : Nat → Session) : Mirrors {} alone where
  place := nofun
  twin := nofun

/-- A session is added, and perhaps a table of names. -/
theorem Mirrors.push (h : w.Mirrors alone) {names : Array Names} {place : Nat} (t u : Names)
    (hplace : place < names.size) (hsize : w.names.size ≤ names.size)
    (hnames : ∀ p < w.names.size, names[p]? = w.names[p]?) (config : Config) (library : Library) :
    Mirrors ⟨names, w.sessions.push (place, .start t config library)⟩
      (Function.update alone w.sessions.size (.start u config library)) := by
  refine ⟨fun i place' s hi => ?_, fun i place' s t' hi ht' => ?_⟩
  · rw [Array.getElem?_push] at hi
    split at hi
    · cases hi
      exact hplace
    · exact Nat.lt_of_lt_of_le (h.place i place' s hi) hsize
  · rw [Array.getElem?_push] at hi
    split at hi
    · next hnew =>
      cases hi
      rw [hnew, Function.update_self]
      exact Session.twin_start u t' config library
    · next hold =>
      rw [hnames place' (h.place i place' s hi)] at ht'
      rw [Function.update_of_ne hold]
      exact h.twin i place' s t' hi ht'

/-- A new session is a twin of one that is alone, whether it shares its names or not. -/
theorem Mirrors.start (h : w.Mirrors alone) (config : Config) (library : Library)
    (shared : Option Nat) (names : Names) :
    (w.start config library shared).2.Mirrors
      (Function.update alone (w.start config library shared).1 (.start names config library)) := by
  rw [Workspace.start]
  cases hshared : shared.bind (w.sessions[·]?) with
  | none =>
    refine h.push _ names ?_ ?_ (fun p hp => ?_) config library
    · rw [Array.size_push]
      exact Nat.lt_succ_self _
    · rw [Array.size_push]
      exact Nat.le_succ _
    · rw [Array.getElem?_push, if_neg (Nat.ne_of_lt hp)]
  | some e =>
    obtain ⟨i, -, hi⟩ := Option.bind_eq_some_iff.1 hshared
    exact h.push _ names (h.place i e.1 e.2 hi) (Nat.le_refl _) (fun _ _ => rfl) config library

/-- What a session of a workspace is asked, it answers as if it were alone, and the others do not
    notice. -/
theorem Mirrors.run (h : w.Mirrors alone) {i : Nat} {r : Request} {response : Response}
    (hrun : w.run i (Session.respond r) = some (response, w')) :
    response = (Session.respond r (alone i)).1 ∧
      w'.Mirrors (Function.update alone i (Session.respond r (alone i)).2) := by
  cases he : w.sessions[i]? with
  | none =>
    rw [Workspace.run, he] at hrun
    cases hrun
  | some e =>
    obtain ⟨place, s⟩ := e
    have hplace := h.place i place s he
    have ht := Array.getElem?_eq_getElem hplace
    have hs : w.session? i = some (s.withNames w.names[place]) := by
      rw [Workspace.session?, he]
      exact congrArg (fun o => some (s.withNames (Option.getD o s.store.names))) ht
    have hr := Session.twins_respond (h.twin i place s _ he ht) r
    rw [Workspace.run, he, hs] at hrun
    cases hrun
    refine ⟨hr.result, fun j place' s' hj => ?_, fun j place' s' t' hj ht' => ?_⟩
    · rw [Array.getElem?_modify] at hj
      rw [Array.size_modify]
      split at hj
      · next hij =>
        subst hij
        rw [he] at hj
        cases hj
        exact hplace
      · exact h.place j place' s' hj
    · rw [Array.getElem?_modify] at hj ht'
      by_cases hij : i = j
      · subst hij
        rw [if_pos rfl, he] at hj
        cases hj
        rw [if_pos rfl, ht] at ht'
        cases ht'
        rw [Function.update_self]
        exact hr.later.twin
      · rw [if_neg hij] at hj
        rw [Function.update_of_ne (Ne.symm hij)]
        split at ht'
        · next hsame =>
          subst hsame
          rw [ht] at ht'
          cases ht'
          exact (h.twin j place s' _ hj ht).withNames List.prefix_rfl hr.later.names'
        · exact h.twin j place' s' t' hj ht'

/-! ## Steps of a workspace -/

/-- A step of a workspace: a session is added, or one is asked. -/
inductive Step
  | start (config : Config) (library : Library) (shared : Option Nat)
  | ask (i : Nat) (r : Request)

/-- The same step, but a session that is added has a table of names of its own. -/
def Step.unshared : Step → Step
  | start config library _ => start config library none
  | ask i r => ask i r

/-- Takes a step, with the response if a session is asked that is there. -/
def step (w : Workspace) : Step → Option Response × Workspace
  | .start config library shared => (none, (w.start config library shared).2)
  | .ask i r =>
    match w.run i (Session.respond r) with
    | some (response, w) => (some response, w)
    | none => (none, w)

/-- Takes one step after the other. -/
def takeSteps : List Step → Workspace → List (Option Response) × Workspace
  | [], w => ([], w)
  | e :: rest, w =>
    let (response, w) := w.step e
    let (responses, w) := takeSteps rest w
    (response :: responses, w)

theorem size_start (w : Workspace) (config : Config) (library : Library) (shared : Option Nat) :
    (w.start config library shared).2.sessions.size = w.sessions.size + 1 := by
  rw [start]
  exact Array.size_push _

theorem exists_run {i : Nat} (hi : i < w.sessions.size) {α : Type} (a : StateM Session α) :
    ∃ x w', w.run i a = some (x, w') := by
  have he := Array.getElem?_eq_getElem hi
  rw [run, session?, he]
  exact ⟨_, _, rfl⟩

theorem run_eq_none {i : Nat} (hi : w.sessions.size ≤ i) {α : Type} (a : StateM Session α) :
    w.run i a = none := by
  rw [run, Array.getElem?_eq_none hi]

theorem size_of_run {i : Nat} {α : Type} {a : StateM Session α} {x : α}
    (h : w.run i a = some (x, w')) : w'.sessions.size = w.sessions.size := by
  rw [run] at h
  split at h
  · cases h
    exact Array.size_modify
  · cases h

/-- Two workspaces mirror the same sessions, however each of them shares its names. -/
def Alike (w w' : Workspace) : Prop :=
  w.sessions.size = w'.sessions.size ∧ ∃ alone, w.Mirrors alone ∧ w'.Mirrors alone

/-- Of a step, the response is the same whether names are shared or not, and so are the sessions
    that the workspaces mirror. -/
theorem Alike.step (h : w.Alike w') (e : Step) :
    (w.step e).1 = (w'.step e.unshared).1 ∧ (w.step e).2.Alike (w'.step e.unshared).2 := by
  obtain ⟨hsize, alone, hw, hw'⟩ := h
  cases e with
  | start config library shared =>
    refine ⟨rfl, ?_, Function.update alone w.sessions.size (.start default config library),
      hw.start config library shared default, ?_⟩
    · exact (size_start w config library shared).trans
        ((congrArg (· + 1) hsize).trans (size_start w' config library none).symm)
    · rw [hsize]
      exact hw'.start config library none default
  | ask i r =>
    by_cases hi : i < w.sessions.size
    · obtain ⟨response, u, hrun⟩ := exists_run hi (Session.respond r)
      obtain ⟨response', u', hrun'⟩ := exists_run (hsize ▸ hi) (Session.respond r)
      obtain ⟨hresponse, hu⟩ := hw.run hrun
      obtain ⟨hresponse', hu'⟩ := hw'.run hrun'
      rw [Step.unshared, Workspace.step, Workspace.step, hrun, hrun']
      exact ⟨congrArg some (hresponse.trans hresponse'.symm),
        (size_of_run hrun).trans (hsize.trans (size_of_run hrun').symm), _, hu, hu'⟩
    · have hnone := Nat.le_of_not_lt hi
      rw [Step.unshared, Workspace.step, Workspace.step, run_eq_none hnone,
        run_eq_none (hsize ▸ hnone)]
      exact ⟨rfl, hsize, alone, hw, hw'⟩

/-- So it is of any steps. -/
theorem Alike.takeSteps (h : w.Alike w') (es : List Step) :
    (takeSteps es w).1 = (takeSteps (es.map Step.unshared) w').1 ∧
      (takeSteps es w).2.Alike (takeSteps (es.map Step.unshared) w').2 := by
  -- What a step leads to is alike again, so the rest is taken by workspaces that are alike.
  induction es generalizing w w' with
  | nil => exact ⟨rfl, h⟩
  | cons e rest ih =>
    obtain ⟨hresponse, hstep⟩ := h.step e
    obtain ⟨hresponses, hrest⟩ := ih hstep
    exact ⟨congrArg₂ List.cons hresponse hresponses, hrest⟩

/-- From the empty workspace on, sharing names between sessions changes no response. -/
theorem responses_unshared (es : List Step) :
    (takeSteps (es.map Step.unshared) {}).1 = (takeSteps es {}).1 := by
  have halike : Alike {} {} := ⟨rfl, fun _ => .start {} {} {}, mirrors_empty _, mirrors_empty _⟩
  exact (halike.takeSteps es).1.symm

end Workspace

end Binder
