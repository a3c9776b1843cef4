import Binder.Proofs.Entry.Load

/-!
# The course of a session

Whatever is requested of a session, it moves in few ways only: its store takes a run, a package is
declared, an imported one is offered or reported, a state is set or a package is published. A
property that each of these moves keeps is kept by every request.

* `Session.Course`: how a session gets on, move by move.
* `Loader.Courses`: a loader makes such moves only.
* `Session.course_respond`: every request is answered by such moves.
* `Session.Reachable.course`, `Session.Enters.course`: how sessions come from new ones.
-/

namespace Binder

namespace Session

/-- How a session gets on while packages are entered. -/
inductive Course : Session → Session → Prop
  | refl (s : Session) : Course s s
  | trans {s s₁ s' : Session} : Course s s₁ → Course s₁ s' → Course s s'
  | run {s : Session} {m : Mark} {os : List Offer} {st : Store} :
    s.store.Run m os st → Course s { s with store := st }
  /-- A package gets its symbol and its scope. -/
  | declare {s : Session} {name : PackageName} (p : Package) :
    name.Known s.store.names → Course s (onStore (p.declare name) s).2
  /-- An imported package is offered to a scope. -/
  | offer (s : Session) (span : Span) (scope : ScopeId) (name : Name) (x : SymbolId) :
    Course s (onStore (Store.define span scope name x) s).2
  | report (s : Session) (problem : Problem) (span : Span) :
    Course s (onStore (Store.report problem span) s).2
  | setState (s : Session) (name : PackageName) (state : LoadState) :
    Course s (setState name state s).2
  | publish (s : Session) (p : Package) : Course s (publish p s).2

theorem course_internPackage (path : List String) (version : Option String) (s : Session) :
    s.Course (onStore (Store.internPackage path version) s).2 :=
  .run (Store.run_internPackage s.store.mark path version s.store)

end Session

open Session (Course)

/-- A loader makes the moves of a course only. -/
def Loader.Courses (load : Loader) : Prop :=
  ∀ name (s : Session), s.Sound → name.Known s.store.names → s.Course (load name s).2

/-! ## Imports -/

namespace Import

variable {load : Loader} {site : Site} {s₀ s : Session}

theorem course_loaded (hcourses : load.Courses) (i : Import) (hs : s.Sound) :
    s.Course (i.loaded load s).2 := by
  obtain ⟨hs₁, _, hknown⟩ := hs.internPackage i.target.1 i.target.2
  exact (Session.course_internPackage i.target.1 i.target.2 s).trans (hcourses _ _ hs₁ hknown)

theorem course_enter (hcourses : load.Courses) (site : Site) (i : Import) (hs : s.Sound) :
    s.Course (i.enter load site s).2 := by
  have hload := i.course_loaded hcourses hs
  cases hi : i.loaded load s with
  | mk outcome s₁ =>
    rw [hi] at hload
    cases outcome with
    | error e =>
      rw [enter_of_error hi]
      exact hload.trans (.report s₁ _ _)
    | ok x =>
      rw [enter_of_ok hi]
      have hintern : s₁.Course { s₁ with store := (Store.intern i.localName s₁.store).2 } :=
        .run (.intern (m := s₁.store.mark) _ _)
      exact (hload.trans hintern).trans (.offer _ _ _ _ _)

theorem course_enterAll (hload : load.Sound) (hcourses : load.Courses) (imports : List Import)
    (h : site.Opens s₀ s) : s.Course (enterAll load site imports s).2 := by
  induction imports generalizing s with
  | nil => exact .refl s
  | cons i rest ih =>
    obtain ⟨h₁, _⟩ := i.enter_opens hload h
    rw [enterAll_cons]
    exact (i.course_enter hcourses site h.sound).trans (ih h₁)

end Import

/-! ## Packages -/

namespace Package

variable {load : Loader} {site : Site} {s₀ s : Session} {path : Option PackageName}

theorem course_opened (p : Package) (hpath : ∀ name ∈ path, name.Known s.store.names) :
    s.Course (p.opened path s).2.2 := by
  obtain ⟨hnaming, hknown, _⟩ := p.naming_spec s.store.mark s.config hpath
  exact ((Course.run hnaming).trans (.declare p hknown)).trans (.setState _ _ _)

theorem course_enterContents (hload : load.Sound) (hcourses : load.Courses)
    (h : site.Opens s₀ s) (p : Package) : s.Course (p.enterContents load site s).2 := by
  obtain ⟨h₁, _⟩ := Import.enterAll_opens hload p.imports h
  have himports := Import.course_enterAll hload hcourses p.imports h
  cases hall : Import.enterAll load site p.imports s with
  | mk r s₁ =>
    obtain ⟨imports, failure⟩ := r
    rw [hall] at h₁ himports
    cases failure with
    | some e =>
      rw [enterContents_of_error hall]
      exact himports
    | none =>
      obtain ⟨hrun, _⟩ := run_enterMembers s₁.config { p with imports } h₁.top
      cases hp : { p with imports }.enterMembers s₁.config site s₁.store with
      | mk p' st =>
        rw [hp] at hrun
        rw [enterContents_of_none hall hp]
        exact himports.trans (.run hrun)

theorem course_enterWith (hload : load.Sound) (hcourses : load.Courses) (p : Package)
    (hs : s.Sound) (hpath : ∀ name ∈ path, name.Known s.store.names) :
    s.Course (p.enterWith load path s).2 := by
  obtain ⟨hopened, _⟩ := p.collect.opened_spec hs hpath
  have hopen := p.collect.course_opened hpath
  cases ho : p.collect.opened path s with
  | mk key r =>
    obtain ⟨site, s₁⟩ := r
    rw [ho] at hopened hopen
    have hcontents := course_enterContents hload hcourses hopened.opens
      { p.collect with symbol := some site.package }
    rw [enterWith_eq ho rfl]
    exact (hopen.trans hcontents).trans (.setState _ _ _)

end Package

/-! ## Loads and requests -/

namespace Session

variable {s : Session}

theorem course_enterFetched {load : Loader} (hload : load.Sound) (hcourses : load.Courses)
    {name : PackageName} (p : Package) (hs : s.Sound) (hname : name.Known s.store.names) :
    s.Course (enterFetched load name p s).2 := by
  have hs₁ : (setState name .inProgress s).2.Sound := hs.setState hname nofun
  have hentry : s.Course (p.enterWith load (some name) (setState name .inProgress s).2).2 :=
    (Course.setState s name .inProgress).trans
      (p.course_enterWith hload hcourses hs₁ (known_of_mem_some hname))
  cases hp : p.enterWith load (some name) (setState name .inProgress s).2 with
  | mk r s₂ =>
    obtain ⟨p', outcome⟩ := r
    rw [hp] at hentry
    cases outcome with
    | error e =>
      rw [enterFetched_of_error hp]
      exact hentry.trans (.setState _ _ _)
    | ok x =>
      rw [enterFetched_of_ok hp]
      exact (hentry.trans (.setState _ _ _)).trans (.publish _ _)

/-- Loading, with loads nested at most `depth` deep in one another. -/
theorem loadWithin_courses : ∀ depth : Nat, Loader.Courses (loadWithin depth) :=
  loadWithin_induction (Q := fun _ s r => s.Course r.2) (fun _ s _ _ _ _ => .refl s)
    fun depth _ _ p ih hs hname _ => course_enterFetched (loadWithin_sound depth) ih p hs hname

/-- Every request is answered by the moves of a course. -/
theorem course_respond (r : Request) (hs : s.Sound) : s.Course (respond r s).2 := by
  cases r with
  | define p =>
    have hentry : s.Course (define p s).2 :=
      p.course_enterWith (loadWithin_sound s.depthBound) (loadWithin_courses s.depthBound) hs nofun
    exact hentry
  | enterAs path version p =>
    obtain ⟨hs₁, _, hname⟩ := hs.internPackage path version
    exact (course_internPackage path version s).trans
      (p.course_enterWith (loadWithin_sound _) (loadWithin_courses _) hs₁ (known_of_mem_some hname))
  | load path version =>
    obtain ⟨hs₁, _, hname⟩ := hs.internPackage path version
    exact (course_internPackage path version s).trans (loadWithin_courses _ _ _ hs₁ hname)

/-- Every reachable session gets on from a new one. -/
theorem Reachable.course (h : s.Reachable) :
    ∃ names config library, (Session.start names config library).Course s := by
  induction h with
  | start names config library => exact ⟨names, config, library, .refl _⟩
  | step r h ih =>
    obtain ⟨names, config, library, hcourse⟩ := ih
    exact ⟨names, config, library, hcourse.trans (course_respond r h.sound)⟩

/-- So does every session in which a package begins to be entered. -/
theorem Enters.course {depth : Nat} {path : Option PackageName} {p : Package}
    (h : Enters depth path p s) :
    ∃ names config library, (start names config library).Course s := by
  induction h with
  | define p h => exact h.course
  | enterAs path version p h heq =>
    obtain ⟨names, config, library, hcourse⟩ := h.course
    have hname := hcourse.trans (course_internPackage path version _)
    rw [heq] at hname
    exact ⟨names, config, library, hname⟩
  | load path version h heq =>
    obtain ⟨names, config, library, hcourse⟩ := h.course
    have hname := hcourse.trans (course_internPackage path version _)
    rw [heq] at hname
    exact ⟨names, config, library, hname.trans (.setState _ _ _)⟩
  | @nested s s₁ s₂ s₃ path key name site p q i done rest depth h _ ho hdone hi _ ih =>
    obtain ⟨names, config, library, hcourse⟩ := ih
    obtain ⟨hs, hpath⟩ := h.sound
    obtain ⟨hopened, _⟩ := p.collect.opened_spec hs hpath
    have hopen := p.collect.course_opened hpath
    rw [ho] at hopened hopen
    have himports := Import.course_enterAll (loadWithin_sound (depth + 1))
      (loadWithin_courses (depth + 1)) done hopened.opens
    rw [hdone] at himports
    have hname := course_internPackage i.target.1 i.target.2 s₂
    rw [show onStore (Store.internPackage i.target.1 i.target.2) s₂ = _ from hi] at hname
    exact ⟨names, config, library,
      (((hcourse.trans hopen).trans himports).trans hname).trans (.setState _ _ _)⟩

end Session

end Binder
