import Binder.Proofs.Entry.Settle
import Binder.Proofs.Entry.Turn
import Binder.Proofs.Search

/-!
# Imports that fail

A package fails if one of its imports does, for the first reason there is, but not before all of its
imports have had their turns. Each import that fails is reported, and the others are offered to the
scope of the package. That scope and the symbol of the package are all that is left of a package that
fails: nothing else of it is entered.

* `Package.Attempted`: how it goes with a package, by the turns of its imports.
* `Package.Left`, `Package.Aborted`: what is left of a package that fails.
* `Package.enterWith_attempted`: how it goes with a package that is entered.
* `Session.Reachable.define_attempted`: packages of the caller.
-/

namespace Binder

namespace Import.Turn

variable {t : Turn} {ts : List Turn}

theorem failure?_eq_none_iff : t.failure? = none ↔ ∀ e, t.answer ≠ .error e := by
  unfold failure?
  cases t.answer with
  | ok x => exact ⟨fun _ => nofun, fun _ => rfl⟩
  | error e => exact ⟨nofun, fun h => absurd rfl (h e)⟩

/-- There is a first failure exactly if some import is not had. -/
theorem exists_failure_iff :
    (∃ e, ts.findSome? failure? = some e) ↔ ∃ t ∈ ts, ∃ e, t.answer = .error e := by
  rw [← Option.isSome_iff_exists, ← Option.ne_none_iff_isSome, ne_eq, List.findSome?_eq_none_iff]
  simp only [failure?_eq_none_iff, not_forall, not_not, exists_prop]

/-- An import that is not had is reported once, where it is written. -/
theorem ownLog_of_error {e : LoadError} (h : t.answer = .error e) (c : SymbolId) :
    ∃ d, t.ownLog c = [d] ∧ d.span = t.written.span ∧
      d.code = if e.isCycle then "E0007" else "E0105" := by
  rw [ownLog, h]
  exact ⟨_, rfl, rfl, by cases e <;> rfl⟩

end Import.Turn

namespace Package

open Import (Turn)

/-! ## What becomes of a package -/

/-- What a session has after the turns of the imports of a package that it had not when the package
    began to be entered: the symbol and the scope of the package, with the imports that are had, and
    whatever the loads have made. -/
structure Left (site : Site) (turns : List Turn) (s s' : Session) : Prop where
  log : s'.store.log = s.store.log ++ turns.flatMap fun t => t.loadLog ++ t.ownLog site.package
  bindings : s'.store.bindings site.package =
    (firsts Offer.text (fun _ => false) (turns.flatMap (·.offers site.package))).map Offer.binding
  symbol : ∀ x, (s'.store.table.symbol? x).isSome ↔
    (s.store.table.symbol? x).isSome ∨ x = site.package ∨ ∃ t ∈ turns, t.MakesSymbol x
  scope : ∀ i, (s'.store.table.scope? i).isSome ↔
    (s.store.table.scope? i).isSome ∨ i = site.scope ∨ ∃ t ∈ turns, t.MakesScope i

/-- What is left of the package `p` if it fails in the session `s`. -/
structure Aborted (own : PackageKey) (site : Site) (turns : List Turn) (p : Package) (s : Session)
    (p' : Package) (s' : Session) : Prop extends Left site turns s s' where
  package : p' = { p with symbol := some site.package, imports := turns.map (·.entered) }
  state : s'.stateOf own = some .failed

/-- How it goes with the package `p` in the session `s`, whose imports have the given turns. -/
structure Attempted (own : PackageKey) (site : Site) (turns : List Turn) (p : Package) (s : Session)
    (p' : Package) (outcome : Except EnterError SymbolId) (s' : Session) : Prop where
  /-- The symbol and the scope of the package are new. -/
  fresh : s.store.table.symbol? site.package = none ∧ s.store.table.scope? site.scope = none
  /-- They are there at the end, however it goes. -/
  made : s'.store.table.kindOf site.package = some .package ∧
    s'.store.table.scopeOf site.package = some site.scope
  /-- Every import has its turn, in order. -/
  written : turns.map (·.written) = p.imports
  imports : p'.imports = turns.map (·.entered)
  /-- The package fails exactly if an import is not had in its turn, with the first failure. -/
  error_iff : (∃ e, outcome = .error e) ↔ ∃ t ∈ turns, ∃ e, t.answer = .error e
  error : ∀ e, outcome = .error e → turns.findSome? Turn.failure? = some e
  /-- An import that is not had is reported once, where it is written. -/
  report : ∀ t ∈ turns, ∀ e, t.answer = .error e → ∃ d, t.ownLog site.package = [d] ∧
    d.span = t.written.span ∧ d.code = if e.isCycle then "E0007" else "E0105"
  log : (s.store.log ++ turns.flatMap fun t => t.loadLog ++ t.ownLog site.package) <+: s'.store.log
  bindings :
    (firsts Offer.text (fun _ => false) (turns.flatMap (·.offers site.package))).map Offer.binding <+:
      s'.store.bindings site.package
  aborted : ∀ e, outcome = .error e → Aborted own site turns p s p' s'

section

variable {load : Loader} {site : Site} {s₀ s : Session} {path : Option PackageName}

/-! ## The imports -/

/-- The imports of a package have their turns after the package has its symbol and its scope. -/
theorem opened_left {p : Package} {key : PackageName} {turns : List Turn} {s₁ s₂ : Session}
    (hs : s.Sound) (hpath : ∀ name ∈ path, name.Known s.store.names)
    (ho : p.opened path s = (key, site, s₁)) (htried : Import.Tried site.package s₁ turns s₂) :
    Left site turns s s₂ := by
  obtain ⟨hopened, _⟩ := p.opened_spec hs hpath
  obtain ⟨hlog, hsymbol, hscope⟩ := p.opened_made path s
  rw [ho] at hopened hlog hsymbol hscope
  have hbinds : s₁.store.binds site.package = fun _ => false := by
    funext text
    rw [Store.binds, hopened.bindings]
    rfl
  refine ⟨hlog ▸ htried.log, ?_, fun x => ?_, fun i => ?_⟩
  · rw [htried.bindings, hopened.bindings, hbinds, List.nil_append]
  · rw [htried.symbol, hsymbol, or_assoc]
  · rw [htried.scope, hscope, or_assoc]

/-- The contents of a package whose imports have had their turns. -/
theorem enterContents_turns (hload : load.Sound) (h : site.Opens s₀ s) (p : Package) :
    let turns := Import.turns load site p.imports s
    ∃ s₁, Import.Tried site.package s turns s₁ ∧
      ((∃ e, turns.findSome? Turn.failure? = some e ∧ p.enterContents load site s =
        (({ p with imports := turns.map (·.entered) }, .error e), s₁)) ∨
      turns.findSome? Turn.failure? = none ∧ ∃ p' st, p.enterContents load site s =
          ((p', .ok site.package), { s₁ with store := st }) ∧
        p'.imports = turns.map (·.entered) ∧ s₁.store.log <+: st.log ∧
        s₁.store.bindings site.package <+: st.bindings site.package) := by
  intro turns
  obtain ⟨hall, htried⟩ := Import.enterAll_turns hload p.imports h
  obtain ⟨h₁, _⟩ := Import.enterAll_opens hload p.imports h
  cases heq : Import.enterAll load site p.imports s with
  | mk r s₁ =>
    rw [heq] at hall htried h₁
    have hr : r = (turns.map (·.entered), turns.findSome? Turn.failure?) := hall
    refine ⟨s₁, htried, ?_⟩
    cases hfailure : turns.findSome? Turn.failure? with
    | some e =>
      rw [hr, hfailure] at heq
      exact .inl ⟨e, rfl, enterContents_of_error heq⟩
    | none =>
      rw [hr, hfailure] at heq
      let q : Package := { p with imports := turns.map (·.entered) }
      have himports := imports_enterMembers s₁.config site q s₁.store
      obtain ⟨hrun, _⟩ := run_enterMembers s₁.config q h₁.top
      cases hq : q.enterMembers s₁.config site s₁.store with
      | mk p' st =>
        rw [hq] at himports hrun
        have hfollows := hrun.follows h₁.sound.store
        refine .inr ⟨rfl, p', st, enterContents_of_none heq hq, himports, hfollows.grows.log, ?_⟩
        rw [hfollows.effect.bindings]
        exact List.prefix_append _ _

/-! ## The package -/

/-- How it goes with a package that is entered. -/
theorem enterWith_attempted (hload : load.Sound) (hsettles : load.Settles) {p p' : Package}
    (hs : s.Sound) (hpath : ∀ name ∈ path, name.Known s.store.names) {key : PackageName}
    {outcome : Except EnterError SymbolId} {s₁ s' : Session}
    (ho : p.collect.opened path s = (key, site, s₁))
    (hp : p.enterWith load path s = ((p', outcome), s')) :
    Attempted (p.collect.ownKey s.config (path.map (·.key s.store.names))) site
      (Import.turns load site p.collect.imports s₁) p.collect s p' outcome s' := by
  obtain ⟨hopened, _⟩ := p.collect.opened_spec hs hpath
  obtain ⟨hopens, _⟩ := enterWith_spec hload p hs hpath
  have hstate := (enterWith_settles hload hsettles p hs hpath).stateOf_own
  rw [ho] at hopened hopens
  rw [hp] at hopens hstate
  obtain ⟨s₂, htried, hcontents⟩ := enterContents_turns hload hopened.opens
    { p.collect with symbol := some site.package }
  let turns := Import.turns load site p.collect.imports s₁
  have hleft : Left site turns s s₂ := opened_left hs hpath ho htried
  have hfailures : (∃ e, turns.findSome? Turn.failure? = some e) ↔ _ := Turn.exists_failure_iff
  have hfresh : s.store.table.symbol? site.package = none ∧ s.store.table.scope? site.scope = none :=
    ⟨hopens.fresh, hopens.scope?_eq_none⟩
  have hwritten := Import.map_written_turns load site p.collect.imports s₁
  -- The imports have had their turns; without a failure, the members are entered after them.
  rcases hcontents with ⟨e, hfailure, hc⟩ | ⟨hfailure, q, st, hc, himports, hlog, hbindings⟩
  · cases hp.symm.trans (enterWith_eq ho hc)
    exact
      { fresh := hfresh
        made := ⟨hopens.kindOf, hopens.scopeOf⟩
        written := hwritten
        imports := rfl
        error_iff := ⟨fun _ => hfailures.1 ⟨e, hfailure⟩, fun _ => ⟨e, rfl⟩⟩
        error := fun e' he' => hfailure.trans (congrArg some (Except.error.inj he'))
        report := fun t _ e he => t.ownLog_of_error he site.package
        log := hleft.log ▸ List.prefix_rfl
        bindings := hleft.bindings ▸ List.prefix_rfl
        aborted := fun _ _ => { hleft with package := rfl, state := hstate } }
  · cases hp.symm.trans (enterWith_eq ho hc)
    exact
      { fresh := hfresh
        made := ⟨hopens.kindOf, hopens.scopeOf⟩
        written := hwritten
        imports := himports
        error_iff := by
          refine ⟨nofun, fun h => ?_⟩
          obtain ⟨e, he⟩ := hfailures.2 h
          exact absurd (hfailure.symm.trans he) nofun
        error := nofun
        report := fun t _ e he => t.ownLog_of_error he site.package
        log := hleft.log ▸ hlog
        bindings := hleft.bindings ▸ hbindings
        aborted := nofun }

end

end Package

/-! ## Packages of the caller -/

namespace Session

variable {s s₁ s' : Session} {site : Site} {p p' : Package} {key : PackageName}
  {outcome : Except EnterError SymbolId}

/-- A package of the caller fails exactly if one of its imports is not had in its turn, and then
    nothing is left of it but its symbol and its scope, with the imports that are had. -/
theorem Reachable.define_attempted (h : s.Reachable) (ho : p.collect.opened none s = (key, site, s₁))
    (hp : define p s = ((p', outcome), s')) :
    p.collect.Attempted (p.collect.ownKey s.config none) site
      (Import.turns load site p.collect.imports s₁) s p' outcome s' := by
  have hpath : ∀ name ∈ (none : Option PackageName), name.Known s.store.names := nofun
  rw [define_eq_enterWith p h.sound] at hp
  exact Package.enterWith_attempted load_sound load_settles h.sound hpath ho hp

/-- A package that is not there, one that is, and the importing package itself. -/
theorem attempted_in_turn :
    let a : Import := { span := .origin, path := [⟨"a", .origin⟩] }
    let b : Import := { span := .origin, path := [⟨"b", .origin⟩] }
    let c : Import := { span := .origin, path := [⟨".", .origin⟩] }
    let p : Package := { imports := [a, b, c] }
    let s := start {} {} (Library.insert {} "b" none {})
    let o := p.collect.opened none s
    let r := define p s
    s.Reachable ∧ r.1.2 = .error ⟨"a", .notFound "a"⟩ ∧
      r.2.store.log.map (·.code) = ["E0105", "E0007"] ∧
      r.2.store.bindings ⟨1⟩ = [("b", some ⟨2⟩)] ∧
      p.collect.Attempted (p.collect.ownKey s.config none) o.2.1
        (Import.turns load o.2.1 p.collect.imports o.2.2) s r.1.1
        (.error ⟨"a", .notFound "a"⟩) r.2 := by
  intro a b c p s o r
  have h : s.Reachable := .start {} {} _
  have herror : r.1.2 = .error ⟨"a", .notFound "a"⟩ := by decide +kernel
  have hcodes : r.2.store.log.map (·.code) = ["E0105", "E0007"] := by decide +kernel
  have hbindings : r.2.store.bindings ⟨1⟩ = [("b", some ⟨2⟩)] := by decide +kernel
  have ho : o = (o.1, o.2.1, o.2.2) := rfl
  have hp : r = ((r.1.1, .error ⟨"a", .notFound "a"⟩), r.2) := eq_of_outcome herror
  exact ⟨h, herror, hcodes, hbindings, h.define_attempted ho hp⟩

end Session

end Binder
