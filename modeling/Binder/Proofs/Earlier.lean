import Binder.Proofs.ImportFailure
import Binder.Proofs.Redeclared

/-!
# Earlier declarations

What is declared again is reported where it is, and the report points at the earlier declaration of
the name in the same scope: at the declaration itself, or at what an initializer has been made for.
Only an import is never pointed at. What is bound under its local name is the symbol of the imported
package, so it is pointed at that package instead.

* `Import.Turn.signposts`: what an import that is had declares, and where it is pointed at.
* `Import.refusals_turns`: the redeclarations that imports are reported for.
* `Package.signposts`: what is declared in the scope of a package, and where it is pointed at.
* `Package.redeclared`: what is reported of a package as redeclared.
* `Package.Entered.redeclared_perm`: that this is reported when the members are entered.
* `Session.Enters.redeclarations_reported`: that it is reported however it goes with the package.
-/

namespace Binder

open Store

theorem Signpost.notes_of_mem_clashes {ps : List Signpost} {d : Diagnostic} (h : d ∈ clashes ps) :
    ∃ first later, ps.find? (later.1.1 == ·.1.1) = some first ∧ later ∈ ps ∧
      d.span = later.1.2.2 ∧ d.notes.map (·.span) = [first.2] := by
  obtain ⟨later, hlater, rfl⟩ := List.mem_map.1 h
  have hmem := mem_of_mem_repeats hlater
  have hsome : (ps.find? (later.1.1 == ·.1.1)).isSome :=
    List.find?_isSome.2 ⟨later, hmem, beq_self_eq_true later.1.1⟩
  obtain ⟨first, hfirst⟩ := Option.isSome_iff_exists.1 hsome
  exact ⟨first, later, hfirst, hmem, rfl, by rw [hfirst]; rfl⟩

/-- A name that is bound already is reported if and only if an offer of it is refused. -/
theorem Store.Sound.refusal_eq {s : Store} {c : SymbolId} {o : Offer} (hs : s.Sound)
    (hc : o.container = some c) : (((s.bound? c o.text).bind s.table.symbol?).map fun previous =>
      (Problem.redeclared o.kind.word o.text previous.span).diagnostic o.span).toList =
        if s.binds c o.text then [o.refusal s] else [] := by
  cases hx : s.bound? c o.text with
  | none =>
    have hfree : ¬s.binds c o.text := fun hb => by
      rw [← isSome_bound?_iff, hx] at hb
      cases hb
    rw [if_neg hfree]
    rfl
  | some y =>
    obtain ⟨sym, hsym⟩ := hs.symbol?_of_bound? hx
    have hspan : s.spanAt? o.place = some sym.span := by
      rw [spanAt?, Offer.place, hc, Option.bind_some, hx, Option.bind_some, hsym, Option.map_some]
    rw [if_pos (isSome_bound?_iff.1 (Option.isSome_of_eq_some hx)), Option.bind_some, hsym,
      Option.map_some, Offer.refusal, hspan]
    rfl

/-- Offers that are refused for what is bound are refused in the same way when more is bound. -/
theorem Store.map_refusal_eq_of_prefix {s s' : Store} {c : SymbolId} {os : List Offer} (hs : s.Sound)
    (g : s.Grows s') (hb : s.bindings c <+: s'.bindings c)
    (hos : ∀ o ∈ os, o.container = some c ∧ s.binds c o.text) :
    os.map (·.refusal s') = os.map (·.refusal s) :=
  List.map_congr_left fun o ho => by
    obtain ⟨hc, ht⟩ := hos o ho
    rw [Offer.refusal, Offer.refusal, Offer.place, hc, spanAt?_eq_of_prefix hs g hb ht]

/-! ## Imports -/

namespace Import

namespace Turn

variable {c : SymbolId} {t : Turn}

/-- What an import that is had declares in the scope of the importing package. It is pointed at the
    imported package. -/
def signposts (s : Store) (t : Turn) : List Signpost :=
  match t.answer with
  | .ok x => [((t.written.localName, .package, t.written.span),
      ((s.table.symbol? x).map (·.span)).getD default)]
  | .error _ => []

theorem map_signpost_offers (c : SymbolId) (s : Store) (t : Turn) :
    (t.offers c).map (·.signpost s) = t.signposts s := by
  unfold offers signposts
  cases t.answer <;> rfl

theorem container_of_mem_offers {o : Offer} (ho : o ∈ t.offers c) : o.container = some c := by
  unfold offers at ho
  split at ho
  · rw [List.mem_singleton.1 ho]
    rfl
  · exact absurd ho List.not_mem_nil

/-- What is offered in a turn is refused only for what came before the turn. -/
theorem of_mem_repeats {taken : String → Bool} {o : Offer}
    (ho : o ∈ repeats Offer.text taken (t.offers c)) : taken o.text := by
  unfold offers at ho
  split at ho
  · rw [repeats_singleton] at ho
    split at ho
    · rwa [List.mem_singleton.1 ho]
    · exact absurd ho List.not_mem_nil
  · exact absurd ho List.not_mem_nil

/-- An import that is had is refused if its local name is taken after the load. -/
theorem refusals_ownLog (hs : t.loaded.store.Sound) : Log.refusals (t.ownLog c) =
    (repeats Offer.text (t.loaded.store.binds c) (t.offers c)).map (·.refusal t.loaded.store) := by
  obtain ⟨written, before, answer, loaded⟩ := t
  cases answer with
  | error e => cases e <;> rfl
  | ok x =>
    let o := { written with symbol := some x }.offer (some c)
    have hlog : Turn.ownLog ⟨written, before, .ok x, loaded⟩ c =
        if loaded.store.binds c o.text then [o.refusal loaded.store] else [] :=
      hs.refusal_eq (o := o) rfl
    have hoffers : Turn.offers ⟨written, before, .ok x, loaded⟩ c = [o] := rfl
    rw [hlog, hoffers, repeats_singleton]
    split <;> rfl

end Turn

variable {load : Loader} {site : Site} {s₀ s : Session}

/-- Loading changes nothing about what is refused in the scope of the importing package. -/
theorem refusals_turn (hload : load.Sound) (i : Import) (h : site.Opens s₀ s) :
    Log.refusals ((i.turn load s).ownLog site.package) =
      (repeats Offer.text (s.store.binds site.package) ((i.turn load s).offers site.package)).map
        (·.refusal s.store) := by
  obtain ⟨hs₁, hl, _⟩ := i.loaded_spec hload h.sound
  obtain ⟨sym, hsym⟩ := h.exists_symbol
  have hkept : (i.turn load s).loaded.store.bindings site.package = s.store.bindings site.package :=
    hl.keeps.bindings_eq h.sound.store hsym
  have hbinds : (i.turn load s).loaded.store.binds site.package = s.store.binds site.package := by
    funext text
    rw [binds, hkept, binds]
  rw [Turn.refusals_ownLog hs₁.store, hbinds]
  refine map_refusal_eq_of_prefix h.sound.store hl.keeps.grows (hkept ▸ List.prefix_rfl)
    fun o ho => ⟨Turn.container_of_mem_offers (mem_of_mem_repeats ho), Turn.of_mem_repeats ho⟩

/-- The imports that are refused are reported in their turns. -/
theorem refusals_turns (hload : load.Sound) (imports : List Import) (h : site.Opens s₀ s) :
    Log.refusals ((turns load site imports s).flatMap (·.ownLog site.package)) =
      (repeats Offer.text (s.store.binds site.package)
        ((turns load site imports s).flatMap (·.offers site.package))).map
          (·.refusal (enterAll load site imports s).2.store) := by
  induction imports generalizing s with
  | nil => rfl
  | cons i rest ih =>
    obtain ⟨_, hall⟩ := enterAll_turns hload (i :: rest) h
    obtain ⟨_, g⟩ := enterAll_opens hload (i :: rest) h
    obtain ⟨_, hturn⟩ := i.enter_turn hload h
    obtain ⟨h₁, _⟩ := i.enter_opens hload h
    have hfirst := map_refusal_eq_of_prefix h.sound.store g
      (hall.bindings ▸ List.prefix_append _ _)
      fun o (ho : o ∈ repeats Offer.text _ ((i.turn load s).offers site.package)) =>
        ⟨Turn.container_of_mem_offers (mem_of_mem_repeats ho), Turn.of_mem_repeats ho⟩
    have hbinds := funext (binds_of_bindings hturn.bindings)
    rw [List.flatMap_singleton] at hbinds
    rw [turns, List.flatMap_cons, List.flatMap_cons, Log.refusals_append, repeats_append,
      List.map_append, i.refusals_turn hload h, hfirst, ih h₁, hbinds, enterAll_cons]

/-- What turns come to for the log, as far as redeclarations are concerned. -/
theorem Tried.refusals_perm {c : SymbolId} {s s' : Session} {turns : List Turn}
    (h : Tried c s turns s') : s'.store.refusals.Perm (s.store.refusals ++
      Log.refusals (turns.flatMap (·.loadLog)) ++ Log.refusals (turns.flatMap (·.ownLog c))) := by
  have hperm := List.flatMap_append_perm turns (·.loadLog) (·.ownLog c)
  rw [Store.refusals, h.log, Log.refusals_append, List.append_assoc]
  refine List.Perm.append_left _ ?_
  rw [← Log.refusals_append]
  exact hperm.symm.filter _

/-- If all imports are had, they are offered as they come out. -/
theorem offers_map_entered {c : SymbolId} {turns : List Turn}
    (hok : ∀ t ∈ turns, ∀ e, t.answer ≠ .error e) :
    offers c (turns.map (·.entered)) = turns.flatMap (·.offers c) := by
  rw [offers, List.map_map, List.map_eq_flatMap]
  refine List.flatMap_congr fun t ht => ?_
  rw [Function.comp_apply, Turn.entered, Turn.offers]
  cases ha : t.answer with
  | ok x => rfl
  | error e => exact absurd ha (hok t ht e)

end Import

/-! ## Packages -/

namespace Package

open Import (Turn)

/-- What is declared in the scope of a package called `title`, whose imports have the given turns, and
    where it is pointed at. -/
def signposts (s : Store) (config : Config) (title : String) (turns : List Turn) (p : Package) :
    List Signpost :=
  turns.flatMap (·.signposts s) ++
    ({ p with imports := [] }.headings config title).map Heading.signpost

/-- What is reported of a package as redeclared: if all of its imports are had, in all of its scopes,
    and else among the imports that are. -/
def redeclared (s : Store) (config : Config) (title : String) (turns : List Turn) (p : Package) :
    Except EnterError SymbolId → Log
  | .ok _ => Signpost.clashes (p.signposts s config title turns) ++ p.clashes
  | .error _ => Signpost.clashes (turns.flatMap (·.signposts s))

theorem redeclared_bare (s : Store) (config : Config) (title : String) (turns : List Turn)
    (p : Package) (outcome : Except EnterError SymbolId) :
    p.bare.redeclared s config title turns outcome = p.redeclared s config title turns outcome := by
  cases outcome with
  | error => rfl
  | ok =>
    have hheadings := headings_bare config title { p with imports := [] }
    rw [redeclared, redeclared, signposts, signposts, ← hheadings, clashes_bare]
    rfl

/-- What is reported as redeclared points at one place. -/
theorem notes_of_mem_redeclared {s : Store} {config : Config} {title : String} {turns : List Turn}
    {p : Package} {outcome : Except EnterError SymbolId} {d : Diagnostic}
    (h : d ∈ p.redeclared s config title turns outcome) : ∃ note, d.notes = [note] := by
  have hpost {ps : List Signpost} (h : d ∈ Signpost.clashes ps) : ∃ note, d.notes = [note] := by
    obtain ⟨_, _, _, _, _, hnotes⟩ := Signpost.notes_of_mem_clashes h
    exact ⟨_, (List.map_eq_singleton_iff.1 hnotes).choose_spec.1⟩
  have hheading {hs : List Heading} (h : d ∈ Heading.clashes hs) : ∃ note, d.notes = [note] :=
    hpost (Heading.clashes_signpost hs ▸ h)
  cases outcome with
  | error => exact hpost h
  | ok =>
    rcases List.mem_append.1 h with h | h
    · exact hpost h
    · simp only [clashes, Callable.clashes, List.mem_append, List.mem_flatMap] at h
      rcases h with ((⟨_, _, h⟩ | ⟨_, _, _, _, _, _, h⟩) | ⟨_, _, _, _, h⟩) | ⟨_, _, _, _, _, _, h⟩ <;>
        exact hheading h

namespace Entered

variable {load : Loader} {site : Site} {s₀ s s₁ s' : Session} {imports : List Import} {p : Package}
  {turns : List Turn} (h : Entered load site s₀ s s₁ imports p s')
  (himports : Import.offers site.package p.imports = turns.flatMap (·.offers site.package))
include h himports

/-- Where it is pointed at what is offered to the scope of a package. -/
theorem map_signpost_scopeOffers : (p.scopeOffers site.package).map (·.signpost s'.store) =
    p.signposts s'.store s₀.config (s.store.symbolText site.package) turns := by
  let q : Package := { p with imports := [] }
  have hq : q.Initialized s₀.config (s.store.symbolText site.package) :=
    ⟨h.initialized.connector, h.initialized.service, h.initialized.package⟩
  have hsplit : p.scopeOffers site.package =
      turns.flatMap (·.offers site.package) ++ q.scopeOffers site.package := by
    rw [← himports]
    simp only [scopeOffers, List.append_assoc]
    rfl
  have hmembers : (q.scopeOffers site.package).map (·.signpost s'.store) =
      (q.headings s₀.config (s.store.symbolText site.package)).map Heading.signpost := by
    rw [← hq.map_heading_scopeOffers site.package, List.map_map]
    refine List.map_congr_left fun o ho => signpost_of_has (h.follows.has o ?_)
    have hmem : o ∈ q.offers site.package := mem_offers_iff.2 (.inl ho)
    exact (List.mem_append.1 hmem).resolve_left List.not_mem_nil
  rw [hsplit, List.map_append, hmembers, List.map_flatMap, signposts]
  simp only [Turn.map_signpost_offers]
  rfl

/-- What is refused of imports and of members can be read off the declarations. -/
theorem redeclared_perm (hempty : s.store.bindings site.package = []) {before : Log}
    (hperm : s₁.store.refusals.Perm (before ++
      (repeats Offer.text (fun _ => false) (turns.flatMap (·.offers site.package))).map
        (·.refusal s₁.store))) :
    s'.store.refusals.Perm (before ++
      (Signpost.clashes (p.signposts s'.store s₀.config (s.store.symbolText site.package) turns) ++
        p.clashes)) := by
  obtain ⟨_, hc, hbindings⟩ := h.bindings_of_mem_scopes hempty (e := (some site.package, _))
    List.mem_cons_self
  cases hc
  have hs₁ := h.opens.sound.store
  have hall := h.map_refusal_offers hempty
  have hplace := Offer.repeats_place (fun o (ho : o ∈ Import.offers site.package p.imports) =>
    Import.container_of_mem_offers ho) s.store.taken
  have hfree : (fun text => s.store.taken (some site.package, text)) = fun _ => false :=
    funext (taken_of_bindings_eq_nil hempty)
  -- What imports are refused for is bound when the members are entered.
  have hkept : (repeats Offer.text (fun _ => false) (turns.flatMap (·.offers site.package))).map
      (·.refusal s'.store) = _ :=
    h.follows.effect.map_refusal_eq h.follows.grows hs₁ fun o ho => by
      have hmem : o ∈ Import.offers site.package p.imports := himports ▸ mem_of_mem_repeats ho
      have hplaces := Import.place_of_mem_offers hmem
      rw [hplaces, h.imports.taken hempty, List.contains_iff_mem, ← hplaces]
      exact List.mem_map_of_mem hmem
  rw [(h.occurrences_offers hempty).2, hplace, hfree, himports, List.map_append, hkept,
    map_refusal_eq_clashes (fun o ho => container_of_mem_scopeOffers ho) hbindings,
    h.map_signpost_scopeOffers himports] at hall
  rw [h.members.refusals hs₁]
  refine (hperm.append_right _).trans ?_
  rw [List.append_assoc]
  exact hall.append_left _

end Entered

end Package

namespace Session

open Import (Turn)

variable {s s₁ s' : Session} {path : Option PackageName} {key : PackageName} {site : Site}
  {p p' : Package} {depth : Nat} {outcome : Except EnterError SymbolId}

/-- When its imports have had their turns, a package is reported for those that are refused. -/
theorem Enters.refusals_imports (h : Enters depth path p s)
    (ho : p.collect.opened path s = (key, site, s₁)) :
    let turns := Import.turns (loadWithin depth) site p.collect.imports s₁
    let imported := (Import.enterAll (loadWithin depth) site p.collect.imports s₁).2
    let os := turns.flatMap (·.offers site.package)
    imported.store.bindings site.package =
        (firsts Offer.text (fun _ => false) os).map Offer.binding ∧
      imported.store.refusals.Perm (s.store.refusals ++ Log.refusals (turns.flatMap (·.loadLog)) ++
        (repeats Offer.text (fun _ => false) os).map (·.refusal imported.store)) := by
  intro turns imported os
  obtain ⟨hs, hpath⟩ := h.sound
  obtain ⟨hopened, _⟩ := p.collect.opened_spec hs hpath
  obtain ⟨hlog, _⟩ := p.collect.opened_made path s
  rw [ho] at hopened hlog
  have hbinds : s₁.store.binds site.package = fun _ => false := by
    funext text
    rw [binds, hopened.bindings]
    rfl
  obtain ⟨_, htried⟩ := Import.enterAll_turns (loadWithin_sound depth) p.collect.imports hopened.opens
  have hturns := Import.refusals_turns (loadWithin_sound depth) p.collect.imports hopened.opens
  have hbindings := htried.bindings
  have hperm := htried.refusals_perm
  rw [hopened.bindings, hbinds, List.nil_append] at hbindings
  rw [hturns, hbinds, show s₁.store.refusals = s.store.refusals from congrArg Log.refusals hlog]
    at hperm
  exact ⟨hbindings, hperm⟩

/-- Whatever becomes of a package that is entered, it is reported for each declaration that is none
    of the first of its name in a scope, besides what the loads of its imports report. The report
    points at one place, which is that of the first declaration unless it is an import. -/
theorem Enters.redeclarations_reported (h : Enters depth path p s)
    (ho : p.collect.opened path s = (key, site, s₁))
    (hp : p.enterWith (loadWithin depth) path s = ((p', outcome), s')) :
    let title := p.collect.title s.config (path.map (·.key s.store.names))
    let turns := Import.turns (loadWithin depth) site p.collect.imports s₁
    let own := p.collect.redeclared s'.store s.config (PackageName.render title.1 title.2) turns outcome
    s'.store.refusals.Perm
        (s.store.refusals ++ Log.refusals (turns.flatMap (·.loadLog)) ++ own) ∧
      ∀ d ∈ own, ∃ note, d.notes = [note] := by
  intro title turns own
  refine ⟨?_, fun d hd => Package.notes_of_mem_redeclared hd⟩
  obtain ⟨hs, hpath⟩ := h.sound
  obtain ⟨hopened, _⟩ := p.collect.opened_spec hs hpath
  obtain ⟨hbindings, hperm⟩ := h.refusals_imports ho
  have hattempted := Package.enterWith_attempted (loadWithin_sound depth) (loadWithin_settles depth)
    hs hpath ho hp
  rw [ho] at hopened
  have hcontainer : ∀ o ∈ turns.flatMap (·.offers site.package), o.container = some site.package :=
    fun o ho => by
      obtain ⟨t, _, ho⟩ := List.mem_flatMap.1 ho
      exact Turn.container_of_mem_offers ho
  cases outcome with
  | error e =>
    rw [map_refusal_eq_clashes hcontainer hbindings, List.map_flatMap,
      ← Package.store_eq_of_error ho hp] at hperm
    simp only [Turn.map_signpost_offers] at hperm
    exact hperm
  | ok x =>
    obtain ⟨imports, s₂, hall, rfl, _, hentered⟩ :=
      Package.exists_members (loadWithin_sound depth) hs hpath ho hp
    have hbare := p.bare_enterWith (loadWithin depth) path s
    have himports : Import.offers site.package p'.imports = turns.flatMap (·.offers site.package) := by
      rw [hattempted.imports]
      exact Import.offers_map_entered fun t ht e he =>
        nomatch (hattempted.error_iff.2 ⟨t, ht, e, he⟩).choose_spec
    rw [hp] at hbare
    rw [show Import.enterAll (loadWithin depth) site p.collect.imports s₁ = _ from hall] at hperm
    have hown := hentered.redeclared_perm himports hopened.bindings hperm
    rw [hopened.text] at hown
    have hredeclared : p'.redeclared s'.store s.config (PackageName.render title.1 title.2) turns
        (.ok site.package) = own := by
      rw [← Package.redeclared_bare, hbare, Package.redeclared_bare]
    rw [← hredeclared]
    exact hown

/-- Two imports and a struct of one name, two connectors of one name and a function that is called like
    their initializer, and a struct with a field declared twice. -/
theorem redeclared_everywhere :
    let place (file n : UInt32) : Span := ⟨file, n, n, UInt32.le_refl n⟩
    let word (text : String) : Ident := ⟨text, .origin⟩
    let x (n : UInt32) : VarDecl :=
      { span := place 0 n, name := word "x", type := .primitive .int .origin none }
    let p : Package :=
      { imports :=
          [{ span := place 0 1, path := [word "a"] },
            { span := place 0 2, path := [word "b"], asName := some (word "a") }]
        structs := [{ span := place 0 3, name := word "a", fields := [x 4, x 5] }]
        connectors :=
          [{ span := place 0 6, name := word "C" }, { span := place 0 7, name := word "C" }]
        functions := [.mk { span := place 0 8, name := word "C.<init>" } []] }
    let library := (Library.insert {} "a" none { span := place 1 0 }).insert "b" none
      { span := place 2 0 }
    let s := start {} {} library
    let o := p.collect.opened none s
    let r := p.enterWith (loadWithin s.depthBound) none s
    let turns := Import.turns (loadWithin s.depthBound) o.2.1 p.collect.imports o.2.2
    let own := p.collect.redeclared r.2.store {} "." turns (.ok ⟨1⟩)
    Enters s.depthBound none p s ∧ r.1.2 = .ok ⟨1⟩ ∧
      own.map (fun d => (d.span, d.notes.map (·.span))) =
        [(place 0 2, [place 1 0]), (place 0 3, [place 1 0]), (place 0 7, [place 0 6]),
          (place 0 7, [place 0 6]), (place 0 8, [place 0 6]), (place 0 5, [place 0 4])] ∧
      r.2.store.refusals.Perm
        (s.store.refusals ++ Log.refusals (turns.flatMap (·.loadLog)) ++ own) := by
  intro place word x p library s o r turns own
  have h : Enters s.depthBound none p s := .define p (.start {} {} _)
  have hok : r.1.2 = .ok ⟨1⟩ := by decide +kernel
  have hp : r = ((r.1.1, .ok ⟨1⟩), r.2) := eq_of_outcome hok
  have ho : o = (o.1, o.2.1, o.2.2) := rfl
  exact ⟨h, hok, by decide +kernel, (h.redeclarations_reported ho hp).1⟩

/-- A struct that is called like an import. Its report points into the file of the imported package, and
    not at the import. -/
theorem not_redeclared_at_import :
    let place (file n : UInt32) : Span := ⟨file, n, n, UInt32.le_refl n⟩
    let a : Ident := ⟨"a", .origin⟩
    let p : Package :=
      { imports := [{ span := place 0 1, path := [a] }]
        structs := [{ span := place 0 2, name := a }] }
    let s := start {} {} (Library.insert {} "a" none { span := place 1 0 })
    let r := p.enterWith (loadWithin s.depthBound) none s
    Enters s.depthBound none p s ∧ r.1.2 = .ok ⟨1⟩ ∧
      r.1.1.imports.map (fun i => (i.localName, i.span)) = [("a", place 0 1)] ∧
      r.2.store.log.map (fun d => (d.code, d.span, d.notes.map (·.span))) =
        [("E0004", place 0 2, [place 1 0])] := by
  intro place a p s r
  exact ⟨.define p (.start {} {} _), by decide +kernel, by decide +kernel, by decide +kernel⟩

end Session

end Binder
