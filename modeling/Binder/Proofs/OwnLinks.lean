import Binder.Proofs.Entry.Finish
import Binder.Proofs.Entry.Links

/-!
# What callables link to

When a package is entered, a symbol of a callable that is made on the way, be it in the package or in
one that is loaded for its imports, links to variables of the callable only, all of them made on the
way: what the variables of the package were bound to before does not matter. That is so for variables
that have names. One without a name gets no symbol, but the one it is written with is left where it
is, and is linked to like any other.

* `Session.Enters.linksOwn`: what is made links to variables of its own, and to what is preset.
* `Session.not_linksOwn_preset`: a symbol that nothing has can be linked to.
-/

namespace Binder

namespace Session

variable {s s' : Session} {path : Option PackageName} {p p' : Package} {depth : Nat}
  {outcome : Except EnterError SymbolId}

/-- Whatever the entry of a package ends with, all symbols that it makes link to variables that it
    makes, too, and that belong to them, and else only to what the package or the library presets. If
    it ends with success, every callable has the types of its parameters and returns, named or not,
    and links to no other symbols than those of its parts, and without a name these are preset. -/
theorem Enters.linksOwn (h : Enters depth path p s)
    (hp : p.enterWith (loadWithin depth) path s = ((p', outcome), s')) :
    s.store.LinksOwn (fun z => p.collect.Presets z ∨ s.registry.library.Presets z) s'.store ∧
      ∀ x, outcome = .ok x → ∀ e ∈ p'.everyCallable, e.2.CompletedIn s'.store e.1 ∧
        ∀ v ∈ e.2.head.vars, ∀ z, v.Presets z → p.collect.Presets z := by
  obtain ⟨hs, hpath⟩ := h.sound
  have hlinks :=
    p.linksOwn_enterWith (loadWithin_sound depth) (loadWithin_linksOwn depth) hs hpath
  rw [hp] at hlinks
  refine ⟨hlinks, ?_⟩
  rintro x rfl e he
  have hunbound := p.unbound_enterWith (loadWithin_sound depth) hs hpath (x := x) (by rw [hp])
  rw [hp] at hunbound
  cases ho : p.collect.opened path s with
  | mk key opened =>
    obtain ⟨_, _, hcomplete, _⟩ := h.complete ho hp
    exact ⟨hcomplete.completed e he, Package.presets_of_mem_everyCallable hunbound e he⟩

/-- A method with parameters, returns and a worker, all of whose variables were bound before, next to
    parameters without names, one of them in an imported package. -/
theorem linksOwn_bound_before :
    let name (text : String) : Ident := ⟨text, .origin⟩
    let v (text : String) (symbol : Option SymbolId) : VarDecl :=
      { span := .origin, name := name text, type := .primitive .int .origin none, symbol }
    let g : Callable := .mk { span := .origin, name := name "g", params := [v "" (some ⟨98⟩)] } []
    let w : Callable := .mk { span := .origin, name := name "w", params := [v "b" (some ⟨7⟩)] } []
    let f : Callable := .mk
      { span := .origin, name := name "f", params := [v "c" (some ⟨7⟩), v "" (some ⟨99⟩)]
        receiver := some { v "t" (some ⟨7⟩) with type := .ofName (name "T") }
        returns := [v "" none, v "d" (some ⟨7⟩)] } [w]
    let s := start {} {} (Library.insert {} "a" none { functions := [g] })
    let p : Package :=
      { imports := [{ span := .origin, path := [name "a"] }]
        structs := [{ span := .origin, name := name "T" }], functions := [f] }
    let r := p.enterWith (loadWithin s.depthBound) none s
    Enters s.depthBound none p s ∧ r.1.2 = .ok ⟨1⟩ ∧
      s.store.LinksOwn (fun z => p.collect.Presets z ∨ s.registry.library.Presets z) r.2.store ∧
      (∀ e ∈ r.1.1.everyCallable, e.2.CompletedIn r.2.store e.1) ∧
      r.2.store.table.symbols.toList.filterMap (·.links) =
        [⟨[⟨98⟩], [], none⟩, {}, ⟨[⟨7⟩, ⟨99⟩], [⟨9⟩], some ⟨8⟩⟩, ⟨[⟨11⟩], [], none⟩, {}] := by
  intro name v g w f s p r
  have h : Enters s.depthBound none p s := .define p (.start {} {} _)
  have hok : r.1.2 = .ok ⟨1⟩ := by decide +kernel
  have hp : r = ((r.1.1, .ok ⟨1⟩), r.2) := eq_of_outcome hok
  obtain ⟨hlinks, hcallables⟩ := h.linksOwn hp
  exact ⟨h, hok, hlinks, fun e he => (hcallables ⟨1⟩ rfl e he).1, by decide +kernel⟩

/-- A return without a name is linked to by the symbol it is written with, which nothing has. -/
theorem not_linksOwn_preset :
    let v : VarDecl :=
      { span := .origin, name := ⟨"", .origin⟩, type := .primitive .int .origin none
        symbol := some ⟨99⟩ }
    let f : Callable := .mk { span := .origin, name := ⟨"f", .origin⟩, returns := [v] } []
    let p : Package := { functions := [f] }
    let s := start {} {} {}
    let r := p.enterWith (loadWithin s.depthBound) none s
    Enters s.depthBound none p s ∧ r.1.2 = .ok ⟨1⟩ ∧
      ((r.2.store.table.symbol? ⟨2⟩).map fun sym => (sym.kind, sym.links)) =
        some (.function, some ⟨[], [⟨99⟩], none⟩) ∧
      r.2.store.table.symbol? ⟨99⟩ = none ∧
      ¬s.store.LinksOwn (fun _ => False) r.2.store := by
  intro v f p s r
  have hok : r.1.2 = .ok ⟨1⟩ := by decide +kernel
  have hf : ((r.2.store.table.symbol? ⟨2⟩).map fun sym => (sym.kind, sym.links)) =
      some (.function, some ⟨[], [⟨99⟩], none⟩) := by decide +kernel
  have hnone : r.2.store.table.symbol? ⟨99⟩ = none := by decide +kernel
  refine ⟨.define p (.start {} {} {}), hok, hf, hnone, fun hown => ?_⟩
  obtain ⟨sym, hsym, heq⟩ := Option.map_eq_some_iff.1 hf
  have hold : s.store.table.symbol? ⟨2⟩ = none := by decide +kernel
  rcases hown.links ⟨2⟩ sym _ hold hsym (congrArg Prod.snd heq) ⟨99⟩ List.mem_cons_self with
    ⟨_, zsym, hzsym, _⟩ | hfalse
  · cases hnone.symm.trans hzsym
  · exact hfalse

end Session

end Binder
