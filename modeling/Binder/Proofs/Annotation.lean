import Binder.Proofs.Contents
import Binder.Proofs.Nested

/-!
# Everything is annotated

When a package is entered with success, nothing that it declares is left out, whatever is wrong with
other declarations: each has its symbol, which says of which kind it is, how it is called, where it
stands and which modifiers it has, and each variable has its type, with all levels of its written
type resolved. Nothing else comes out than what was written, with the modifiers and the initializers
that binding adds.

* `Package.AnnotatedIn`: every declaration of a package has its annotations.
* `Package.unbound_enterWith`: what comes out of entering a package is what was written.
* `Package.Entered.annotatedIn`: the members of a package are annotated when they are entered.
* `Session.Enters.annotated`: the packages that are entered with success are annotated.
-/

namespace Binder

/-! ## Annotations -/

/-- Every level of the written type is resolved. -/
def TypeRef.Annotated : TypeRef → Prop
  | primitive _ _ t | named _ _ _ t => t.isSome
  | array e _ t => t.isSome ∧ e.Annotated

theorem TypeRef.ResolvedIn.everyLevel {s : Store} {p : SymbolId} {r : TypeRef}
    (h : r.ResolvedIn s p) : r.Annotated := by
  induction r with
  | primitive | named =>
    obtain ⟨ty, hty, _⟩ := h
    exact Option.isSome_iff_exists.2 ⟨ty, hty⟩
  | array e _ _ ih =>
    obtain ⟨he, ty, hty, _⟩ := h
    exact ⟨Option.isSome_iff_exists.2 ⟨ty, hty⟩, ih he⟩

/-- The variable has its type and, if it has a name, a symbol that has the same type. -/
structure VarDecl.AnnotatedIn (s : Store) (v : VarDecl) : Prop where
  ty : v.ty.isSome
  type : v.type.Annotated
  named : v.name.text ≠ "" → ∃ c, s.Has (v.offer c)
  unnamed : v.name.text = "" → v.symbol = none

/-- Every declaration of the package, whose symbol is `c`, has its annotations. -/
structure Package.AnnotatedIn (s : Store) (c : SymbolId) (p : Package) : Prop where
  imported : ∀ i ∈ p.imports, ∃ x, i.symbol = some x ∧ s.table.kindOf x = some .package
  struct : ∀ d ∈ p.structs, s.Has (d.offer (some c))
  connector : ∀ d ∈ p.connectors, s.Has (d.offer (some c))
  service : ∀ d ∈ p.services, s.Has (d.offer (some c))
  callable : ∀ e ∈ p.everyCallable, ∃ c', s.Has (e.2.head.offer c' (e.2.nameAs e.1) e.1)
  var : ∀ v ∈ p.everyVar, v.AnnotatedIn s

namespace Package

/-! ## What is written -/

section

variable {load : Loader} {site : Site} {s₀ s : Session}

/-- The contents of a package come out as they were written. -/
theorem unbound_enterContents (hload : load.Sound) (h : site.Opens s₀ s) (p : Package)
    {x : SymbolId} (hok : (p.enterContents load site s).1.2 = .ok x) :
    (p.enterContents load site s).1.1.unbound =
      (p.equipped s₀.config (s.store.symbolText site.package)
        (p.enterContents load site s).1.1.vars).unbound := by
  obtain ⟨h₁, g₁⟩ := Import.enterAll_opens hload p.imports h
  have himports := Import.bare_enterAll load site p.imports s
  obtain ⟨_, _, hp, _⟩ := enterContents_of_ok hok
  cases hall : Import.enterAll load site p.imports s with
  | mk r s₁ =>
    rw [hall] at h₁ g₁ himports hp
    obtain ⟨_, _, hunbound⟩ := run_enterMembers s₁.config { p with imports := r.1 } h₁.top
    obtain ⟨sym, hsym⟩ := h.exists_symbol
    rw [← hp, h₁.leads.config, h.sound.store.symbolText_eq g₁ hsym] at hunbound
    refine hunbound.trans ?_
    exact congrArg (fun imports => { (p.equipped s₀.config (s.store.symbolText site.package)
      (p.enterContents load site s).1.1.vars).unbound with imports }) himports

/-- A package comes out as it was written. -/
theorem unbound_enterWith (hload : load.Sound) {path : Option PackageName} (p : Package)
    (hs : s.Sound) (hpath : ∀ name ∈ path, name.Known s.store.names) {x : SymbolId}
    (hok : (p.enterWith load path s).1.2 = .ok x) :
    let title := p.collect.title s.config (path.map (·.key s.store.names))
    (p.enterWith load path s).1.1.unbound =
      (p.collect.equipped s.config (PackageName.render title.1 title.2)
        (p.enterWith load path s).1.1.vars).unbound := by
  obtain ⟨hopened, _⟩ := p.collect.opened_spec hs hpath
  cases ho : p.collect.opened path s with
  | mk key r =>
    obtain ⟨site, s₁⟩ := r
    rw [ho] at hopened
    cases hc : { p.collect with symbol := some site.package }.enterContents load site s₁ with
    | mk r s₂ =>
      obtain ⟨p', outcome⟩ := r
      rw [enterWith_eq ho hc] at hok ⊢
      have hunbound := unbound_enterContents hload hopened.opens
        { p.collect with symbol := some site.package } (x := x) (by rw [hc]; exact hok)
      rw [hc, hopened.text] at hunbound
      exact hunbound

end

/-! ## What is annotated -/

section

variable {load : Loader} {site : Site} {s₀ s s₁ s' : Session} {imports : List Import} {p : Package}

theorem mem_everyVar {v : VarDecl} (h : v ∈ p.everyVar) : (∃ d ∈ p.structs, v ∈ d.fields) ∨
    (∃ e ∈ p.everyCallable, v ∈ e.2.head.vars) ∨ v ∈ p.vars := by
  simp only [everyVar, List.mem_append, List.mem_flatMap, or_assoc] at h
  exact h

/-- A variable is annotated if it is one of the package and what it offers is offered. -/
theorem Entered.annotatedIn_var (h : Entered load site s₀ s s₁ imports p s') {v : VarDecl}
    (hv : v ∈ p.allVars) (hregular : v.Regular) {c : Option SymbolId}
    (hoffers : ∀ o ∈ v.offers c, o ∈ p.memberOffers (some site.package)) :
    v.AnnotatedIn s'.store where
  ty := by
    obtain ⟨ty, hty, _⟩ := (h.vars v hv).ty
    exact Option.isSome_iff_exists.2 ⟨ty, hty⟩
  type := (h.vars v hv).type.everyLevel
  named hname := by
    refine ⟨c, h.follows.has _ (hoffers _ ?_)⟩
    rw [VarDecl.offers, if_neg hname]
    exact List.mem_singleton_self _
  unnamed := hregular

/-- A part of a callable that has a name is a variable that the callable owns. -/
theorem Entered.has_part (h : Entered load site s₀ s s₁ imports p s') {e : SymbolKind × Callable}
    (he : e ∈ p.everyCallable) {v : VarDecl} (hv : v ∈ e.2.head.parts e.1)
    (hname : v.name.text ≠ "") : s'.store.Has (v.offer e.2.head.symbol) :=
  h.follows.has _ (offer_mem_memberOffers_of_part he hv hname)

/-- The members of a package are annotated when they are entered. -/
theorem Entered.annotatedIn (h : Entered load site s₀ s s₁ imports p s') (hregular : p.Regular)
    (hcallables : ∀ e ∈ p.callables, e.2.Regular e.1) :
    p.AnnotatedIn s'.store site.package where
  imported i hi := by
    obtain ⟨x, hx, hk⟩ := h.imports.symbol i hi
    exact ⟨x, hx, h.follows.grows.table.kindOf hk⟩
  struct d hd := h.follows.has _ ((typeOffers_sublist site.package p).subset (by
    simp only [typeOffers, List.mem_append]
    exact .inl (.inl (List.mem_map_of_mem hd))))
  connector d hd := h.follows.has _ ((typeOffers_sublist site.package p).subset (by
    simp only [typeOffers, List.mem_append]
    exact .inl (.inr (List.mem_map_of_mem hd))))
  service d hd := h.follows.has _ ((typeOffers_sublist site.package p).subset (by
    simp only [typeOffers, List.mem_append]
    exact .inr (List.mem_map_of_mem hd)))
  callable e he := by
    obtain ⟨⟨c', hoffers⟩, _⟩ := offers_of_mem_everyCallable (c := site.package) he
    refine ⟨c', h.follows.has _ (hoffers _ ?_)⟩
    rw [Callable.offers_eq]
    exact List.mem_cons_self
  var v hv := by
    rcases mem_everyVar hv with ⟨d, hd, hv⟩ | ⟨e, he, hv⟩ | hv
    · refine h.annotatedIn_var (c := d.symbol) ?_ (hregular.field d hd v hv) fun o ho => ?_
      · have hmem := List.mem_flatMap.2 ⟨d, hd, hv⟩
        simp only [allVars, List.mem_append]
        tauto
      · have hfield : o ∈ d.fieldOffers := List.mem_flatMap.2 ⟨v, hv, ho⟩
        have hmem := List.mem_flatMap.2 ⟨d, hd, hfield⟩
        simp only [memberOffers, List.mem_append]
        tauto
    · obtain ⟨e₀, he₀, hnested⟩ := List.mem_flatMap.1 he
      have hhead := hcallables e₀ he₀ e hnested
      -- Of what is written in a callable, a receiver alone could be left out.
      obtain ⟨⟨c', hoffers⟩, hparts⟩ := offers_of_mem_everyCallable (c := site.package) he
      have hpart := hhead.mem_parts hv
      refine h.annotatedIn_var (c := e.2.head.symbol) (hparts v hpart) (hhead.var v hv)
        fun o ho => hoffers o ?_
      rw [Callable.offers_eq]
      refine List.mem_cons_of_mem _ (List.mem_append_left _ ?_)
      exact List.mem_flatMap.2 ⟨v, hpart, ho⟩
    · refine h.annotatedIn_var (c := some site.package) ?_ (hregular.var v hv) fun o ho => ?_
      · simp only [allVars, List.mem_append]
        tauto
      · have hmem := List.mem_flatMap.2 ⟨v, hv, ho⟩
        simp only [memberOffers, List.mem_append]
        tauto

end

end Package

namespace Session

variable {s s' : Session} {path : Option PackageName} {p p' : Package} {depth : Nat} {x : SymbolId}

/-- Every package that is entered with success is annotated if only its functions have receivers, and
    it comes out as it was written, with the modifiers and the initializers that binding adds. -/
theorem Enters.annotated (h : Enters depth path p s) (hregular : p.collect.Regular)
    (hp : p.enterWith (loadWithin depth) path s = ((p', .ok x), s')) :
    let title := p.collect.title s.config (path.map (·.key s.store.names))
    p'.AnnotatedIn s'.store x ∧ p'.unbound =
      (p.collect.equipped s.config (PackageName.render title.1 title.2) p'.vars).unbound := by
  intro title
  obtain ⟨hs, hpath⟩ := h.sound
  obtain ⟨_, hok⟩ := Package.enterWith_spec (loadWithin_sound depth) p hs hpath
  have hunbound := p.unbound_enterWith (loadWithin_sound depth) hs hpath (x := x) (by rw [hp])
  rw [hp] at hok hunbound
  obtain ⟨rfl, s₁, hentered⟩ := hok x rfl
  exact ⟨hentered.annotatedIn (hregular.of_unbound hunbound) (hregular.callables hunbound), hunbound⟩

/-- A method with a worker, and a parameter that has no name, whose receiver is declared twice. -/
theorem annotated_declared_twice :
    let T : Ident := ⟨"T", .origin⟩
    let t : VarDecl := { span := .origin, name := ⟨"t", .origin⟩, type := .ofName T }
    let worker : Callable := .mk { span := .origin, name := ⟨"w", .origin⟩ } []
    let f : Callable := .mk
      { span := .origin, name := ⟨"f", .origin⟩, receiver := some t
        params := [{ span := .origin, name := ⟨"", .origin⟩, type := .ofName T }] } [worker]
    let d : Struct := { span := .origin, name := T }
    let p : Package := { structs := [d, d], functions := [f] }
    let s := start {} {} {}
    let r := p.enterWith (loadWithin s.depthBound) none s
    Enters s.depthBound none p s ∧ p.collect.Regular ∧ r.1.2 = .ok ⟨1⟩ ∧
      r.1.1.AnnotatedIn r.2.store ⟨1⟩ := by
  intro T t worker f d p s r
  have h : Enters s.depthBound none p s := .define p (.start {} {} {})
  have hregular : p.collect.Regular := by
    refine ⟨fun d' hd v hv => ?_, fun _ hd => absurd hd List.not_mem_nil, fun f' hf e he => ?_,
      fun _ hd => absurd hd List.not_mem_nil, fun _ hv => absurd hv List.not_mem_nil⟩
    · have hd' : d' ∈ [d, d] := hd
      simp only [List.mem_cons, List.not_mem_nil, or_false, or_self] at hd'
      rw [hd'] at hv
      cases hv
    · rw [List.mem_singleton.1 hf] at he
      have he' : e ∈ [(.method, f), (.worker, worker)] := he
      simp only [List.mem_cons, List.not_mem_nil, or_false] at he'
      rcases he' with rfl | rfl
      · exact ⟨fun _ => rfl, fun v hv => by
          have hv' : v ∈ f.head.params ++ [t] := hv
          simp only [f, Callable.head, List.singleton_append, List.mem_cons, List.not_mem_nil,
            or_false] at hv'
          rcases hv' with rfl | rfl <;> exact fun _ => rfl⟩
      · exact ⟨fun hsome => absurd hsome Bool.false_ne_true, fun _ hv => absurd hv List.not_mem_nil⟩
  have hok : r.1.2 = .ok ⟨1⟩ := by decide +kernel
  have hp : r = ((r.1.1, .ok ⟨1⟩), r.2) := eq_of_outcome hok
  exact ⟨h, hregular, hok, (h.annotated hregular hp).1⟩

end Session

end Binder
