import Binder.Proofs.Annotation
import Binder.Proofs.CallableScopes
import Binder.Proofs.Entry.Finish

/-!
# Callables that are formed

What a callable is made of is described three times: by what is bound in its scope, by its type, and
by the symbols that it is linked to. In its scope a name is bound once and needs to be there, while
its type has a place for every parameter and every return; it is linked to the symbols of those that
have names, also where the name is taken, provided that what has no name is written without a symbol.
A callable is *formed* if the three fit together.

* `CallableHead.FormedAs`: a type and links that describe the parts of a callable.
* `Callable.FormedIn`: a callable whose scope, type and links describe its parts.
* `Package.Entered.formedIn`: the callables of a package are formed, workers at any depth included.
* `Session.Enters.formed`: so are those of every package that is entered with success.
-/

namespace Binder

/-! ## Formed callables -/

namespace VarDecl

/-- The variable has a name. -/
def named (v : VarDecl) : Bool := v.name.text != ""

theorem named_iff {v : VarDecl} : v.named ↔ v.name.text ≠ "" := bne_iff_ne

end VarDecl

namespace CallableHead

/-- The receiver of a method; no other callable receives anything. -/
def receivers (kind : SymbolKind) (h : CallableHead) : List VarDecl :=
  if kind = .method then h.receiver.toList else []

theorem parts_eq (kind : SymbolKind) (h : CallableHead) :
    h.parts kind = h.params ++ h.receivers kind ++ h.returns := rfl

/-- The type has one place for each parameter and each return, in order, and one for the receiver of
    a method. Links go to the symbols of those that have names, in order. -/
structure FormedAs (kind : SymbolKind) (h : CallableHead) (type : Signature) (links : Links) :
    Prop where
  params : type.params.map some = h.params.map (·.type.ty)
  returns : type.returns.map some = h.returns.map (·.type.ty)
  receiver : type.receiver.toList.map some = (h.receivers kind).map (·.ty)
  method : type.receiver.isSome ↔ kind = .method
  linkedParams : links.params.map some = (h.params.filter (·.named)).map (·.symbol)
  linkedReturns : links.returns.map some = (h.returns.filter (·.named)).map (·.symbol)
  linkedReceiver :
    links.receiver.toList.map some = ((h.receivers kind).filter (·.named)).map (·.symbol)

end CallableHead

/-- The callable has the symbol `x`, and the scope, the type and the links of the symbol describe its
    parts. -/
structure Callable.FormedIn (s : Store) (kind : SymbolKind) (f : Callable) (x : SymbolId) : Prop where
  symbol : f.head.symbol = some x
  declared : ∃ c, s.Has (f.head.offer c (f.nameAs kind) kind)
  /-- The names that are written in the callable are bound in its scope, in order. -/
  names : (s.bindings x).map (·.1) = firsts id (fun _ => false) (f.scopeNames kind)
  /-- Each is bound to the symbol of the first part that has it. -/
  bindings : s.bindings x =
    (firsts Offer.text (fun _ => false) (f.scopeOffers kind)).map Offer.binding
  formed : ∃ sym id type links, s.table.symbol? x = some sym ∧ sym.ty = some id ∧
    s.table.types.get? id = some (.callable type) ∧ sym.links = some links ∧
    f.head.FormedAs kind type links
  /-- Every part has a type. -/
  typed : ∀ v ∈ f.head.parts kind, v.ty.isSome
  /-- That is the one its written type was resolved to, unless it is a receiver. -/
  resolved : ∀ v ∈ f.head.params ++ f.head.returns, v.type.ty = v.ty
  /-- A part that has a name is a variable of that type, which the callable owns. -/
  part : ∀ v ∈ f.head.parts kind, v.named → s.Has (v.offer (some x))
  /-- The callable owns its workers. -/
  worker : ∀ w ∈ f.workers, s.Has (w.workerOffer (some x))
  /-- The scope of a worker is enclosed by that of the callable. -/
  enclosed : ∀ w ∈ f.workers, ∃ y i j, w.head.symbol = some y ∧ s.table.scopeOf y = some i ∧
    s.table.scopeOf x = some j ∧ s.table.parentOf i = some (some j)

/-! ## Complete callables are formed -/

/-- A list of optional values, as far as they are there. -/
theorem map_some_filterMap {α β : Type} {f : α → Option β} {p : α → Bool} {xs : List α}
    (h : ∀ x ∈ xs, (f x).isSome = p x) : (xs.filterMap f).map some = (xs.filter p).map f := by
  rw [List.map_filterMap_some_eq_filter_map_isSome, List.filter_map]
  exact congrArg _ (List.filter_congr h)

namespace CallableHead

variable {kind : SymbolKind} {h : CallableHead}

/-- The receiver of a method that has been given a type. -/
theorem exists_of_received (hmethod : (h.received kind).isSome ↔ kind = .method) :
    (∃ r ty, h.receivers kind = [r] ∧ r.ty = some ty ∧ h.receiver = some r ∧
      h.received kind = some ty) ∨ h.receivers kind = [] ∧ h.received kind = none := by
  unfold received receivers at *
  by_cases hk : kind = .method
  · rw [if_pos hk] at hmethod ⊢
    obtain ⟨ty, hty⟩ := Option.isSome_iff_exists.1 (hmethod.2 hk)
    obtain ⟨r, hr, hrty⟩ := Option.bind_eq_some_iff.1 hty
    rw [if_pos hk, hr]
    exact .inl ⟨r, ty, rfl, hrty, rfl, hrty⟩
  · rw [if_neg hk, if_neg hk]
    exact .inr ⟨rfl, rfl⟩

/-- What the parts of a callable make up describes them. -/
theorem formedAs (hmethod : (h.received kind).isSome ↔ kind = .method)
    (htyped : ∀ v ∈ h.params ++ h.returns, v.ty.isSome ∧ v.type.ty = v.ty)
    (hsymbol : ∀ v ∈ h.parts kind, v.symbol.isSome = v.named) :
    h.FormedAs kind (h.signature (h.received kind)) (h.links (h.received kind)) := by
  have htypes : ∀ vs ⊆ h.params ++ h.returns,
      (vs.filterMap (·.ty)).map some = vs.map (·.type.ty) := fun vs hvs => by
    have hsome : ∀ v ∈ vs, v.ty.isSome = true := fun v hv => (htyped v (hvs hv)).1
    rw [map_some_filterMap hsome, List.filter_true]
    exact List.map_congr_left fun v hv => (htyped v (hvs hv)).2.symm
  have hsymbols : ∀ vs ⊆ h.parts kind,
      (vs.filterMap (·.symbol)).map some = (vs.filter (·.named)).map (·.symbol) := fun vs hvs =>
    map_some_filterMap fun v hv => hsymbol v (hvs hv)
  rw [parts_eq] at hsymbols
  have hparams : h.params ⊆ h.params ++ h.receivers kind ++ h.returns :=
    fun v hv => List.mem_append_left _ (List.mem_append_left _ hv)
  have hreceivers : h.receivers kind ⊆ h.params ++ h.receivers kind ++ h.returns :=
    fun v hv => List.mem_append_left _ (List.mem_append_right _ hv)
  obtain ⟨htype, hlink⟩ : (h.received kind).toList.map some = (h.receivers kind).map (·.ty) ∧
      (h.links (h.received kind)).receiver.toList = (h.receivers kind).filterMap (·.symbol) := by
    rcases exists_of_received hmethod with ⟨r, ty, hr, hty, hreceiver, hreceived⟩ | ⟨hr, hreceived⟩
    · rw [links, hr, hreceived, hreceiver]
      refine ⟨congrArg ([·]) hty.symm, ?_⟩
      cases hsymbol : r.symbol <;> simp [hsymbol]
    · rw [links, hr, hreceived]
      exact ⟨rfl, rfl⟩
  exact ⟨htypes _ (List.subset_append_left _ _), htypes _ (List.subset_append_right _ _), htype,
    hmethod, hsymbols _ hparams, hsymbols _ (List.subset_append_right _ _),
    hlink ▸ hsymbols _ hreceivers⟩

end CallableHead

namespace Package.Entered

variable {load : Loader} {site : Site} {s₀ s s₁ s' : Session} {imports : List Import} {p : Package}
  {e : SymbolKind × Callable}

/-- The first offers to the scope of a callable are bound in it. -/
theorem bindings_of_mem_everyCallable (h : Entered load site s₀ s s₁ imports p s')
    (hempty : s.store.bindings site.package = []) (he : e ∈ p.everyCallable) :
    ∃ x, e.2.head.symbol = some x ∧ s'.store.bindings x =
      (firsts Offer.text (fun _ => false) (e.2.scopeOffers e.1)).map Offer.binding := by
  obtain ⟨x, hx, _⟩ := h.placed.kindOf_everyCallable he
  obtain ⟨⟨c, hoffers⟩, _⟩ := offers_of_mem_everyCallable (c := site.package) he
  rw [Callable.offers_eq] at hoffers
  have hnew := (h.members.fresh h.opens.sound.store).2 _ (hoffers _ List.mem_cons_self) x hx
  refine ⟨x, hx, ?_⟩
  rw [h.bindings_eq hempty (.inr hnew), ← hx, h.placed.filter_callable he,
    Offer.firsts_place fun o ho => Callable.container_of_mem_scopeOffers ho]

/-- The callables of a package are formed when they are entered, workers at any depth included. -/
theorem formedIn (h : Entered load site s₀ s s₁ imports p s')
    (hempty : s.store.bindings site.package = []) (he : e ∈ p.everyCallable)
    (hcompleted : e.2.CompletedIn s'.store e.1) (hregular : ∀ v ∈ e.2.head.vars, v.Regular) :
    ∃ x, e.2.FormedIn s'.store e.1 x := by
  obtain ⟨kind, f⟩ := e
  obtain ⟨x, hx, hbindings⟩ := h.bindings_of_mem_everyCallable hempty he
  obtain ⟨⟨c, hoffers⟩, hparts⟩ := offers_of_mem_everyCallable (c := site.package) he
  rw [Callable.offers_eq] at hoffers
  have hself := hoffers _ List.mem_cons_self
  have hpart : ∀ v ∈ f.head.parts kind, v.named → s'.store.Has (v.offer (some x)) :=
    fun v hv hname => hx ▸ h.has_part he hv (VarDecl.named_iff.1 hname)
  have hworker : ∀ w ∈ f.workers, s'.store.Has (w.workerOffer (some x)) := fun w hw =>
    h.follows.has _ (hoffers _ (List.mem_cons_of_mem _ (List.mem_append_right _ (by
      rw [hx, Callable.workerOffers_eq]
      exact List.mem_flatMap.2 ⟨w, hw, List.mem_cons_self⟩))))
  have hsymbol : ∀ v ∈ f.head.parts kind, v.symbol.isSome = v.named := fun v hv => by
    cases hname : v.named with
    | true =>
      obtain ⟨y, _, hy, _⟩ := hpart v hv hname
      exact Option.isSome_iff_exists.2 ⟨y, hy⟩
    | false =>
      have hunnamed : v.name.text = "" :=
        Decidable.not_not.1 fun hne => Bool.false_ne_true (hname.symm.trans (VarDecl.named_iff.2 hne))
      rw [hregular v (CallableHead.parts_subset_vars kind f.head hv) hunnamed]
      rfl
  obtain ⟨y, sym, id, hy, hsym, hty, htype, hlinks⟩ := hcompleted.complete
  cases hx.symm.trans hy
  refine ⟨x, hx, ⟨c, h.follows.has _ hself⟩, ?_, hbindings,
    ⟨sym, id, _, _, hsym, hty, htype, hlinks,
      CallableHead.formedAs hcompleted.receives hcompleted.typed hsymbol⟩,
    fun v hv => ?_, fun v hv => (hcompleted.typed v hv).2, hpart, hworker, fun w hw => ?_⟩
  · rw [hbindings, List.map_map, ← f.map_text_scopeOffers, ← map_key_firsts]
    rfl
  · obtain ⟨ty, hty, _⟩ := (h.vars v (hparts v hv)).ty
    exact Option.isSome_iff_exists.2 ⟨ty, hty⟩
  · obtain ⟨y, wsym, hw', hwsym, hwkind, howner, _⟩ := hworker w hw
    have hkind : wsym.kind = .worker := hwkind
    have hv : wsym.kind ≠ .var := by rw [hkind]; decide
    have hp : wsym.kind ≠ .package := by rw [hkind]; decide
    obtain ⟨i, _, hi, _, hparent, _, hother⟩ :=
      (h.follows.sound.linked.symbol y wsym hwsym).withScope hv
    obtain ⟨o, j, ho, hj, rfl, _⟩ := hother hp
    cases ho.symm.trans howner
    exact ⟨y, i, j, hw', Option.bind_eq_some_iff.2 ⟨wsym, hwsym, hi⟩, hj, hparent⟩

end Package.Entered

/-! ## Packages that are entered -/

namespace Session

variable {s s₁ s' : Session} {path : Option PackageName} {key : PackageName} {site : Site}
  {p p' : Package} {depth : Nat} {x : SymbolId}

/-- The callables of every package that is entered with success are formed, if what has no name has
    no symbol beforehand. What is declared again in them is reported, each once, besides what is
    declared again in the other scopes of the package. -/
theorem Enters.formed (h : Enters depth path p s) (hregular : ∀ v ∈ p.collect.everyVar, v.Regular)
    (ho : p.collect.opened path s = (key, site, s₁))
    (hp : p.enterWith (loadWithin depth) path s = ((p', .ok x), s')) :
    let title := p.collect.title s.config (path.map (·.key s.store.names))
    let loads := Import.loadLog (loadWithin depth) site p.collect.imports s₁
    p'.unbound =
        (p.collect.equipped s.config (PackageName.render title.1 title.2) p'.vars).unbound ∧
      (∀ e ∈ p'.everyCallable, ∃ y, e.2.FormedIn s'.store e.1 y) ∧
      s'.store.redeclarations.Perm (s.store.redeclarations ++ loads.redeclarations ++
        ((p'.scopes x).flatMap fun e =>
          (repeats Offer.text (fun _ => false) e.2).map Offer.complaint) ++
        p'.everyCallable.flatMap fun e =>
          (repeats Offer.text (fun _ => false) (e.2.scopeOffers e.1)).map Offer.complaint) := by
  intro title loads
  obtain ⟨hs, hpath⟩ := h.sound
  obtain ⟨hopened, _⟩ := p.collect.opened_spec hs hpath
  have hunbound := p.unbound_enterWith (loadWithin_sound depth) hs hpath (x := x) (by rw [hp])
  rw [hp] at hunbound
  rw [ho] at hopened
  obtain ⟨rfl, hentered, hcomplete, _⟩ := h.complete ho hp
  refine ⟨hunbound, fun e he => ?_, ?_⟩
  · exact hentered.formedIn hopened.bindings he (hcomplete.completed e he)
      (Package.regular_of_mem_everyCallable hunbound hregular e he)
  · have hperm := hentered.redeclarations_scopes hopened.bindings
    rw [hopened.redeclarations] at hperm
    refine hperm.trans (.append_left _ ?_)
    rw [← List.map_flatMap]
    exact hentered.placed.repeats_innerOffers.map _

/-- A method with a parameter declared twice and one without a name, and with a worker in a worker. -/
theorem formed_declared_again :
    let T : Ident := ⟨"T", .origin⟩
    let v (name : String) : VarDecl :=
      { span := .origin, name := ⟨name, .origin⟩, type := .ofName T }
    let inner : Callable := .mk { span := .origin, name := ⟨"u", .origin⟩, returns := [v "t"] } []
    let worker : Callable := .mk { span := .origin, name := ⟨"a", .origin⟩, params := [v "a"] } [inner]
    let f : Callable := .mk
      { span := .origin, name := ⟨"f", .origin⟩, receiver := some (v "t")
        params := [v "a", v "", v "a"] } [worker, inner]
    let p : Package := { structs := [{ span := .origin, name := T }], functions := [f] }
    let s := start {} {} {}
    let r := p.enterWith (loadWithin s.depthBound) none s
    Enters s.depthBound none p s ∧ (∀ v ∈ p.collect.everyVar, v.Regular) ∧ r.1.2 = .ok ⟨1⟩ ∧
      (r.1.1.everyCallable.map fun e => e.1.word) =
        ["method", "worker", "worker", "worker", "function"] ∧
      (∀ e ∈ r.1.1.everyCallable, ∃ y, e.2.FormedIn r.2.store e.1 y) ∧
      (r.1.1.everyCallable.map fun e => (e.2.head.symbol.map r.2.store.bindings).getD []) =
        [[("a", some ⟨4⟩), ("t", some ⟨6⟩), ("u", some ⟨11⟩)],
          [("a", some ⟨8⟩), ("u", some ⟨9⟩)], [("t", some ⟨10⟩)], [("t", some ⟨12⟩)], []] ∧
      r.2.store.log.map (·.code) = ["E0004", "E0004"] := by
  intro T v inner worker f p s r
  have h : Enters s.depthBound none p s := .define p (.start {} {} {})
  have hregular : ∀ v ∈ p.collect.everyVar, v.Regular := fun w hw => by
    have hw' : w ∈ [v "a", v "", v "a", v "t", v "a", v "t", v "t"] := hw
    simp only [List.mem_cons, List.not_mem_nil, or_false] at hw'
    rcases hw' with rfl | rfl | rfl | rfl | rfl | rfl | rfl <;> exact fun _ => rfl
  have hok : r.1.2 = .ok ⟨1⟩ := by decide +kernel
  let o := p.collect.opened none s
  have ho : o = (o.1, o.2.1, o.2.2) := rfl
  have hp : r = ((r.1.1, .ok ⟨1⟩), r.2) := eq_of_outcome hok
  exact ⟨h, hregular, hok, by decide +kernel, (h.formed hregular ho hp).2.1, by decide +kernel,
    by decide +kernel⟩

end Session

end Binder
