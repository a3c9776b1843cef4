import Binder.Proofs.Reports
import Binder.Proofs.Scopes

/-!
# What is reported on entry

Entering a package adds to the log, besides redeclarations, just what is to be said of its
declarations (`Package.reports`), in the order in which they are entered. Each step adds its part, as
the names mean it then. Types are reported on when all of them have been declared, and methods when
the structs have their fields, so from then on it does not matter when the names are looked up. The
parameter of the initializer of a connector is entered before, but the name that it is written with is
bound by then, and stays bound as it is.

* `Store.others`: what has been reported besides redeclarations.
* `Callable.others_enter`, `Callable.others_enterFunction`: what entering a callable reports.
* `Package.others_enterMembers`: what entering the members of a package reports.
-/

namespace Binder

open Store

/-- What is reported besides redeclarations. -/
def Log.others (l : Log) : Log := l.filter (·.code != "E0004")

def Store.others (s : Store) : Log := s.log.others

theorem Log.others_append (l l' : Log) : others (l ++ l') = others l ++ others l' :=
  List.filter_append ..

/-- What is done for one element after another reports for each what it reports. -/
theorem others_run_mapM {α β : Type} {f : α → Entry β} {P : Store → Prop} {l : α → Log}
    {xs : List α} (hf : ∀ x ∈ xs, ∀ s, P s → P (f x s).2 ∧
      (f x s).2.others = s.others ++ l x) {s : Store} (hs : P s) :
    P (xs.mapM f s).2 ∧ (xs.mapM f s).2.others = s.others ++ xs.flatMap l := by
  induction xs generalizing s with
  | nil => exact ⟨hs, (List.append_nil _).symm⟩
  | cons x xs ih =>
    obtain ⟨hx, heq⟩ := hf x List.mem_cons_self s hs
    obtain ⟨hrest, heqs⟩ := ih (fun y hy => hf y (List.mem_cons_of_mem _ hy)) hx
    rw [run_mapM_cons, List.flatMap_cons]
    exact ⟨hrest, by rw [heqs, heq, List.append_assoc]⟩

namespace Store

/-! ## Steps -/

/-- Nothing but a redeclaration is reported when a symbol is offered. -/
theorem others_define (span : Span) (scope : ScopeId) (name : Name) (x : SymbolId) (s : Store) :
    (define span scope name x s).2.others = s.others := by
  cases hx : s.table.symbol? x with
  | none =>
    simp only [define, run_bind, run_get, hx]
    rfl
  | some sym =>
    rw [define_eq hx, others, Log.others_append, clash]
    cases s.table.bound? scope name <;> exact List.append_nil _

theorem others_declareContainer (site : Site) (kind : SymbolKind) (ident : Ident) (flags : Flags)
    (span : Span) (s : Store) :
    (declareContainer site kind ident flags span s).2.others = s.others := by
  unfold declareContainer
  simp only [run_bind, run_get, run_pure]
  exact others_define ..

theorem others_setFields (id : TypeId) (fields : List Field) (s : Store) :
    (setFields id fields s).2.others = s.others := by
  unfold setFields
  split <;> rfl

theorem others_report {p : Problem} (hp : p.code ≠ "E0004") (span : Span) (s : Store) :
    (report p span s).2.others = s.others ++ [p.diagnostic span] := by
  rw [others, report, Log.others_append]
  exact congrArg _ (List.filter_cons_of_pos (bne_iff_ne.2 hp))

/-- What is reported of a written type is no redeclaration. -/
theorem others_reports (s : Store) (c : SymbolId) (r : TypeRef) :
    Log.others (r.reports s c) = r.reports s c := by
  refine List.filter_eq_self.2 fun d hd => ?_
  obtain ⟨b, _, hmisnaming⟩ := Option.bind_eq_some_iff.1 (Option.mem_toList.1 hd)
  unfold misnaming? at hmisnaming
  split at hmisnaming
  · obtain ⟨q, _, rfl⟩ := Option.map_eq_some_iff.1 hmisnaming
    rfl
  · split at hmisnaming <;> cases hmisnaming
    rfl

end Store

variable {m : Mark} {u s s' : Store} {site : Site} {c : SymbolId}

/-! ## Variables -/

namespace VarDecl

/-- When the type of a variable is known, nothing is to be said of it. -/
theorem others_enterWith (site : Site) (ty : TypeId) (v : VarDecl) (s : Store) :
    (v.enterWith site ty s).2.others = s.others := by
  unfold enterWith
  simp only [run_bind]
  split
  · rfl
  · exact others_define ..

/-- Entering a variable reports what is to be said of its written type. -/
theorem others_enter (v : VarDecl) (h : site.At c m s) (hu : u.Sound) (hfixes : u.Fixes s) :
    (v.enter site s).2.others = s.others ++ v.type.reports u site.package := by
  unfold enter
  simp only [run_bind]
  rw [others_enterWith, others, TypeRef.log_resolve h.sound h.inside, Log.others_append,
    hfixes.reports_eq hu, others_reports]
  rfl

theorem others_mapM_enter (vs : List VarDecl) (h : site.At c m s) (hu : u.Sound)
    (hfixes : u.Fixes s) : (vs.mapM (·.enter site) s).2.others =
      s.others ++ vs.flatMap (·.type.reports u site.package) :=
  (others_run_mapM (P := fun s => site.At c m s ∧ u.Fixes s) (fun v _ _ h =>
    have hrun := (v.run_enter h.1).1
    have hf := hrun.follows h.1.sound
    ⟨⟨h.1.mono hf, h.2.follows hf fun _ ho => inner_of_mem_offers ho⟩,
      v.others_enter h.1 hu h.2⟩) ⟨h, hfixes⟩).2

end VarDecl

/-! ## Callables -/

namespace CallableHead

theorem others_declare (site : Site) (kind : SymbolKind) (name : Name) (head : CallableHead)
    (s : Store) : (head.declare site kind name s).2.others = s.others := by
  unfold declare
  simp only [run_bind, run_pure, run_get]
  exact others_define ..

theorem others_enterReceiver (site : Site) (ty : Option TypeId) (receiver : Option VarDecl)
    (s : Store) : (enterReceiver site ty receiver s).2.others = s.others := by
  unfold enterReceiver
  split
  · exact VarDecl.others_enterWith ..
  · rfl

/-- Entering the parts of a callable reports what is to be said of them. -/
theorem others_enterParts {kind : SymbolKind} {ty : Option TypeId} {head : CallableHead}
    (h : site.At c m s) (hr : head.Receives s site.package kind ty) (hu : u.Sound)
    (hfixes : u.Fixes s) :
    (head.enterParts site ty s).2.others = s.others ++ head.reports u site.package := by
  have hparams := (VarDecl.run_mapM_enter head.params h).1
  have hf₁ := hparams.follows h.sound
  have hinner₁ := VarDecl.inner_flatMap_offers (head.params.mapM (·.enter site) s).1 (some c)
  have h₁ := h.mono hf₁
  have hreceiver := (run_enterReceiver h₁ (hr.mono hf₁ h.sound hinner₁)).1
  have hf₂ := hreceiver.follows h₁.sound
  have h₂ := h₁.mono hf₂
  have hfixes₂ := (hfixes.follows hf₁ hinner₁).follows hf₂ (VarDecl.inner_flatMap_offers _ _)
  unfold enterParts
  simp only [run_bind, run_pure]
  rw [VarDecl.others_mapM_enter head.returns h₂ hu hfixes₂, others_enterReceiver,
    VarDecl.others_mapM_enter head.params h hu hfixes, List.append_assoc, ← List.flatMap_append]
  rfl

end CallableHead

namespace Callable

mutual

/-- Entering a callable reports what is to be said of it and of the workers nested in it. -/
theorem others_enter {kind : SymbolKind} {name : Name} {text : String} {receiver : Option TypeId}
    (hk : kind.isCallable) (hu : u.Sound) {s : Store} {site : Site} {c : SymbolId} :
    ∀ f : Callable, site.At c m s → u.Fixes s → s.names.text? name = some text →
      f.head.Receives s site.package kind receiver →
      (f.enter site kind name receiver s).2.others = s.others ++ f.reports u site.package
  | mk head workers, h, hfixes, hname, hr => by
    have hreceives : head.Receives s site.package kind receiver := hr
    have hdeclared := head.others_declare site kind name s
    obtain ⟨s₀, hdeclare, hd⟩ := CallableHead.declare_spec hk h hname hreceives
    rw [hdeclare] at hdeclared
    have hself : ∀ o ∈ [(head.declared site s.table.nextSymbol).offer (some c) text kind], o.Inner :=
      fun o ho => List.mem_singleton.1 ho ▸ .inr hk
    have hfixes₀ := hfixes.follows hd.follows hself
    have hf₁ := (CallableHead.run_enterParts hd.inside rfl hd.receives).1.follows hd.inside.sound
    have h₁ := hd.inside.mono hf₁
    have hfixes₁ := hfixes₀.follows hf₁ (VarDecl.inner_flatMap_offers _ _)
    have hworkers := others_enterWorkers hu workers h₁ hfixes₁
    have hparts := CallableHead.others_enterParts hd.inside hd.receives hu hfixes₀
    rw [enter_eq hdeclare rfl rfl, reports]
    refine Eq.trans (b := Store.others _) rfl (hworkers.trans ?_)
    rw [hparts, hdeclared, List.append_assoc]
    rfl

theorem others_enterWorkers (hu : u.Sound) {s : Store} {site : Site} {c : SymbolId} :
    ∀ workers : List Callable, site.At c m s → u.Fixes s →
      (enterWorkers site workers s).2.others = s.others ++ workerReports u site.package workers
  | [], _, _ => (List.append_nil _).symm
  | worker :: rest, h, hfixes => by
    have hnone : ∀ o ∈ ([] : List Offer), o.Inner := fun o ho => absurd ho List.not_mem_nil
    have hintern : Run m s [] (Store.intern worker.head.name.text s).2 := .intern s _
    have hf := hintern.follows h.sound
    have h₁ := h.mono hf
    have hfixes₁ := hfixes.follows hf hnone
    have hk : SymbolKind.worker.isCallable := rfl
    have hname : (Store.intern worker.head.name.text s).2.names.text?
        (Store.intern worker.head.name.text s).1 = some worker.head.name.text :=
      s.names.text?_intern _
    have hreceives : worker.head.Receives (Store.intern worker.head.name.text s).2 site.package
        .worker none := CallableHead.receives_none (by decide) _
    have hf₂ := (run_enter hk worker h₁ hname hreceives).1.follows h₁.sound
    have hworker := others_enter hk hu worker h₁ hfixes₁ hname hreceives
    have hrest := others_enterWorkers hu rest (h₁.mono hf₂)
      (hfixes₁.follows hf₂ (inner_offers hk _))
    rw [enterWorkers]
    simp only [run_bind, run_pure]
    rw [hrest, hworker, workerReports, ← List.append_assoc]
    rfl

end

/-- Entering actions or resources reports what is to be said of them. -/
theorem others_enterMembers {kind : SymbolKind} (hk : kind.isCallable) (hm : kind ≠ .method)
    (members : List Callable) (h : site.At c m s) (hu : u.Sound) (hfixes : u.Fixes s) :
    (enterMembers site kind members s).2.others =
      s.others ++ members.flatMap (·.reports u site.package) := by
  refine (others_run_mapM (P := fun s => site.At c m s ∧ u.Fixes s) (fun f _ s h => ?_)
    ⟨h, hfixes⟩).2
  have hintern : Run m s [] (Store.intern f.head.name.text s).2 := .intern s _
  have hf := hintern.follows h.1.sound
  have h₁ := h.1.mono hf
  have hfixes₁ := h.2.follows hf fun o ho => absurd ho List.not_mem_nil
  have hname : (Store.intern f.head.name.text s).2.names.text? (Store.intern f.head.name.text s).1 =
      some f.head.name.text := s.names.text?_intern _
  have hreceives : f.head.Receives (Store.intern f.head.name.text s).2 site.package kind none :=
    CallableHead.receives_none hm _
  have hf₂ := (run_enter hk f h₁ hname hreceives).1.follows h₁.sound
  exact ⟨⟨h₁.mono hf₂, hfixes₁.follows hf₂ (inner_offers hk _)⟩,
    others_enter hk hu f h₁ hfixes₁ hname hreceives⟩

end Callable

/-! ## Functions and methods -/

namespace Store

/-- What is wrong with the type of a receiver is what is wrong with the receiver. -/
theorem Sound.receiverProblem?_eq (hs : s.Sound) (ht : s.table.Stratified) {pkg : PackageId}
    (hc : s.table.pkgOf c = some pkg) {r : VarDecl} {ty : TypeId} (h : s.Means c r.type ty)
    (method : Ident) : s.receiverProblem? pkg method ty = r.receiverProblem? s c method := by
  rw [hs.receiverProblem?_of_means hc h, VarDecl.receiverProblem?]
  cases hmeant : s.structMeant? c r.type with
  | none =>
    by_cases hty : ty = .error
    · simp only [if_pos hty, if_neg ((h.eq_error_iff hs).1 hty)]
    · have hnil : r.type.reports s c = [] :=
        Decidable.not_not.1 fun hne => hty ((h.eq_error_iff hs).2 hne)
      simp only [if_neg hty, if_pos hnil, h.typeText_eq hs ht hty]
  | some e =>
    obtain ⟨qualifier, name, _, _, htype, _, hmember, _⟩ := exists_of_structMeant? hmeant
    have htext : r.type.plainText = s.symbolText e.2 := by
      rw [hs.symbolText_of_member? hmember, htype]
      rfl
    simp only [htext]

/-- Looking for a field in a scope that is there. -/
theorem Sound.others_checkFieldClash_of_struct (hs : s.Sound) (method : Ident) {ty : TypeId}
    {st : StructTy} (hst : s.table.types.struct? ty = some st) {i : ScopeId}
    (hi : s.table.scopeOf st.symbol = some i) :
    (checkFieldClash method ty s).2.others = s.others ++
      if (s.member? st.symbol method.text .var).isSome then
        [(Problem.fieldMethodClash method.text (s.symbolText st.symbol)).diagnostic method.span]
      else [] := by
  have hscope : s.table.fieldScope? ty = some i := by
    rw [Table.fieldScope?, hst, Option.bind_some, hi]
  have hintern : Run s.mark s [] (intern method.text s).2 := .intern s _
  have hf := hintern.follows hs
  have hmember : ((intern method.text s).2.table.lookupMember i
      (intern method.text s).1 .var).symbol? = s.member? st.symbol method.text .var := by
    rw [← hf.member?_eq_of_container hs (fun o ho => absurd ho List.not_mem_nil)]
    exact hf.sound.symbol?_lookupMember (s := (intern method.text s).2) hi (s.names.text?_intern _)
  have htext : (intern method.text s).2.typeText ty = s.symbolText st.symbol := by
    obtain ⟨sym, hsym⟩ := Table.symbol?_of_scopeOf hi
    rw [← hs.symbolText_eq hf.grows hsym]
    exact typeText_of_struct? (s := (intern method.text s).2) hst
  unfold checkFieldClash
  simp only [run_bind, run_get, hscope, hmember]
  cases s.member? st.symbol method.text .var with
  | none => exact (List.append_nil _).symm
  | some x =>
    simp only [htext]
    exact others_report (p := .fieldMethodClash _ _) (show "E0103" ≠ "E0004" by decide) _ _

/-- A method is reported if its receiver has a field that is called like it. -/
theorem Sound.others_checkFieldClash (hs : s.Sound) {method : Ident} {r : VarDecl} {ty : TypeId}
    (hr : r.ReceivedIn s c method) (hty : r.ty = some ty) :
    (checkFieldClash method ty s).2.others = s.others ++ r.clashReports s c method := by
  unfold VarDecl.ReceivedIn at hr
  rw [hty] at hr
  -- The error type has no fields.
  have herror : (checkFieldClash method .error s).2 = s := by
    have hnone : s.table.fieldScope? .error = none := by
      rw [Table.fieldScope?, hs.struct?_error, Option.bind_none]
    unfold checkFieldClash
    simp only [run_bind, run_get, hnone]
    rfl
  rw [VarDecl.clashReports, VarDecl.fieldClash?]
  cases hmeant : s.structMeant? c r.type with
  | none =>
    simp only [hmeant, Option.some_inj] at hr
    rw [hr, herror]
    exact (List.append_nil _).symm
  | some e =>
    obtain ⟨qualifier, name, _, _, htype, _, hmember, hkind⟩ := exists_of_structMeant? hmeant
    simp only [hmeant] at hr
    rw [Option.bind_some]
    by_cases hpkg : s.table.pkgOf e.1 = s.table.pkgOf c
    · rw [if_pos hpkg, Option.some_inj] at hr
      obtain ⟨sym, hsym, hk⟩ := Option.map_eq_some_iff.1 hkind
      have hisType : sym.kind.isType := hk ▸ rfl
      have hstruct : (s.table.types.struct? ty).map (·.symbol) = some e.2 := by
        rw [hr, hs.struct?_typeOf hsym hisType, if_pos hk]
      obtain ⟨st, hst, hsymbol⟩ := Option.map_eq_some_iff.1 hstruct
      obtain ⟨i, _, hi, _⟩ := (hs.linked.symbol e.2 sym hsym).withScope (by rw [hk]; decide)
      have hscope : s.table.scopeOf st.symbol = some i :=
        Option.bind_eq_some_iff.2 ⟨sym, hsymbol ▸ hsym, hi⟩
      have htext : r.type.plainText = s.symbolText st.symbol := by
        rw [hsymbol, hs.symbolText_of_member? hmember, htype]
        rfl
      rw [hs.others_checkFieldClash_of_struct method hst hscope, htext, hsymbol]
      by_cases hfield : (s.member? e.2 method.text .var).isSome
      · rw [if_pos hfield, if_pos ⟨hpkg, hfield⟩]
        rfl
      · rw [if_neg hfield, if_neg fun h => hfield h.2]
        rfl
    · rw [if_neg hpkg, Option.some_inj] at hr
      rw [hr.1, herror, if_neg fun h => hpkg h.1]
      exact (List.append_nil _).symm

/-- Nothing is offered to a struct if each offer goes to what is no struct, or to what is offered. -/
theorem Run.fixesFields {os : List Offer} (h : Run m s os s') (hs : s.Sound)
    (hos : ∀ o ∈ os, o.Inner) (hcontainers : ∀ o ∈ os,
      (∃ x, o.container = some x ∧ s.table.kindOf x ≠ some .struct) ∨
        ∃ o' ∈ os, o.container = o'.symbol) : s.FixesFields s' := by
  refine ⟨os, h.follows hs, fun o ho => ⟨hos o ho, fun y hy hk => ?_⟩⟩
  rcases hcontainers o ho with ⟨x, hx, hne⟩ | ⟨o', ho', hsymbol⟩
  · cases hx.symm.trans hy
    exact hne hk
  · obtain ⟨sym, hsym, _⟩ := Option.map_eq_some_iff.1 hk
    have hnone := (h.fresh hs).2 o' ho' y (hsymbol.symm.trans hy)
    exact absurd (hsym.symm.trans hnone) (Option.some_ne_none sym)

end Store

namespace VarDecl

/-- Resolving a receiver reports what is to be said of it. -/
theorem others_resolveReceiver (receiver : VarDecl) (method : Ident) (h : site.At c m s)
    (hpackage : s.table.pkgOf site.package = some site.pkg) (ht : s.table.Stratified)
    (hu : u.Sound) (hfixes : u.Fixes s) (hpkg : (u.table.pkgOf site.package).isSome) :
    (receiver.resolveReceiver site method s).2.others =
      s.others ++ receiver.receiverReports u site.package method := by
  obtain ⟨hrun, _, hr⟩ := receiver.type.run_resolve (m := m) h.sound h.inside
  have hf := hrun.follows h.sound
  have hfixes₁ := hfixes.follows hf fun o ho => absurd ho List.not_mem_nil
  have hlog := TypeRef.log_resolve h.sound h.inside receiver.type
  obtain ⟨ty, hty, hmeans⟩ := hr.means
  rw [TypeRef.resolve_fst_ty] at hty
  cases hty
  have hbare := receiver.type.bare_resolve site.scope s
  cases hres : receiver.type.resolve site.scope s with
  | mk resolved s₁ =>
    obtain ⟨type, ty⟩ := resolved
    rw [hres] at hf hfixes₁ hlog hmeans hbare hrun
    have htype : type.bare = receiver.type.bare := hbare
    have hothers : s₁.others = s.others ++ type.reports u site.package := by
      rw [others, hlog, Log.others_append, others_reports, hfixes.reports_eq hu,
        ← TypeRef.reports_bare, ← htype, TypeRef.reports_bare]
      rfl
    have hproblem := hf.sound.receiverProblem?_eq (hrun.stratified ht)
      (hf.grows.table.pkgOf hpackage) (r := { receiver with type }) hmeans method
    have hreports := hfixes₁.receiverReports_eq hu hpkg method { receiver with type }
    have hwritten : ({ receiver with type } : VarDecl).receiverReports u site.package method =
        receiver.receiverReports u site.package method := by
      rw [← receiverReports_bare, ← receiverReports_bare u site.package method receiver, bare, bare,
        htype]
    rw [← hwritten, ← hreports, receiverReports, ← hproblem, hfixes₁.reports_eq hu,
      ← List.append_assoc, ← hothers]
    cases hp : s₁.receiverProblem? site.pkg method ty with
    | none =>
      rw [resolveReceiver_of_none hres hp]
      exact (List.append_nil _).symm
    | some problem =>
      obtain ⟨_, hcode⟩ := receiverProblem?_concernsTypes hp
      rw [resolveReceiver_of_some hres hp]
      exact others_report (fun heq => absurd (heq ▸ hcode) (by decide)) receiver.span s₁

end VarDecl

namespace Callable

/-- Entering a function without a receiver reports what is to be said of it. -/
theorem others_enterNamed {f : Callable} (hreceiver : f.head.receiver = none) (h : site.At c m s)
    (hu : u.Sound) (hfixes : u.Fixes s) :
    (f.enterFunction site s).2.others = s.others ++ f.reports u site.package := by
  have hintern : Run m s [] (Store.intern f.head.name.text s).2 := .intern s _
  have hf := hintern.follows h.sound
  have hk : SymbolKind.function.isCallable := rfl
  have hreceives : f.head.Receives (Store.intern f.head.name.text s).2 site.package .function none :=
    CallableHead.receives_none (by decide) _
  have hentered := others_enter hk hu f (h.mono hf)
    (hfixes.follows hf fun o ho => absurd ho List.not_mem_nil) (s.names.text?_intern _) hreceives
  unfold enterFunction
  rw [hreceiver]
  exact hentered

/-- A callable offers itself to the scope that it is entered in, and what is in it to what has been
    offered along with it. -/
theorem container_of_mem_offers {container : Option SymbolId} {text : String} {kind : SymbolKind}
    (f : Callable) {o : Offer} (ho : o ∈ f.offers container text kind) :
    o.container = container ∨ ∃ o' ∈ f.offers container text kind, o.container = o'.symbol := by
  rw [offers_eq] at ho ⊢
  rcases List.mem_cons.1 ho with rfl | ho
  · exact .inl rfl
  · rcases f.container_of_mem_innerOffers kind o ho with hc | ⟨o', ho', _, hc⟩
    · exact .inr ⟨_, List.mem_cons_self, hc⟩
    · exact .inr ⟨o', List.mem_cons_of_mem _ ho', hc⟩

end Callable

/-- The site is the top level of a package, the structs of which have had their fields since `u`. -/
structure Site.TopSince (site : Site) (m : Mark) (u s : Store) : Prop extends site.Top m s where
  stratified : s.table.Stratified
  start : site.Top m u
  fixes : u.FixesFields s

/-- What is entered at the top level adds nothing to structs. -/
theorem Site.TopSince.run (h : site.TopSince m u s) {os : List Offer} (hrun : Run m s os s')
    (hos : ∀ o ∈ os, o.Inner) (hcontainers : ∀ o ∈ os,
      (∃ x, o.container = some x ∧ s.table.kindOf x ≠ some .struct) ∨
        ∃ o' ∈ os, o.container = o'.symbol) : site.TopSince m u s' where
  toTop := h.toTop.mono (hrun.follows h.sound)
  stratified := hrun.stratified h.stratified
  start := h.start
  fixes := h.fixes.trans (hrun.fixesFields h.sound hos hcontainers)

/-- A package is no struct. -/
theorem Site.Top.kindOf_ne (h : site.Top m s) : s.table.kindOf site.package ≠ some .struct := by
  rw [h.kindOf]
  nofun

/-- A variable that is entered at the top level adds nothing to structs. -/
theorem VarDecl.topSince_enter (v : VarDecl) (h : site.TopSince m u s) :
    site.TopSince m u (v.enter site s).2 :=
  h.run (v.run_enter h.toAt).1 (fun _ ho => inner_of_mem_offers ho)
    fun _ ho => .inl ⟨_, container_of_mem_offers ho, h.toTop.kindOf_ne⟩

namespace Callable

/-- A function that is entered adds nothing to structs. -/
theorem topSince_enterFunction (f : Callable) (h : site.TopSince m u s) :
    site.TopSince m u (f.enterFunction site s).2 :=
  h.run (f.run_enterFunction h.toAt).1 (inner_functionOffers _) fun _ ho =>
    (container_of_mem_offers _ ho).imp_left fun hc => ⟨_, hc, h.toTop.kindOf_ne⟩

/-- Entering a method whose receiver is resolved reports what is to be said of the method itself, and
    that it is called as a field of its receiver. -/
theorem others_enterResolved (f : Callable) {receiver : VarDecl} {ty : TypeId}
    (h : site.TopSince m u s) (husable : s.Usable ty)
    (hresolved : receiver.type.ResolvedIn s site.package)
    (hreceived : { receiver with ty := some ty }.ReceivedIn s site.package f.head.name) :
    (f.enterResolved site ty receiver s).2.others = s.others ++ f.reports u site.package ++
      receiver.clashReports u site.package f.head.name := by
  have hnone : ∀ o ∈ ([] : List Offer), o.Inner := fun o ho => absurd ho List.not_mem_nil
  have hu := h.start.sound
  have hintern : Run m s [] (Store.intern (methodName receiver.type f.head.name) s).2 := .intern s _
  have hf₁ := hintern.follows h.sound
  have h₁ := h.run hintern hnone fun o ho => absurd ho List.not_mem_nil
  have hk : SymbolKind.method.isCallable := rfl
  have hname := s.names.text?_intern (methodName receiver.type f.head.name)
  have hreceives : (f.withReceiver receiver).head.Receives _ site.package .method (some ty) :=
    CallableHead.Receives.mono ((if_pos rfl).mpr ⟨ty, receiver, rfl, husable, rfl, hresolved⟩)
      hf₁ h.sound hnone
  have hentered := others_enter hk hu (f.withReceiver receiver) h₁.toAt h₁.fixes.fixes hname
    hreceives
  have hwritten : (f.withReceiver receiver).reports u site.package = f.reports u site.package := by
    cases f
    rfl
  have hrun := (run_enter hk (f.withReceiver receiver) h₁.toAt hname hreceives).1
  have hf₂ := hrun.follows h₁.sound
  have h₂ := h₁.run hrun (inner_offers hk _) fun _ ho =>
    (container_of_mem_offers _ ho).imp_left fun hc => ⟨_, hc, h₁.kindOf_ne⟩
  -- The receiver has the type that it should have still when a clash is looked for.
  have hreceived₂ := (hreceived.mono hf₁ h.sound (by rw [h.pkgOf]; rfl) hnone).mono hf₂ h₁.sound
    (by rw [h₁.pkgOf]; rfl) (inner_offers hk _)
  have hclash := h₂.sound.others_checkFieldClash hreceived₂ rfl
  rw [h₂.fixes.clashReports_eq hu (by rw [h.start.pkgOf]; rfl), hentered, hwritten] at hclash
  exact hclash

/-- Entering a function or method reports what is to be said of it. -/
theorem others_enterFunction (f : Callable) (h : site.TopSince m u s) :
    (f.enterFunction site s).2.others = s.others ++ f.functionReports u site.package := by
  have hu := h.start.sound
  rw [functionReports]
  cases hreceiver : f.head.receiver with
  | none => exact others_enterNamed hreceiver h.toAt hu h.fixes.fixes
  | some receiver =>
    obtain ⟨hresolve, husable, hresolved⟩ := receiver.run_resolveReceiver f.head.name h.toAt
    have hreceived := receiver.received_resolveReceiver f.head.name h.toAt h.pkgOf
    have hothers := receiver.others_resolveReceiver f.head.name h.toAt h.pkgOf h.stratified hu
      h.fixes.fixes (by rw [h.start.pkgOf]; rfl)
    have hunbound := receiver.unbound_resolveReceiver site f.head.name s
    have h₁ := h.run hresolve (fun o ho => absurd ho List.not_mem_nil)
      fun o ho => absurd ho List.not_mem_nil
    rw [enterFunction_eq hreceiver]
    generalize receiver.resolveReceiver site f.head.name s = resolved at *
    obtain ⟨⟨receiver', ty⟩, s₁⟩ := resolved
    have hwritten : receiver'.clashReports u site.package f.head.name =
        receiver.clashReports u site.package f.head.name := by
      rw [← VarDecl.clashReports_bare, ← VarDecl.bare_unbound, hunbound, VarDecl.bare_unbound,
        VarDecl.clashReports_bare]
    have hentered := f.others_enterResolved h₁ husable hresolved hreceived
    rw [hothers, hwritten] at hentered
    simp only [← List.append_assoc]
    exact hentered

end Callable

/-! ## Structs, connectors and services -/

namespace Struct

/-- Entering the fields of a struct reports what is to be said of them. -/
theorem others_enterFields (d : Struct) (h : site.Top m s)
    (hd : Declared m s site.package .struct d.symbol) (hu : u.Sound) (hfixes : u.Fixes s) :
    (d.enterFields site s).2.others =
      s.others ++ d.fields.flatMap (·.type.reports u site.package) := by
  have hk : SymbolKind.struct.isType := rfl
  obtain ⟨x, i, _, hi, hsite⟩ := h.inContainer hk hd .struct
  obtain ⟨_, hfields⟩ := others_run_mapM (f := enterField (site.inContainer .struct i))
    (P := fun s => (site.inContainer .struct i).At x m s ∧ u.Fixes s)
    (l := (·.type.reports u site.package)) (fun v _ s h => by
      have hf := (run_enterField v h.1).1.follows h.1.sound
      exact ⟨⟨h.1.mono hf, h.2.follows hf fun _ ho => VarDecl.inner_of_mem_offers ho⟩,
        v.others_enter h.1 hu h.2⟩)
    ⟨hsite, hfixes⟩
  rw [enterFields_eq hi]
  exact (others_setFields ..).trans hfields

end Struct

namespace Connector

theorem name_declare (config : Config) (site : Site) (d : Connector) (s : Store) :
    (d.declare config site s).1.name = d.name := by
  unfold declare
  simp only [run_bind, run_pure]

/-- Declaring a connector reports what is to be said of the name of the connector, as the written type
    of the parameter of its initializer. -/
theorem others_declare (config : Config) (d : Connector) (h : site.Top m s) :
    (d.declare config site s).2.others = s.others ++
      (TypeRef.ofName d.name).reports (d.declare config site s).2 site.package := by
  have hk : SymbolKind.connector.isType := rfl
  obtain ⟨hrun, _⟩ := run_declareContainer h hk d.name d.flags d.span
  have hf := hrun.follows h.sound
  have h₁ := h.mono hf
  have hothers := others_declareContainer site .connector d.name d.flags d.span s
  cases hx : declareContainer site .connector d.name d.flags d.span s with
  | mk x s₁ =>
    rw [hx] at hf h₁ hothers
    have hinit := (d.makeInitializer config).run_enterFunction h₁.toAt
    have hentered := Callable.others_enterNamed (f := d.makeInitializer config) rfl h₁.toAt h₁.sound
      (.refl h₁.sound)
    cases hinitializer : (d.makeInitializer config).enterFunction site s₁ with
    | mk f s₂ =>
      rw [hinitializer] at hinit hentered
      have hreports := (hinit.1.follows h₁.sound).reports_eq h₁.sound
        (Callable.inner_functionOffers _) site.package (.ofName d.name)
      rw [declare_eq hx hinitializer, hreports]
      rw [makeInitializer, Callable.reports_initializer, hothers] at hentered
      exact hentered.trans (congrArg _ (List.append_nil _))

/-- Declaring connectors reports what is to be said of each as a type, also when it is looked up
    later. -/
theorem others_mapM_declare (config : Config) {w : Store} {os : List Offer} (ds : List Connector)
    (h : site.Top m s) (hw : (ds.mapM (·.declare config site) s).2.Follows os w) :
    (ds.mapM (·.declare config site) s).2.others =
      s.others ++ ds.flatMap fun d => (TypeRef.ofName d.name).reports w site.package := by
  induction ds generalizing s with
  | nil => exact (List.append_nil _).symm
  | cons d ds ih =>
    obtain ⟨hrun, hd⟩ := d.run_declare config h
    have h₁ := h.mono (hrun.follows h.sound)
    have hname : ((d.declare config site s).2.bound? site.package d.name.text).isSome := by
      rw [← d.name_declare config site s]
      exact hd.bound
    rw [run_mapM_cons] at hw ⊢
    obtain ⟨hrest, _⟩ := h₁.run_mapM_declare
      (O := fun d : Connector =>
        d.offer (some site.package) :: d.initializerOffers (some site.package))
      (R := fun d s => d.DeclaredIn m config s site.package) (fun hd hf hs => hd.mono hf hs)
      (fun d _ h => d.run_declare config h) ds
    have hsettled := ((hrest.follows h₁.sound).trans hw).reports_ofName_eq h₁.sound hname
    rw [ih h₁ hw, d.others_declare config h, ← hsettled, List.append_assoc, List.flatMap_cons]

/-- Entering the actions of a connector reports what is to be said of them. -/
theorem others_enterActions (d : Connector) (h : site.Top m s)
    (hd : Declared m s site.package .connector d.symbol) (hu : u.Sound) (hfixes : u.Fixes s) :
    (d.enterActions site s).2.others =
      s.others ++ d.actions.flatMap (·.reports u site.package) := by
  have hk : SymbolKind.connector.isType := rfl
  have haction : SymbolKind.action.isCallable := rfl
  obtain ⟨_, i, _, hi, hsite⟩ := h.inContainer hk hd .connector
  have hactions := Callable.others_enterMembers haction (by decide) d.actions hsite hu hfixes
  rw [enterActions_eq hi]
  exact hactions

end Connector

namespace Service

theorem symbol_enterMembers (config : Config) (site : Site) (d : Service) (s : Store) :
    (d.enterMembers config site s).1.symbol = d.symbol := by
  unfold enterMembers
  simp only [run_bind, run_get]
  cases d.symbol.bind ((d.makeInitializer config).enterFunction site s).2.table.scopeOf <;> rfl

/-- What is entered for a service adds nothing to structs. -/
theorem topSince_enterMembers (config : Config) (d : Service) (h : site.TopSince m u s)
    (hd : Declared m s site.package .service d.symbol) :
    site.TopSince m u (d.enterMembers config site s).2 := by
  have hsymbol := d.symbol_enterMembers config site s
  refine h.run (d.run_enterMembers config h.toTop hd).1 (inner_memberOffers _ _) fun o ho => ?_
  rcases List.mem_append.1 ho with ho' | ho'
  · obtain ⟨f, hf, ho'⟩ := List.mem_flatMap.1 ho'
    refine (f.container_of_mem_offers ho').imp (fun hc => ⟨_, hc, h.kindOf_ne⟩) ?_
    rintro ⟨o', ho'', hc⟩
    exact ⟨o', List.mem_append_left _ (List.mem_flatMap.2 ⟨f, hf, ho''⟩), hc⟩
  · obtain ⟨f, hf, ho'⟩ := List.mem_flatMap.1 ho'
    refine (f.container_of_mem_offers ho').imp (fun hc => ?_) ?_
    · obtain ⟨x, sym, _, hx, hsym, hkind, _⟩ := hd
      refine ⟨x, hc.trans (hsymbol.trans hx), ?_⟩
      rw [Table.kindOf, hsym, Option.map_some, hkind]
      decide
    · rintro ⟨o', ho'', hc⟩
      exact ⟨o', List.mem_append_right _ (List.mem_flatMap.2 ⟨f, hf, ho''⟩), hc⟩

/-- Entering the members of a service reports what is to be said of its resources. -/
theorem others_enterMembers (config : Config) (d : Service) (h : site.TopSince m u s)
    (hd : Declared m s site.package .service d.symbol) :
    (d.enterMembers config site s).2.others =
      s.others ++ d.resources.flatMap (·.reports u site.package) := by
  have hk : SymbolKind.service.isType := rfl
  have hresource : SymbolKind.resource.isCallable := rfl
  have hu := h.start.sound
  have hinit := Callable.others_enterNamed (f := d.makeInitializer config) rfl h.toAt hu
    h.fixes.fixes
  rw [show (d.makeInitializer config).reports u site.package = [] from
    Callable.reports_initializer .., List.append_nil] at hinit
  have h₁ := (d.makeInitializer config).topSince_enterFunction h
  have hf₁ := ((d.makeInitializer config).run_enterFunction h.toAt).1.follows h.sound
  generalize hf : (d.makeInitializer config).enterFunction site s = r at *
  obtain ⟨f, s₁⟩ := r
  obtain ⟨_, i, _, hi, hsite⟩ := h₁.inContainer hk (hd.mono hf₁.grows) .service
  have hresources := Callable.others_enterMembers hresource (by decide) d.resources hsite hu
    h₁.fixes.fixes
  rw [enterMembers_eq hf hi]
  rw [hinit] at hresources
  exact hresources

end Service

/-! ## Packages -/

namespace Package

/-- Steps that report nothing. -/
theorem others_run_mapM_of_eq {α β : Type} {f : α → Entry β}
    (hf : ∀ x s, (f x s).2.others = s.others) (xs : List α) (s : Store) :
    (xs.mapM f s).2.others = s.others := by
  induction xs generalizing s with
  | nil => rfl
  | cons x xs ih =>
    rw [run_mapM_cons]
    exact (ih _).trans (hf x s)

variable {config : Config} {p : Package} {structs structs' : List Struct}
  {connectors connectors' : List Connector} {services services' : List Service}
  {functions : List Callable} {vars : List VarDecl} {s₁ s₂ s₃ s₄ s₅ s₆ s₇ s₈ w : Store}

/-- The structs, connectors and services that are declared have the members that they are written
    with. -/
theorem members_declare (h₁ : p.structs.mapM (·.declare site) s = (structs, s₁))
    (h₂ : p.connectors.mapM (·.declare config site) s₁ = (connectors, s₂))
    (h₃ : p.services.mapM (·.declare site) s₂ = (services, s₃)) (g : VarDecl → Log)
    (k : Callable → Log) :
    structs.flatMap (·.fields.flatMap g) = p.structs.flatMap (·.fields.flatMap g) ∧
      connectors.flatMap (·.actions.flatMap k) = p.connectors.flatMap (·.actions.flatMap k) ∧
      services.flatMap (·.resources.flatMap k) = p.services.flatMap (·.resources.flatMap k) := by
  have hstructs : structs.map (·.fields.flatMap g) = p.structs.map (·.fields.flatMap g) :=
    map_eq_of_run_mapM (f := fun d : Struct => d.declare site) (fun _ _ => rfl) h₁
  have hconnectors : connectors.map (·.actions.flatMap k) = p.connectors.map (·.actions.flatMap k) :=
    map_eq_of_run_mapM (f := fun d : Connector => d.declare config site)
      (fun d s => by unfold Connector.declare; simp only [run_bind, run_pure]) h₂
  have hservices : services.map (·.resources.flatMap k) = p.services.map (·.resources.flatMap k) :=
    map_eq_of_run_mapM (f := fun d : Service => d.declare site) (fun _ _ => rfl) h₃
  exact ⟨congrArg List.flatten hstructs, congrArg List.flatten hconnectors,
    congrArg List.flatten hservices⟩

/-- Declaring structs, connectors and services reports what is to be said of connectors as types. -/
theorem others_declare (h : site.Top m s) (h₁ : p.structs.mapM (·.declare site) s = (structs, s₁))
    (h₂ : p.connectors.mapM (·.declare config site) s₁ = (connectors, s₂))
    (h₃ : p.services.mapM (·.declare site) s₂ = (services, s₃)) {os : List Offer}
    (hw : s₃.Follows os w) : s₃.others = s.others ++
      p.connectors.flatMap fun d => (TypeRef.ofName d.name).reports w site.package := by
  have ht₁ := h.mono ((run_mapM_declareStruct h h₁).1.follows h.sound)
  have ht₂ := ht₁.mono ((run_mapM_declareConnector ht₁ h₂).1.follows ht₁.sound)
  have hf₃ := (run_mapM_declareService ht₂ h₃).1.follows ht₂.sound
  have hstructs := others_run_mapM_of_eq (f := fun d : Struct => d.declare site)
    (fun d s => others_declareContainer site .struct d.name d.flags d.span s) p.structs s
  have hservices := others_run_mapM_of_eq (f := fun d : Service => d.declare site)
    (fun d s => others_declareContainer site .service d.name d.flags d.span s) p.services s₂
  have hconnectors := Connector.others_mapM_declare config p.connectors ht₁ (w := w)
    (by rw [h₂]; exact hf₃.trans hw)
  rw [h₁] at hstructs
  rw [h₂] at hconnectors
  rw [h₃] at hservices
  rw [hservices, hconnectors, hstructs]

/-- Entering fields and actions reports what is to be said of them. -/
theorem others_enterContainers (h : site.Top m s₃)
    (hd : Declares m config s₃ site.package structs connectors services)
    (h₄ : structs.mapM (·.enterFields site) s₃ = (structs', s₄))
    (h₅ : connectors.mapM (·.enterActions site) s₄ = (connectors', s₅)) :
    s₅.others = s₃.others ++
      structs.flatMap (fun d => d.fields.flatMap (·.type.reports s₃ site.package)) ++
      connectors.flatMap (fun d => d.actions.flatMap (·.reports s₃ site.package)) := by
  obtain ⟨hs₄, hstructs⟩ := others_run_mapM (f := fun d : Struct => d.enterFields site)
    (P := fun s => site.Top m s ∧ s₃.Fixes s) (fun d hmem s hs => by
      have hdeclared := (hd.struct d hmem).mono hs.2.grows
      have hf := (d.run_enterFields hs.1 hdeclared).1.follows hs.1.sound
      exact ⟨⟨hs.1.mono hf, hs.2.follows hf (Struct.inner_fieldOffers _)⟩,
        d.others_enterFields hs.1 hdeclared h.sound hs.2⟩) ⟨h, .refl h.sound⟩
  rw [h₄] at hs₄ hstructs
  obtain ⟨_, hconnectors⟩ := others_run_mapM (f := fun d : Connector => d.enterActions site)
    (P := fun s => site.Top m s ∧ s₃.Fixes s) (fun d hmem s hs => by
      obtain ⟨_, hfollows, _⟩ := hs.2
      have hdeclared := (hd.connector d hmem).mono hfollows h.sound
      have hf := (d.run_enterActions hs.1 hdeclared).1.follows hs.1.sound
      exact ⟨⟨hs.1.mono hf, hs.2.follows hf (Connector.inner_actionOffers _)⟩,
        d.others_enterActions hs.1 hdeclared.symbol h.sound hs.2⟩) hs₄
  rw [h₅, hstructs] at hconnectors
  exact hconnectors

/-- Entering functions, what is in services, and variables reports what is to be said of them, and
    nothing is added to structs. -/
theorem others_enterRest (h : site.Top m s₅) (ht : s₅.table.Stratified)
    (hd : ∀ d ∈ services, Declared m s₅ site.package .service d.symbol)
    (h₆ : p.functions.mapM (·.enterFunction site) s₅ = (functions, s₆))
    (h₇ : services.mapM (·.enterMembers config site) s₆ = (services', s₇))
    (h₈ : p.vars.mapM (·.enter site) s₇ = (vars, s₈)) :
    site.TopSince m s₅ s₈ ∧ s₈.others = s₅.others ++
      p.functions.flatMap (·.functionReports s₅ site.package) ++
      services.flatMap (fun d => d.resources.flatMap (·.reports s₅ site.package)) ++
      p.vars.flatMap (·.type.reports s₅ site.package) := by
  obtain ⟨hs₆, hfunctions⟩ := others_run_mapM (f := fun f : Callable => f.enterFunction site)
    (P := site.TopSince m s₅)
    (fun f _ s hs => ⟨f.topSince_enterFunction hs, f.others_enterFunction hs⟩)
    ⟨h, ht, h, .refl h.sound⟩
  rw [h₆] at hs₆ hfunctions
  obtain ⟨hs₇, hservices⟩ := others_run_mapM (f := fun d : Service => d.enterMembers config site)
    (P := site.TopSince m s₅) (fun d hmem s hs =>
      have hdeclared := (hd d hmem).mono hs.fixes.fixes.grows
      ⟨d.topSince_enterMembers config hs hdeclared, d.others_enterMembers config hs hdeclared⟩) hs₆
  rw [h₇, hfunctions] at hservices
  rw [h₇] at hs₇
  obtain ⟨hs₈, hvars⟩ := others_run_mapM (f := fun v : VarDecl => v.enter site)
    (P := site.TopSince m s₅) (fun v _ s hs =>
      ⟨v.topSince_enter hs, v.others_enter hs.toAt h.sound hs.fixes.fixes⟩) hs₇
  rw [h₈] at hs₈ hvars
  exact ⟨hs₈, hvars.trans (congrArg (· ++ _) hservices)⟩

/-- Entering the members of a package reports, besides redeclarations, what is to be said of them. -/
theorem others_enterMembers (config : Config) (p : Package) (h : site.Top m s)
    (ht : s.table.Stratified) : (p.enterMembers config site s).2.others =
      s.others ++ p.reports (p.enterMembers config site s).2 site.package := by
  obtain ⟨structs, connectors, services, structs', connectors', functions, services', vars, s₁, s₂,
    s₃, s₄, s₅, s₆, s₇, s₈, h₁, h₂, h₃, h₄, h₅, h₆, h₇, h₈⟩ := p.exists_stages config site s
  rw [enterMembers_eq h₁ h₂ h₃ h₄ h₅ h₆ h₇ h₈]
  obtain ⟨hdeclare, hd⟩ := run_declare h h₁ h₂ h₃
  have hf₃ := hdeclare.follows h.sound
  have ht₃ := h.mono hf₃
  obtain ⟨hcontainers, _⟩ := run_enterContainers ht₃ hd h₄ h₅
  have hf₅ := hcontainers.follows ht₃.sound
  have ht₅ := ht₃.mono hf₅
  have hstratified := hcontainers.stratified (hdeclare.stratified ht)
  obtain ⟨hs₈, hrest⟩ := others_enterRest ht₅ hstratified
    (fun d hd' => (hd.service d hd').mono hf₅.grows) h₆ h₇ h₈
  let f := makeInitializer (s₈.symbolText site.package) p.span vars config
  have hinit := Callable.others_enterNamed (f := f) rfl hs₈.toAt hs₈.sound (.refl hs₈.sound)
  rw [show f.reports s₈ site.package = [] from Callable.reports_initializer ..,
    List.append_nil] at hinit
  have hw := f.topSince_enterFunction hs₈
  rw [show makeInitializer (s₈.symbolText site.package) p.span vars config = f from rfl]
  generalize (f.enterFunction site s₈).2 = w at *
  -- What has been looked up on the way is looked up at the end.
  have hfixes : s₃.Fixes w := Fixes.trans ⟨_, hf₅, fun o ho => (List.mem_append.1 ho).elim
    (Offer.inner_flatMap Struct.inner_fieldOffers _ o)
    (Offer.inner_flatMap Connector.inner_actionOffers _ o)⟩ hw.fixes.fixes
  have hpkg : (s₅.table.pkgOf site.package).isSome := by rw [ht₅.pkgOf]; rfl
  have htypes₃ (r : TypeRef) : r.reports s₃ site.package = r.reports w site.package :=
    (hfixes.reports_eq ht₃.sound _ r).symm
  have htypes₅ (r : TypeRef) : r.reports s₅ site.package = r.reports w site.package :=
    (hw.fixes.fixes.reports_eq ht₅.sound _ r).symm
  have hfunctions (f : Callable) : f.functionReports s₅ site.package =
      f.functionReports w site.package :=
    f.functionReports_congr htypes₅
      (fun method r => (hw.fixes.fixes.receiverReports_eq ht₅.sound hpkg method r).symm)
      (fun method r => (hw.fixes.clashReports_eq ht₅.sound hpkg method r).symm)
  obtain ⟨_, hfollows, _⟩ := hfixes
  have hcontainers := others_enterContainers ht₃ hd h₄ h₅
  rw [hinit, hrest, hcontainers, others_declare h h₁ h₂ h₃ hfollows]
  obtain ⟨hfields, hactions, hresources⟩ := members_declare h₁ h₂ h₃
    (·.type.reports w site.package) (·.reports w site.package)
  simp only [reports, htypes₃, htypes₅, hfunctions, Callable.reports_congr htypes₃,
    Callable.reports_congr htypes₅, hfields, hactions, hresources, List.append_assoc]

end Package

end Binder
