import Binder.Entry.Load
import Binder.Proofs.Twin

/-!
# Twins stay twins

What is done in twin stores, one step after another: the results are the same, but for names, which
are twins, and the stores are twins again. Only a name that is interned is a result that is not the
same in both, so each action is taken through its steps with the twin names at hand.

* `Twins`: what an action does in two twin states.
* `Twins.bind`: a step, and what is done next.
* `Store.Twin.define`, `TypeRef.twins_resolve`, `Callable.twins_enter`,
  `Package.twins_enterMembers`: entering, from the bottom up.
-/

namespace Binder

/-- States with a table of names, of which two can be twins. -/
class Twinned (σ : Type) where
  names : σ → Names
  Twin : σ → σ → Prop

/-- Two stores that are the same up to the places of their texts. -/
structure Store.Twin (s s' : Store) : Prop where
  table : Table.Twin s.names s'.names s.table s'.table
  log : s'.log = s.log

instance : Twinned Store := ⟨Store.names, Store.Twin⟩

/-! ## Actions -/

section

variable {σ α α' β β' : Type} [Twinned σ]

/-- The states `u` and `u'` are twins and come after `s` and `s'`. -/
structure Later (s s' u u' : σ) : Prop where
  twin : Twinned.Twin u u'
  names : (Twinned.names s).texts <+: (Twinned.names u).texts
  names' : (Twinned.names s').texts <+: (Twinned.names u').texts

/-- The actions `m` and `m'` lead from `s` and `s'` to twins and come to results that are related,
    given the names there are then. -/
structure Twins (m : StateM σ α) (m' : StateM σ α') (s s' : σ)
    (R : Names → Names → α → α' → Prop) : Prop where
  later : Later s s' (m s).2 (m' s').2
  result : R (Twinned.names (m s).2) (Twinned.names (m' s').2) (m s).1 (m' s').1

/-- The same result whatever the names are. -/
abbrev Same (_ _ : Names) (a a' : α) : Prop := a' = a

variable {s s' u u' v v' : σ} {m : StateM σ α} {m' : StateM σ α'}
  {R : Names → Names → α → α' → Prop} {Q : Names → Names → β → β' → Prop}

theorem Later.refl (h : Twinned.Twin s s') : Later s s' s s' :=
  ⟨h, List.prefix_rfl, List.prefix_rfl⟩

theorem Later.trans (h : Later s s' u u') (h' : Later u u' v v') : Later s s' v v' :=
  ⟨h'.twin, h.names.trans h'.names, h.names'.trans h'.names'⟩

theorem Later.name (h : Later s s' u u') {n n' : Name}
    (hn : (Twinned.names s).Twin (Twinned.names s') n n') :
    (Twinned.names u).Twin (Twinned.names u') n n' :=
  hn.mono h.names h.names'

namespace Twins

theorem pure (h : Twinned.Twin s s') {a : α} {a' : α'}
    (hR : R (Twinned.names s) (Twinned.names s') a a') :
    Twins (Pure.pure a) (Pure.pure a') s s' R :=
  ⟨.refl h, hR⟩

/-- An action is followed by what is done next with its result. -/
theorem bind {k : α → StateM σ β} {k' : α' → StateM σ β'} (h : Twins m m' s s' R)
    (hk : ∀ a a' u u', Later s s' u u' → R (Twinned.names u) (Twinned.names u') a a' →
      Twins (k a) (k' a') u u' Q) : Twins (m >>= k) (m' >>= k') s s' Q := by
  have hnext := hk _ _ _ _ h.later h.result
  exact ⟨h.later.trans hnext.later, hnext.result⟩

/-- An action with the same result in both states. -/
theorem next {m' : StateM σ α} {k : α → StateM σ β} {k' : α → StateM σ β'}
    (h : Twins m m' s s' Same) (hk : ∀ a u u', Later s s' u u' → Twins (k a) (k' a) u u' Q) :
    Twins (m >>= k) (m' >>= k') s s' Q :=
  h.bind fun a _ u u' hu ha => ha ▸ hk a u u' hu

theorem get {k : σ → StateM σ β} {k' : σ → StateM σ β'} (h : Twins (k s) (k' s') s s' Q) :
    Twins (MonadState.get >>= k) (MonadState.get >>= k') s s' Q :=
  ⟨h.later, h.result⟩

/-- The same is done for each element of a list. -/
theorem mapM {f : β → StateM σ α} {f' : β → StateM σ α'} (l : List β) (h : Twinned.Twin s s')
    (hf : ∀ x ∈ l, ∀ u u', Twinned.Twin u u' → Twins (f x) (f' x) u u' R)
    (hR : ∀ {t t' t₁ t₁'} {a a'}, R t t' a a' → t.texts <+: t₁.texts → t'.texts <+: t₁'.texts →
      R t₁ t₁' a a') :
    Twins (l.mapM f) (l.mapM f') s s' fun t t' => List.Forall₂ (R t t') := by
  induction l generalizing s s' with
  | nil => exact .pure h .nil
  | cons x l ih =>
    rw [List.mapM_cons, List.mapM_cons]
    refine (hf x List.mem_cons_self s s' h).bind fun a a' u u' hu ha => ?_
    refine (ih hu.twin fun y hy => hf y (List.mem_cons_of_mem _ hy)).bind ?_
    intro as as' v v' hv has
    exact .pure hv.twin (.cons (hR ha hv.names hv.names') has)

theorem mapM_same {f f' : β → StateM σ α} (l : List β) (h : Twinned.Twin s s')
    (hf : ∀ x ∈ l, ∀ u u', Twinned.Twin u u' → Twins (f x) (f' x) u u' Same) :
    Twins (l.mapM f) (l.mapM f') s s' Same :=
  have hmap := mapM l h hf fun ha _ _ => ha
  ⟨hmap.later, eq_of_forall₂ hmap.result⟩

end Twins

end

/-! ## What stores are made of -/

namespace Store.Twin

variable {s s' : Store} (h : s.Twin s') {n n' : Name}
include h

theorem symbolText (x : SymbolId) : s'.symbolText x = s.symbolText x :=
  congrArg (Option.getD · "") (map_eq_of_rel (fun _ _ hx => hx.name.text_eq) (h.table.symbol? x))

theorem typeText (id : TypeId) : s'.typeText id = s.typeText id :=
  congrArg (Option.getD · "") (h.table.typeText? id)

theorem intern (text : String) :
    Twins (Store.intern text) (Store.intern text) s s' Names.Twin :=
  have g := s.names.prefix_intern text
  have g' := s'.names.prefix_intern text
  ⟨⟨⟨h.table.mono g g', h.log⟩, g, g'⟩, Names.twin_intern _ _ text⟩

theorem internPackage (path : List String) (version : Option String) :
    Twins (Store.internPackage path version) (Store.internPackage path version) s s'
      PackageName.Twin :=
  have g := (PackageName.ofTexts_spec path version s.names).1
  have g' := (PackageName.ofTexts_spec path version s'.names).1
  ⟨⟨⟨h.table.mono g g', h.log⟩, g, g'⟩, .ofTexts _ _ path version⟩

theorem report (p : Problem) (span : Span) :
    Twins (Store.report p span) (Store.report p span) s s' Same :=
  ⟨⟨⟨h.table, congrArg (· ++ [p.diagnostic span]) h.log⟩, List.prefix_rfl, List.prefix_rfl⟩, rfl⟩

theorem addSymbol {x x' : Symbol} (hx : Symbol.Twin s.names s'.names x x') :
    Twins (Store.addSymbol x) (Store.addSymbol x') s s' Same :=
  have ⟨hid, htable⟩ := h.table.addSymbol hx
  ⟨⟨⟨htable, h.log⟩, List.prefix_rfl, List.prefix_rfl⟩, hid⟩

theorem addScope (owner : SymbolId) (parent : Option ScopeId) :
    Twins (Store.addScope owner parent) (Store.addScope owner parent) s s' Same :=
  have ⟨hid, htable⟩ := h.table.addScope owner parent
  ⟨⟨⟨htable, h.log⟩, List.prefix_rfl, List.prefix_rfl⟩, hid⟩

theorem addPackage {p p' : PackageName} (hp : PackageName.Twin s.names s'.names p p') :
    Twins (Store.addPackage p) (Store.addPackage p') s s' Same :=
  have ⟨hid, htable⟩ := h.table.addPackage hp
  ⟨⟨⟨htable, h.log⟩, List.prefix_rfl, List.prefix_rfl⟩, hid⟩

/-- A symbol is changed, but for its name. -/
theorem modifySymbol (x : SymbolId) {f : Symbol → Symbol}
    (hf : ∀ (x : Symbol) (n : Name), f { x with name := n } = { f x with name := n }) :
    Twins (Store.modifySymbol x f) (Store.modifySymbol x f) s s' Same := by
  refine ⟨⟨⟨h.table.modifySymbol x fun x x' hx => ?_, h.log⟩, List.prefix_rfl, List.prefix_rfl⟩,
    rfl⟩
  have hname : ∀ x : Symbol, (f x).name = x.name := fun x =>
    (congrArg Symbol.name (hf x x.name) :)
  refine ⟨by rw [hname, hname]; exact hx.name, ?_⟩
  rw [hname, hx.eq]
  exact hf x x'.name

theorem newType {ty : Ty} (hty : ∀ x fields, ty ≠ .struct ⟨x, some fields⟩) :
    Twins (Store.newType ty) (Store.newType ty) s s' Same :=
  have ⟨hid, htypes⟩ := h.table.types.alloc (.same hty)
  ⟨⟨⟨h.table.withTypes htypes, h.log⟩, List.prefix_rfl, List.prefix_rfl⟩, hid⟩

theorem arrayOf (element : TypeId) :
    Twins (Store.arrayOf element) (Store.arrayOf element) s s' Same :=
  have ⟨hid, htypes⟩ := h.table.types.arrayOf element
  ⟨⟨⟨h.table.withTypes htypes, h.log⟩, List.prefix_rfl, List.prefix_rfl⟩, hid⟩

theorem setFields (id : TypeId) {fields fields' : List Field}
    (hfields : List.Forall₂ (Field.Twin s.names s'.names) fields fields') :
    Twins (Store.setFields id fields) (Store.setFields id fields') s s' Same := by
  have hset := h.table.types.setFields? id hfields
  cases hr : s.table.types.setFields? id fields with
  | none =>
    cases hr' : s'.table.types.setFields? id fields' with
    | some _ => cases hr' ▸ hr ▸ hset
    | none =>
      have hrun : Store.setFields id fields s = (false, s) := by rw [Store.setFields, hr]
      have hrun' : Store.setFields id fields' s' = (false, s') := by rw [Store.setFields, hr']
      exact ⟨by rw [hrun, hrun']; exact .refl h, by rw [hrun, hrun']⟩
  | some types =>
    cases hr' : s'.table.types.setFields? id fields' with
    | none => cases hr' ▸ hr ▸ hset
    | some types' =>
      rw [hr, hr'] at hset
      cases hset with
      | some htypes =>
      have hrun : Store.setFields id fields s =
          (true, { s with table := { s.table with types } }) := by rw [Store.setFields, hr]
      have hrun' : Store.setFields id fields' s' =
          (true, { s' with table := { s'.table with types := types' } }) := by
        rw [Store.setFields, hr']
      refine ⟨?_, by rw [hrun, hrun']⟩
      rw [hrun, hrun']
      exact ⟨⟨h.table.withTypes htypes, h.log⟩, List.prefix_rfl, List.prefix_rfl⟩

theorem claim (span : Span) (i : ScopeId) (hn : s.names.Twin s'.names n n') (kind : SymbolKind) :
    Twins (Store.claim span i n kind) (Store.claim span i n' kind) s s' Same := by
  refine .get ?_
  have hbound := h.table.bound? i hn
  generalize s.table.bound? i n = o at hbound
  generalize s'.table.bound? i n' = o' at hbound
  rcases hbound with hx | _
  · simp only [hx.span_eq, hn.text_eq]
    exact (h.report _ span).next fun _ _ _ hu => .pure hu.twin rfl
  · exact .pure h rfl

theorem define (span : Span) (i : ScopeId) (hn : s.names.Twin s'.names n n') (x : SymbolId) :
    Twins (Store.define span i n x) (Store.define span i n' x) s s' Same := by
  refine .get ?_
  have hsymbol := h.table.symbol? x
  generalize s.table.symbol? x = o at hsymbol
  generalize s'.table.symbol? x = o' at hsymbol
  rcases hsymbol with hx | _
  · simp only [hx.kind_eq]
    refine (h.claim span i hn _).next fun free u u' hu => ?_
    cases free with
    | false => exact .pure hu.twin rfl
    | true =>
      have htable := Table.Twin.bind hu.twin.table i (hu.name hn) x
      exact ⟨⟨⟨htable, hu.twin.log⟩, List.prefix_rfl, List.prefix_rfl⟩, rfl⟩
  · exact .pure h rfl

/-! ## Resolution -/

theorem typeFound (qualifier : Option Ident) (name : Ident) (outcome : Lookup) :
    Twins (Store.typeFound qualifier name outcome) (Store.typeFound qualifier name outcome) s s'
      Same := by
  rw [Store.typeFound]
  cases outcome.symbol? with
  | some x => exact .get (.pure h (h.table.typeOf x))
  | none => exact (h.report _ _).next fun _ _ _ hu => .pure hu.twin rfl

theorem resolveName (i : ScopeId) (qualifier : Option Ident) (name : Ident) :
    Twins (Store.resolveName i qualifier name) (Store.resolveName i qualifier name) s s' Same := by
  refine (h.intern name.text).bind fun n n' u u' hu hn => ?_
  cases qualifier with
  | none =>
    refine .get ?_
    rw [hu.twin.table.lookup i hn]
    exact hu.twin.typeFound _ _ _
  | some q =>
    refine (hu.twin.intern q.text).bind fun m m' v v' hv hm => .get ?_
    rw [hv.twin.table.importedScope? i hm]
    cases v.table.importedScope? i m with
    | none => exact (hv.twin.report _ _).next fun _ _ _ hw => .pure hw.twin rfl
    | some j =>
      refine .get ?_
      rw [hv.twin.table.lookupMember j (hv.name hn)]
      exact hv.twin.typeFound _ _ _

theorem arrayOrError (element : TypeId) :
    Twins (Store.arrayOrError element) (Store.arrayOrError element) s s' Same := by
  rw [Store.arrayOrError]
  split
  · exact .pure h rfl
  · exact h.arrayOf element

end Store.Twin

theorem TypeRef.twins_resolve {s s' : Store} (h : s.Twin s') (i : ScopeId) (r : TypeRef) :
    Twins (r.resolve i) (r.resolve i) s s' Same := by
  induction r generalizing s s' with
  | primitive p span ty => exact .pure h rfl
  | named qualifier name span ty =>
    exact (h.resolveName i qualifier name).next fun _ _ _ hu => .pure hu.twin rfl
  | array element span ty ih =>
    refine (ih h).next ?_
    rintro ⟨element, inner⟩ u u' hu
    exact (hu.twin.arrayOrError inner).next fun _ _ _ hv => .pure hv.twin rfl

/-! ## Variables -/

namespace VarDecl

variable {s s' : Store} (h : s.Twin s') (site : Site)
include h

theorem twins_enterWith (ty : TypeId) (v : VarDecl) :
    Twins (v.enterWith site ty) (v.enterWith site ty) s s' Same := by
  refine (h.intern _).bind fun n n' u u' hu hn => ?_
  rw [hn.isUnnamed_eq]
  split
  · exact .pure hu.twin rfl
  · refine .get ?_
    rw [hu.twin.table.ownerOf site.scope]
    refine (hu.twin.addSymbol ⟨hn, rfl⟩).next fun x w w' hw => ?_
    refine (hw.twin.define _ site.scope (hw.name hn) x).next fun _ z z' hz => ?_
    exact .pure hz.twin rfl

theorem twins_enter (v : VarDecl) : Twins (v.enter site) (v.enter site) s s' Same := by
  refine (v.type.twins_resolve h site.scope).next ?_
  rintro ⟨type, ty⟩ u u' hu
  exact twins_enterWith hu.twin site ty _

end VarDecl

/-! ## Callables -/

namespace CallableHead

variable {s s' : Store} (h : s.Twin s')
include h

theorem twins_declare (site : Site) (kind : SymbolKind) {n n' : Name}
    (hn : s.names.Twin s'.names n n') (head : CallableHead) :
    Twins (head.declare site kind n) (head.declare site kind n') s s' Same := by
  refine .get ?_
  rw [h.table.ownerOf site.scope]
  refine (h.addSymbol ⟨hn, rfl⟩).next fun x u u' hu => ?_
  refine (hu.twin.addScope x _).next fun i v v' hv => ?_
  refine (hv.twin.define _ site.scope ((hu.trans hv).name hn) x).next fun _ w w' hw => ?_
  exact .pure hw.twin rfl

theorem twins_enterReceiver (site : Site) (ty : Option TypeId) (receiver : Option VarDecl) :
    Twins (enterReceiver site ty receiver) (enterReceiver site ty receiver) s s' Same := by
  cases receiver with
  | none => exact .pure h rfl
  | some r =>
    cases ty with
    | none => exact .pure h rfl
    | some ty =>
      have hr := r.twins_enterWith h site ty
      exact ⟨hr.later, congrArg some hr.result⟩

theorem twins_enterParts (site : Site) (ty : Option TypeId) (head : CallableHead) :
    Twins (head.enterParts site ty) (head.enterParts site ty) s s' Same := by
  have henter : ∀ vs : List VarDecl, ∀ {u u' : Store}, u.Twin u' →
      Twins (vs.mapM (·.enter site)) (vs.mapM (·.enter site)) u u' Same := fun vs _ _ hu =>
    Twins.mapM_same vs hu fun v _ _ _ hv => v.twins_enter hv site
  refine (henter head.params h).next fun params u u' hu => ?_
  refine (twins_enterReceiver hu.twin site ty head.receiver).next fun receiver v v' hv => ?_
  refine (henter head.returns hv.twin).next fun returns w w' hw => ?_
  exact .pure hw.twin rfl

theorem twins_complete (head : CallableHead) (x : SymbolId) (receiver : Option TypeId) :
    Twins (head.complete x receiver) (head.complete x receiver) s s' Same := by
  refine (h.newType (by simp)).next fun ty u u' hu => ?_
  exact hu.twin.modifySymbol x fun _ _ => rfl

end CallableHead

namespace Callable

mutual

theorem twins_enter {s s' : Store} (h : s.Twin s') (site : Site) (kind : SymbolKind) {n n' : Name}
    (hn : s.names.Twin s'.names n n') (receiver : Option TypeId) : ∀ c : Callable,
    Twins (c.enter site kind n receiver) (c.enter site kind n' receiver) s s' Same
  | .mk head workers => by
    rw [enter, enter]
    refine (head.twins_declare h site kind hn).next ?_
    rintro ⟨head, x, i⟩ u u' hu
    refine (head.twins_enterParts hu.twin (site.inCallable x i) receiver).next ?_
    intro head v v' hv
    refine (twins_enterWorkers hv.twin (site.inCallable x i) workers).next fun workers w w' hw => ?_
    refine (head.twins_complete hw.twin x receiver).next fun _ z z' hz => ?_
    exact .pure hz.twin rfl

theorem twins_enterWorkers {s s' : Store} (h : s.Twin s') (site : Site) :
    ∀ workers : List Callable,
      Twins (enterWorkers site workers) (enterWorkers site workers) s s' Same
  | [] => by
    rw [enterWorkers]
    exact .pure h rfl
  | worker :: rest => by
    rw [enterWorkers]
    refine (h.intern _).bind fun n n' u u' hu hn => ?_
    refine (twins_enter hu.twin site .worker hn none worker).next fun worker v v' hv => ?_
    refine (twins_enterWorkers hv.twin site rest).next fun rest w w' hw => ?_
    exact .pure hw.twin rfl

end

variable {s s' : Store} (h : s.Twin s') (site : Site)
include h

theorem twins_enterMembers (kind : SymbolKind) (members : List Callable) :
    Twins (enterMembers site kind members) (enterMembers site kind members) s s' Same :=
  Twins.mapM_same members h fun c _ _ _ hu => (hu.intern _).bind fun _ _ _ _ hv hn =>
    twins_enter hv.twin site kind hn none c

end Callable

/-! ## Functions and methods -/

section

variable {s s' : Store} (h : s.Twin s') (site : Site)
include h

theorem Store.Twin.receiverProblem? (pkg : PackageId) (method : Ident) (ty : TypeId) :
    s'.receiverProblem? pkg method ty = s.receiverProblem? pkg method ty := by
  have hdeclared := h.table.structSymbol ty
  rw [Store.receiverProblem?, Store.receiverProblem?, h.typeText]
  generalize (s.table.types.struct? ty).bind (fun st => s.table.symbol? st.symbol) = o
    at hdeclared
  generalize (s'.table.types.struct? ty).bind (fun st => s'.table.symbol? st.symbol) = o'
    at hdeclared
  rcases hdeclared with hx | _
  · simp only [hx.pkg_eq]
  · rfl

theorem VarDecl.twins_resolveReceiver (method : Ident) (receiver : VarDecl) :
    Twins (receiver.resolveReceiver site method) (receiver.resolveReceiver site method) s s'
      Same := by
  refine (receiver.type.twins_resolve h site.scope).next ?_
  rintro ⟨type, ty⟩ u u' hu
  refine .get ?_
  rw [hu.twin.receiverProblem?]
  cases u.receiverProblem? site.pkg method ty with
  | none => exact .pure hu.twin rfl
  | some problem => exact (hu.twin.report problem _).next fun _ _ _ hv => .pure hv.twin rfl

theorem Store.Twin.checkFieldClash (method : Ident) (receiver : TypeId) :
    Twins (Store.checkFieldClash method receiver) (Store.checkFieldClash method receiver) s s'
      Same := by
  refine .get ?_
  rw [h.table.fieldScope? receiver]
  cases s.table.fieldScope? receiver with
  | none => exact .pure h rfl
  | some i =>
    refine (h.intern method.text).bind fun n n' u u' hu hn => .get ?_
    simp only [hu.twin.table.lookupMember i hn, hu.twin.typeText]
    cases (u.table.lookupMember i n .var).symbol? with
    | none => exact .pure hu.twin rfl
    | some _ => exact hu.twin.report _ _

theorem Callable.twins_enterFunction (f : Callable) :
    Twins (f.enterFunction site) (f.enterFunction site) s s' Same := by
  rw [enterFunction]
  cases f.head.receiver with
  | none =>
    exact (h.intern _).bind fun n n' u u' hu hn =>
      twins_enter hu.twin site .function hn none f
  | some receiver =>
    refine (receiver.twins_resolveReceiver h site f.head.name).next ?_
    rintro ⟨receiver, ty⟩ u u' hu
    refine (hu.twin.intern _).bind fun n n' v v' hv hn => ?_
    refine (twins_enter hv.twin site .method hn (some ty) _).next fun f w w' hw => ?_
    refine (hw.twin.checkFieldClash f.head.name ty).next fun _ z z' hz => ?_
    exact .pure hz.twin rfl

end

/-! ## Members -/

section

variable {s s' : Store} (h : s.Twin s') (site : Site)
include h

theorem Store.Twin.declareContainer (kind : SymbolKind) (ident : Ident) (flags : Flags)
    (span : Span) :
    Twins (Store.declareContainer site kind ident flags span)
      (Store.declareContainer site kind ident flags span) s s' Same := by
  have hty : ∀ symbol x fields, Ty.ofContainer kind symbol ≠ .struct ⟨x, some fields⟩ := by
    cases kind <;> nofun
  refine (h.intern ident.text).bind fun n n' u u' hu hn => .get ?_
  rw [hu.twin.table.ownerOf site.scope]
  refine (hu.twin.addSymbol ⟨hn, rfl⟩).next fun x v v' hv => ?_
  refine (hv.twin.newType (hty x)).next fun ty w w' hw => ?_
  refine (hw.twin.modifySymbol x fun _ _ => rfl).next fun _ y y' hy => ?_
  refine (hy.twin.addScope x _).next fun _ z z' hz => ?_
  have hlater := hv.trans (hw.trans (hy.trans hz))
  refine (hz.twin.define span site.scope (hlater.name hn) x).next fun _ _ _ hlast => ?_
  exact .pure hlast.twin rfl

theorem Struct.twins_declare (d : Struct) : Twins (d.declare site) (d.declare site) s s' Same :=
  (h.declareContainer site .struct d.name d.flags d.span).next fun _ _ _ hu => .pure hu.twin rfl

/-- A field has the same type in both, and its names are twins. -/
theorem Struct.twins_enterField (v : VarDecl) :
    Twins (Struct.enterField site v) (Struct.enterField site v) s s' fun t t' r r' =>
      r'.1 = r.1 ∧ Field.Twin t t' r.2 r'.2 := by
  refine (v.twins_enter h site).next fun v u u' hu => ?_
  exact (hu.twin.intern v.name.text).bind fun n n' w w' hw hn => .pure hw.twin ⟨rfl, hn, rfl⟩

/-- What is in a container that may have its symbol. -/
theorem Store.Twin.scopeOf? (x : Option SymbolId) :
    x.bind s'.table.scopeOf = x.bind s.table.scopeOf := by
  cases x with
  | none => rfl
  | some x => exact h.table.scopeOf x

theorem Struct.twins_enterFields (d : Struct) :
    Twins (d.enterFields site) (d.enterFields site) s s' Same := by
  refine .get ?_
  simp only [h.scopeOf? d.symbol]
  cases d.symbol.bind s.table.scopeOf with
  | none => exact .pure h rfl
  | some i =>
    have hty : (d.symbol.map s'.table.typeOf).getD .error =
        (d.symbol.map s.table.typeOf).getD .error := by
      cases d.symbol with
      | none => rfl
      | some x => exact h.table.typeOf x
    rw [hty]
    refine (Twins.mapM d.fields h (fun v _ _ _ hu => twins_enterField hu _ v)
      fun hr g g' => ⟨hr.1, hr.2.mono g g'⟩).bind fun rs rs' u u' hu hrs => ?_
    have hvars : rs'.map (·.1) = rs.map (·.1) :=
      eq_of_forall₂ (List.forall₂_map_right_iff.2 (List.forall₂_map_left_iff.2
        (hrs.imp fun _ _ hr => hr.1)))
    have hfields : List.Forall₂ (Field.Twin u.names u'.names) (rs.map (·.2)) (rs'.map (·.2)) :=
      List.forall₂_map_right_iff.2 (List.forall₂_map_left_iff.2 (hrs.imp fun _ _ hr => hr.2))
    rw [hvars]
    refine (hu.twin.setFields _ hfields).next fun _ v v' hv => ?_
    exact .pure hv.twin rfl

theorem Connector.twins_declare (config : Config) (d : Connector) :
    Twins (d.declare config site) (d.declare config site) s s' Same := by
  refine (h.declareContainer site .connector d.name d.flags d.span).next fun x u u' hu => ?_
  refine (Callable.twins_enterFunction hu.twin site _).next fun initializer v v' hv => ?_
  exact .pure hv.twin rfl

theorem Connector.twins_enterActions (d : Connector) :
    Twins (d.enterActions site) (d.enterActions site) s s' Same := by
  refine .get ?_
  rw [h.scopeOf? d.symbol]
  cases d.symbol.bind s.table.scopeOf with
  | none => exact .pure h rfl
  | some i => exact (Callable.twins_enterMembers h _ _ _).next fun _ _ _ hu => .pure hu.twin rfl

theorem Service.twins_declare (d : Service) :
    Twins (d.declare site) (d.declare site) s s' Same :=
  (h.declareContainer site .service d.name d.flags d.span).next fun _ _ _ hu => .pure hu.twin rfl

theorem Service.twins_enterMembers (config : Config) (d : Service) :
    Twins (d.enterMembers config site) (d.enterMembers config site) s s' Same := by
  refine (Callable.twins_enterFunction h site _).next fun initializer u u' hu => .get ?_
  simp only [hu.twin.scopeOf? d.symbol]
  cases d.symbol.bind u.table.scopeOf with
  | none => exact .pure hu.twin rfl
  | some i =>
    exact (Callable.twins_enterMembers hu.twin _ _ _).next fun _ _ _ hv => .pure hv.twin rfl

theorem Package.twins_enterMembers (config : Config) (p : Package) :
    Twins (p.enterMembers config site) (p.enterMembers config site) s s' Same := by
  refine (Twins.mapM_same p.structs h fun d _ _ _ hu => d.twins_declare hu site).next ?_
  intro structs s₁ s₁' h₁
  refine (Twins.mapM_same p.connectors h₁.twin fun d _ _ _ hu =>
    d.twins_declare hu site config).next ?_
  intro connectors s₂ s₂' h₂
  refine (Twins.mapM_same p.services h₂.twin fun d _ _ _ hu => d.twins_declare hu site).next ?_
  intro services s₃ s₃' h₃
  refine (Twins.mapM_same structs h₃.twin fun d _ _ _ hu => d.twins_enterFields hu site).next ?_
  intro structs s₄ s₄' h₄
  refine (Twins.mapM_same connectors h₄.twin fun d _ _ _ hu => d.twins_enterActions hu site).next ?_
  intro connectors s₅ s₅' h₅
  refine (Twins.mapM_same p.functions h₅.twin fun f _ _ _ hu =>
    f.twins_enterFunction hu site).next ?_
  intro functions s₆ s₆' h₆
  refine (Twins.mapM_same services h₆.twin fun d _ _ _ hu =>
    d.twins_enterMembers hu site config).next ?_
  intro services s₇ s₇' h₇
  refine (Twins.mapM_same p.vars h₇.twin fun v _ _ _ hu => v.twins_enter hu site).next ?_
  intro vars s₈ s₈' h₈
  refine .get ?_
  rw [h₈.twin.symbolText site.package]
  refine (Callable.twins_enterFunction h₈.twin site _).next fun initializer s₉ s₉' h₉ => ?_
  exact .pure h₉.twin rfl

end

end Binder
