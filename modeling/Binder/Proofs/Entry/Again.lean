import Mathlib.Data.List.Forall2
import Binder.Proofs.Entry.Members

/-!
# Entering again

What entering a declaration leaves in it, its symbols, types and modifiers, the types of its written
types and the initializers, is overwritten when it is entered once more, before it is read. So the
declaration that comes out of an entry is entered like the one that went in, in any store.

Two declarations are *alike* if they differ in nothing but what is overwritten. There are two lemmas
for each kind of declaration: what comes out is like what went in, and what is alike is entered
alike.

* `VarDecl.Alike`, `Callable.Alike`, `Struct.Alike` and so on: when declarations are alike.
* `Callable.enterFunction_enterFunction`: functions and methods.
* `Package.alike_enterMembers`, `Package.enterMembers_of_alike`: the members of a package.
-/

namespace Binder

/-! ## One after another -/

section

variable {σ α β : Type}

/-- What is done alike for each element is done alike for all. -/
theorem mapM_eq_of_forall₂ {f g : α → StateM σ β} {xs ys : List α}
    (h : List.Forall₂ (fun x y => g y = f x) xs ys) : ys.mapM g = xs.mapM f := by
  induction h with
  | nil => rfl
  | cons hxy _ ih =>
    funext s
    rw [run_mapM_cons, run_mapM_cons, hxy, ih]

/-- What comes of each element is related to what the element is related to. -/
theorem forall₂_run_mapM_of {α' : Type} {R : α' → α → Prop} {R' : α' → β → Prop}
    {f : α → StateM σ β} (h : ∀ z x s, R z x → R' z (f x s).1) {zs : List α'} {xs : List α}
    (hxs : List.Forall₂ R zs xs) (s : σ) : List.Forall₂ R' zs (xs.mapM f s).1 := by
  induction hxs generalizing s with
  | nil => exact .nil
  | cons hx _ ih =>
    rw [run_mapM_cons]
    exact .cons (h _ _ s hx) (ih _)

/-- What comes of each element is related to it. -/
theorem forall₂_run_mapM {R : α → β → Prop} {f : α → StateM σ β} (h : ∀ x s, R x (f x s).1)
    (xs : List α) (s : σ) : List.Forall₂ R xs (xs.mapM f s).1 :=
  forall₂_run_mapM_of (R := Eq) (fun _ x s hz => hz ▸ h x s) (List.forall₂_same.2 fun _ _ => rfl) s

/-- If related elements have the same effect and come to related results, so do related lists. -/
theorem run_mapM_of_forall₂ {R : α → α → Prop} {R' : β → β → Prop} {f : α → StateM σ β}
    (h : ∀ x y s, R x y → (f y s).2 = (f x s).2 ∧ R' (f x s).1 (f y s).1) {xs ys : List α}
    (hxs : List.Forall₂ R xs ys) (s : σ) :
    (ys.mapM f s).2 = (xs.mapM f s).2 ∧ List.Forall₂ R' (xs.mapM f s).1 (ys.mapM f s).1 := by
  induction hxs generalizing s with
  | nil => exact ⟨rfl, .nil⟩
  | cons hxy _ ih =>
    obtain ⟨hs, hr⟩ := h _ _ s hxy
    obtain ⟨hs', hrest⟩ := ih (f _ s).2
    rw [run_mapM_cons, run_mapM_cons, hs]
    exact ⟨hs', .cons hr hrest⟩

/-- Related elements that are dealt with alike whenever their turn comes, which is as long as `P`
    holds, and `D` holds of the first one. -/
theorem run_mapM_eq_of_forall₂ {R : α → α → Prop} {P : σ → Prop} {D : α → σ → Prop}
    {f : α → StateM σ β} (h : ∀ x y s, P s → D x s → R x y → f y s = f x s)
    (hf : ∀ x s, P s → D x s → P (f x s).2 ∧ ∀ z, D z s → D z (f x s).2) {xs ys : List α}
    (hxs : List.Forall₂ R xs ys) {s : σ} (hs : P s) (hd : ∀ x ∈ xs, D x s) :
    ys.mapM f s = xs.mapM f s := by
  induction hxs generalizing s with
  | nil => rfl
  | @cons x _ _ _ hxy _ ih =>
    have hdx := hd x List.mem_cons_self
    obtain ⟨hP, hD⟩ := hf x s hs hdx
    rw [run_mapM_cons, run_mapM_cons, h _ _ s hs hdx hxy,
      ih hP fun z hz => hD z (hd z (List.mem_cons_of_mem _ hz))]

end

/-! ## Written types and modifiers -/

/-- A type that is resolved is resolved like the written one. -/
theorem TypeRef.resolve_resolve (scope scope' : ScopeId) (r : TypeRef) (s : Store) :
    (r.resolve scope s).1.1.resolve scope' = r.resolve scope' := by
  induction r with
  | primitive | named => rfl
  | array e span ty ih =>
    change (array (e.resolve scope s).1.1 span _).resolve scope' = _
    rw [resolve, ih]
    rfl

theorem Flags.union_union_self (f g : Flags) : (f.union g).union g = f.union g := by
  rw [union, union, UInt16.or_assoc, UInt16.or_self]

theorem Flags.union_none (f : Flags) : f.union .none = f :=
  congrArg Flags.mk (UInt16.or_zero)

/-! ## Variables -/

namespace VarDecl

/-- The variables differ in nothing but what is overwritten when they are entered at a site of the
    given kind. An unnamed variable keeps its symbol. -/
structure Alike (kind : SiteKind) (v w : VarDecl) : Prop where
  eq : w = { v with flags := w.flags, type := w.type, symbol := w.symbol, ty := w.ty }
  flags : (if kind = .struct then w.flags.union .exported else w.flags) =
    if kind = .struct then v.flags.union .exported else v.flags
  type : ∀ scope, w.type.resolve scope = v.type.resolve scope
  symbol : v.name.text = "" → w.symbol = v.symbol

namespace Alike

variable {kind : SiteKind} {v w : VarDecl}

theorem refl (kind : SiteKind) (v : VarDecl) : v.Alike kind v :=
  ⟨rfl, rfl, fun _ => rfl, fun _ => rfl⟩

theorem name (h : v.Alike kind w) : w.name = v.name := by
  rw [h.eq]

theorem span (h : v.Alike kind w) : w.span = v.span := by
  rw [h.eq]

/-- The written types do not matter if they are replaced. -/
theorem withType (h : v.Alike kind w) (t : TypeRef) :
    Alike kind { v with type := t } { w with type := t } where
  eq := by
    rw [h.eq]
  flags := h.flags
  type _ := rfl
  symbol := h.symbol

end Alike

variable {site : Site} {v w : VarDecl}

/-- What comes of entering a variable, in terms of the variable. -/
theorem enterWith_fst (site : Site) (ty : TypeId) (v : VarDecl) (s : Store) :
    ∃ x, (v.enterWith site ty s).1 = { v.typed site ty with symbol := x } ∧
      (v.name.text = "" → x = v.symbol) := by
  unfold enterWith
  simp only [run_bind]
  cases hname : (Store.intern (v.typed site ty).name.text s).1.isUnnamed with
  | true => exact ⟨v.symbol, rfl, fun _ => rfl⟩
  | false =>
    refine ⟨_, rfl, fun htext => ?_⟩
    have hunnamed := (Names.isUnnamed_intern s.names (v.typed site ty).name.text).2 htext
    exact absurd (hname.symm.trans hunnamed) nofun

theorem alike_enterWith (site : Site) (ty : TypeId) (v : VarDecl) (s : Store) :
    v.Alike site.kind (v.enterWith site ty s).1 := by
  obtain ⟨x, heq, hx⟩ := v.enterWith_fst site ty s
  rw [heq]
  refine ⟨rfl, ?_, fun _ => rfl, hx⟩
  simp only [typed]
  split
  · exact Flags.union_union_self _ _
  · rfl

theorem alike_enter (site : Site) (v : VarDecl) (s : Store) :
    v.Alike site.kind (v.enter site s).1 := by
  obtain ⟨heq, hflags, htype, hsymbol⟩ := alike_enterWith site (v.type.resolve site.scope s).1.2
    { v with type := (v.type.resolve site.scope s).1.1 } (v.type.resolve site.scope s).2
  refine ⟨?_, hflags, fun scope => ?_, hsymbol⟩
  · exact heq
  · exact (htype scope).trans (v.type.resolve_resolve site.scope scope s)

/-- Variables that are alike, written types included, are entered alike. -/
theorem enterWith_of_alike (h : v.Alike site.kind w) (htype : w.type = v.type) (ty : TypeId) :
    w.enterWith site ty = v.enterWith site ty := by
  have htyped : w.typed site ty = { v.typed site ty with symbol := w.symbol } := by
    rw [h.eq, htype]
    exact congrArg (fun flags => ({ v.typed site ty with flags, symbol := w.symbol } : VarDecl))
      h.flags
  funext s
  unfold enterWith
  rw [htyped]
  simp only [run_bind]
  cases hname : (Store.intern (v.typed site ty).name.text s).1.isUnnamed with
  | false => rfl
  | true =>
    have htext := (Names.isUnnamed_intern s.names (v.typed site ty).name.text).1 hname
    rw [h.symbol htext]
    rfl

theorem enter_of_alike (h : v.Alike site.kind w) : w.enter site = v.enter site := by
  funext s
  unfold enter
  rw [h.type]
  simp only [run_bind]
  rw [enterWith_of_alike (h.withType (v.type.resolve site.scope s).1.1) rfl]

end VarDecl

/-! ## Callables -/

namespace CallableHead

/-- The callables, their workers aside, differ in nothing but what is overwritten when they are
    entered and get the modifiers `added`. The receiver is left alone if it is not entered. -/
structure Alike (added : Flags) (method : Bool) (h h' : CallableHead) : Prop where
  eq : h' = { h with
    flags := h'.flags, receiver := h'.receiver, params := h'.params, returns := h'.returns
    symbol := h'.symbol }
  flags : h'.flags.union added = h.flags.union added
  params : List.Forall₂ (VarDecl.Alike .callable) h.params h'.params
  returns : List.Forall₂ (VarDecl.Alike .callable) h.returns h'.returns
  receiver : if method then Option.Rel (VarDecl.Alike .callable) h.receiver h'.receiver
    else h'.receiver = h.receiver
  /-- The type of a receiver is resolved before the method is entered. -/
  receiverType : h'.receiver.map (·.type) = h.receiver.map (·.type)

theorem Alike.refl (added : Flags) (method : Bool) (h : CallableHead) : h.Alike added method h where
  eq := rfl
  flags := rfl
  params := List.forall₂_same.2 fun v _ => .refl _ v
  returns := List.forall₂_same.2 fun v _ => .refl _ v
  receiver := by
    split
    · cases h.receiver with
      | none => exact .none
      | some r => exact .some (.refl _ r)
    · rfl
  receiverType := rfl

/-- The modifiers that a callable gets at a site. -/
def added (site : Site) : Flags := if site.publishes then .exported else .none

theorem flags_declare (site : Site) (flags : Flags) :
    (if site.publishes then flags.union .exported else flags) = flags.union (added site) := by
  unfold added
  split
  · rfl
  · exact flags.union_none.symm

variable {site : Site} {method : Bool} {h h' : CallableHead} {ty : Option TypeId}

theorem alike_enterReceiver (hk : site.kind = .callable) (ty : Option TypeId)
    (receiver : Option VarDecl) (s : Store) :
    if ty.isSome then
      Option.Rel (VarDecl.Alike .callable) receiver (enterReceiver site ty receiver s).1
    else (enterReceiver site ty receiver s).1 = receiver := by
  cases ty with
  | none => cases receiver <;> rfl
  | some ty =>
    cases receiver with
    | none => exact .none
    | some r =>
      rw [← hk]
      exact .some (r.alike_enterWith site ty s)

theorem enterReceiver_of_alike (hk : site.kind = .callable) {r r' : Option VarDecl}
    (hr : if ty.isSome then Option.Rel (VarDecl.Alike .callable) r r' else r' = r)
    (htype : r'.map (·.type) = r.map (·.type)) :
    enterReceiver site ty r' = enterReceiver site ty r := by
  cases ty with
  | none => rw [show r' = r from hr]
  | some ty =>
    have hrel : Option.Rel (VarDecl.Alike .callable) r r' := hr
    cases hrel with
    | none => rfl
    | some halike =>
      rw [← hk] at halike
      have hentry := VarDecl.enterWith_of_alike halike (Option.some.inj htype) ty
      rw [enterReceiver, hentry]
      rfl

theorem flags_declared (halike : h.Alike (added site) method h') (x : SymbolId) :
    (h'.declared site x).flags = (h.declared site x).flags :=
  (flags_declare site h'.flags).trans (halike.flags.trans (flags_declare site h.flags).symm)

/-- Callables that are alike stay so when they get their symbols. -/
theorem Alike.declared (halike : h.Alike (added site) method h') (x : SymbolId) :
    (h.declared site x).Alike (added site) method (h'.declared site x) where
  eq := by
    rw [CallableHead.declared, halike.eq]
    rfl
  flags := congrArg (Flags.union · (added site)) (flags_declared halike x)
  params := halike.params
  returns := halike.returns
  receiver := halike.receiver
  receiverType := halike.receiverType

/-- The symbol of a callable is made like that of one which is alike. -/
theorem declare_of_alike (halike : h.Alike (added site) method h') (kind : SymbolKind) (name : Name)
    (s : Store) : h'.declare site kind name s =
      ((h'.declared site (h.declare site kind name s).1.2.1, (h.declare site kind name s).1.2),
        (h.declare site kind name s).2) := by
  have hspan : h'.span = h.span := by rw [halike.eq]
  have hflags := halike.flags
  rw [← flags_declare, ← flags_declare] at hflags
  unfold declare declared
  rw [hflags, hspan]
  rfl

/-- The head of a callable comes out like it went in. -/
theorem alike_enterParts (ty : Option TypeId) (head : CallableHead) (x : SymbolId) (scope : ScopeId)
    (s : Store) : head.Alike (added site) ty.isSome
      ((head.declared site x).enterParts (site.inCallable x scope) ty s).1 := by
  unfold enterParts
  simp only [run_bind, run_pure]
  refine ⟨rfl, ?_, ?_, ?_, alike_enterReceiver rfl ty head.receiver _,
    type_enterReceiver _ ty head.receiver _⟩
  · exact (congrArg (Flags.union · (added site)) (flags_declare site head.flags)).trans
      (Flags.union_union_self _ _)
  · exact forall₂_run_mapM (fun v s => v.alike_enter (site.inCallable x scope) s) head.params s
  · exact forall₂_run_mapM (fun v s => v.alike_enter (site.inCallable x scope) s) head.returns _

/-- The parts of a callable are entered like those of one which is alike. -/
theorem enterParts_of_alike (hk : site.kind = .callable) {added : Flags}
    (halike : h.Alike added ty.isSome h') (hflags : h'.flags = h.flags)
    (hsymbol : h'.symbol = h.symbol) : h'.enterParts site ty = h.enterParts site ty := by
  have hparams : h'.params.mapM (·.enter site) = h.params.mapM (·.enter site) :=
    mapM_eq_of_forall₂ (halike.params.imp fun _ _ hv => VarDecl.enter_of_alike (hk ▸ hv))
  have hreturns : h'.returns.mapM (·.enter site) = h.returns.mapM (·.enter site) :=
    mapM_eq_of_forall₂ (halike.returns.imp fun _ _ hv => VarDecl.enter_of_alike (hk ▸ hv))
  unfold enterParts
  rw [hparams, hreturns, enterReceiver_of_alike hk halike.receiver halike.receiverType, halike.eq,
    hflags, hsymbol]

end CallableHead

namespace Callable

open CallableHead

/-- The callables differ in nothing but what is overwritten when they are entered and get the
    modifiers `added`. -/
structure Alike (added : Flags) (method : Bool) (f f' : Callable) : Prop where
  head : f.head.Alike added method f'.head
  workers : ∀ site : Site, site.kind = .callable →
    enterWorkers site f'.workers = enterWorkers site f.workers

variable {site : Site} {f f' : Callable}

theorem Alike.refl (added : Flags) (method : Bool) (f : Callable) : f.Alike added method f :=
  ⟨.refl _ _ _, fun _ _ => rfl⟩

/-- Callables that are alike are entered alike. -/
theorem enter_of_alike (ty : Option TypeId) (h : f.Alike (added site) ty.isSome f')
    (kind : SymbolKind) (name : Name) : f'.enter site kind name ty = f.enter site kind name ty := by
  obtain ⟨head, workers⟩ := f
  obtain ⟨head', workers'⟩ := f'
  have hhead : head.Alike (added site) ty.isSome head' := h.head
  have hparts : ∀ x scope, (head'.declared site x).enterParts (site.inCallable x scope) ty =
      (head.declared site x).enterParts (site.inCallable x scope) ty := fun x _ =>
    enterParts_of_alike rfl (hhead.declared x) (flags_declared hhead x) rfl
  have hworkers : ∀ x scope, enterWorkers (site.inCallable x scope) workers' =
      enterWorkers (site.inCallable x scope) workers := fun _ _ => h.workers _ rfl
  funext s
  rw [enter, enter]
  simp only [run_bind]
  rw [declare_of_alike hhead, declare_of_alike (.refl (added site) ty.isSome head)]
  simp only [hparts, hworkers]

/-- In a callable, nothing is made public. -/
theorem added_of_callable (hk : site.kind = .callable) : added site = .none := by
  rw [added, Site.publishes, hk]
  rfl

theorem Alike.name {added : Flags} {method : Bool} (h : f.Alike added method f') :
    f'.head.name = f.head.name := by
  rw [h.head.eq]

mutual

/-- A callable comes out like it went in. -/
theorem alike_enter (site : Site) (kind : SymbolKind) (name : Name) (ty : Option TypeId) :
    ∀ (f : Callable) (s : Store), f.Alike (added site) ty.isSome (f.enter site kind name ty s).1
  | mk head workers, s => by
    rw [enter]
    simp only [run_bind]
    rw [declare_of_alike (.refl (added site) ty.isSome head)]
    exact ⟨alike_enterParts ty head _ _ _,
      fun site' hk => enterWorkers_enterWorkers rfl hk workers _⟩

/-- Workers come out so that they are entered alike. -/
theorem enterWorkers_enterWorkers {site site' : Site} (hk : site.kind = .callable)
    (hk' : site'.kind = .callable) : ∀ (workers : List Callable) (s : Store),
    enterWorkers site' (enterWorkers site workers s).1 = enterWorkers site' workers
  | [], _ => rfl
  | worker :: rest, s => by
    have halike := alike_enter site .worker (Store.intern worker.head.name.text s).1 none worker
      (Store.intern worker.head.name.text s).2
    have hrest := enterWorkers_enterWorkers hk hk' rest
    rw [added_of_callable hk, ← added_of_callable hk'] at halike
    have henter := enter_of_alike none halike .worker
    rw [enterWorkers]
    simp only [run_bind, run_pure]
    rw [enterWorkers, halike.name]
    simp only [henter, hrest]
    rfl

end

/-! ### Actions and resources -/

/-- Actions and resources come out like they went in. -/
theorem alike_enterMembers (site : Site) (kind : SymbolKind) (members : List Callable) (s : Store) :
    List.Forall₂ (Callable.Alike (added site) false) members (enterMembers site kind members s).1 :=
  forall₂_run_mapM (fun m _ => m.alike_enter site kind _ none _) members s

theorem enterMembers_of_alike (site : Site) {members members' : List Callable}
    (h : List.Forall₂ (Callable.Alike (added site) false) members members') (kind : SymbolKind) :
    enterMembers site kind members' = enterMembers site kind members :=
  mapM_eq_of_forall₂ (h.imp fun m m' halike => by
    have henter := enter_of_alike none halike kind
    rw [halike.name]
    simp only [henter])

end Callable

/-! ## Functions and methods -/

/-- The receivers of methods that are alike are resolved alike. -/
theorem VarDecl.resolveReceiver_of_alike {kind : SiteKind} {v w : VarDecl} (h : v.Alike kind w)
    (site : Site) (method : Ident) (s : Store) :
    w.resolveReceiver site method s =
      (({ w with type := (v.resolveReceiver site method s).1.1.type },
        (v.resolveReceiver site method s).1.2), (v.resolveReceiver site method s).2) := by
  unfold resolveReceiver
  simp only [run_bind, run_get, h.type, h.span]
  cases (v.type.resolve site.scope s).2.receiverProblem? site.pkg method
    (v.type.resolve site.scope s).1.2 <;> rfl

/-- A receiver is left as it is but for its written type, which is resolved. -/
theorem VarDecl.resolveReceiver_fst (site : Site) (method : Ident) (v : VarDecl) (s : Store) :
    (v.resolveReceiver site method s).1.1 =
      { v with type := (v.type.resolve site.scope s).1.1 } := by
  unfold resolveReceiver
  simp only [run_bind, run_get]
  cases (v.type.resolve site.scope s).2.receiverProblem? site.pkg method
    (v.type.resolve site.scope s).1.2 <;> rfl

/-- A receiver may be resolved before it is compared. -/
theorem VarDecl.Alike.of_resolved {kind : SiteKind} {v w : VarDecl} {scope : ScopeId} {s : Store}
    (h : Alike kind { v with type := (v.type.resolve scope s).1.1 } w) : v.Alike kind w where
  eq := h.eq
  flags := h.flags
  type scope' := (h.type scope').trans (v.type.resolve_resolve scope scope' s)
  symbol := h.symbol

namespace Callable

open CallableHead

variable {site site' : Site} {f f' : Callable}

theorem added_of_not_publishes (h : site.publishes = false) : added site = .none := by
  rw [added, h]
  rfl

/-- A function without a receiver is entered under its own name. -/
theorem enterFunction_of_none (h : f.head.receiver = none) (site : Site) (s : Store) :
    f.enterFunction site s = f.enter site .function (Store.intern f.head.name.text s).1 none
      (Store.intern f.head.name.text s).2 := by
  unfold enterFunction
  rw [h]
  rfl

/-- What comes of a method is like the method, whichever receivers they get that are alike. -/
theorem Alike.withReceiver {r r₁ r' : VarDecl} (h : (f.withReceiver r₁).Alike .none true f')
    (hr : r.Alike .callable r') (htype : r'.type = r.type) :
    (f.withReceiver r).Alike .none true (f'.withReceiver r') where
  head := by
    have heq : f'.head = _ := h.head.eq
    have hflags : f'.head.flags = f.head.flags.union .attached :=
      (f'.head.flags.union_none).symm.trans (h.head.flags.trans (Flags.union_none _))
    refine ⟨?_, ?_, h.head.params, h.head.returns, .some hr, congrArg some htype⟩
    · rw [Callable.withReceiver, heq]
      rfl
    · exact congrArg (Flags.union · .none)
        ((congrArg (Flags.union · .attached) hflags).trans (Flags.union_union_self _ _))
  workers := h.workers

/-- A method that is entered is entered again as it was written. -/
theorem enterFunction_enterResolved (h : site.publishes = false) (h' : site'.publishes = false)
    {r : VarDecl} (hreceiver : f.head.receiver = some r) (scope : ScopeId) (s₀ : Store)
    (ty : TypeId) (s : Store) :
    (f.enterResolved site ty { r with type := (r.type.resolve scope s₀).1.1 } s).1.enterFunction
      site' = f.enterFunction site' := by
  have halike := alike_enter site .method (Store.intern (methodName (r.type.resolve scope s₀).1.1
    f.head.name) s).1 (some ty) (f.withReceiver { r with type := (r.type.resolve scope s₀).1.1 })
    (Store.intern (methodName (r.type.resolve scope s₀).1.1 f.head.name) s).2
  rw [added_of_not_publishes h] at halike
  change Alike .none true _ (f.enterResolved site ty { r with type := _ } s).1 at halike
  generalize (f.enterResolved site ty _ s).1 = f' at *
  have hname : f'.head.name = f.head.name := halike.name
  have hrel : Option.Rel (VarDecl.Alike .callable)
      (some { r with type := (r.type.resolve scope s₀).1.1 }) f'.head.receiver :=
    halike.head.receiver
  cases hr' : f'.head.receiver with
  | none =>
    rw [hr'] at hrel
    cases hrel
  | some r' =>
    rw [hr'] at hrel
    have hr : r.Alike .callable r' := by
      cases hrel with
      | some hrel => exact hrel.of_resolved
    funext s'
    rw [enterFunction_eq hr', enterFunction_eq hreceiver, hname,
      VarDecl.resolveReceiver_of_alike hr, VarDecl.resolveReceiver_of_alike (.refl .callable r)]
    have halike' := halike.withReceiver
      (hr.withType (r.resolveReceiver site' f.head.name s').1.1.type) rfl
    rw [← added_of_not_publishes h'] at halike'
    have henter := enter_of_alike (some (r.resolveReceiver site' f.head.name s').1.2) halike'
      .method
    unfold enterResolved
    simp only [henter, hname]

/-- A function or method that is entered is entered again as it was written. -/
theorem enterFunction_enterFunction (h : site.publishes = false) (h' : site'.publishes = false)
    (f : Callable) (s : Store) : (f.enterFunction site s).1.enterFunction site' =
      f.enterFunction site' := by
  cases hreceiver : f.head.receiver with
  | none =>
    have halike := alike_enter site .function (Store.intern f.head.name.text s).1 none f
      (Store.intern f.head.name.text s).2
    rw [enterFunction_of_none hreceiver]
    generalize (f.enter site .function _ none _).1 = f' at *
    have hnone : f'.head.receiver = none := Eq.trans halike.head.receiver hreceiver
    rw [added_of_not_publishes h, ← added_of_not_publishes h'] at halike
    have henter := enter_of_alike none halike .function
    funext s'
    rw [enterFunction_of_none hnone, enterFunction_of_none hreceiver, halike.name, henter]
  | some r =>
    rw [enterFunction_eq hreceiver, r.resolveReceiver_fst]
    exact enterFunction_enterResolved h h' hreceiver _ _ _ _

end Callable

/-! ## Containers -/

open Store

variable {m : Mark} {s : Store} {site : Site}

namespace Struct

/-- The structs differ in nothing but what is overwritten when they are entered. -/
structure Alike (d d' : Struct) : Prop where
  eq : d' = { d with fields := d'.fields, symbol := d'.symbol }
  fields : List.Forall₂ (VarDecl.Alike .struct) d.fields d'.fields

variable {d d' : Struct}

theorem Alike.refl (d : Struct) : d.Alike d :=
  ⟨rfl, List.forall₂_same.2 fun v _ => .refl _ v⟩

theorem alike_enterFields (site : Site) (d : Struct) (s : Store) :
    d.Alike (d.enterFields site s).1 := by
  unfold enterFields
  simp only [run_bind, run_get]
  cases d.symbol.bind s.table.scopeOf with
  | none => exact .refl d
  | some i =>
    refine ⟨rfl, (List.forall₂_map_right_iff).2 ?_⟩
    exact forall₂_run_mapM (R := fun (v : VarDecl) (r : VarDecl × Field) => v.Alike .struct r.1)
      (f := enterField (site.inContainer .struct i))
      (fun v s => v.alike_enter (site.inContainer .struct i) s) d.fields s

/-- Structs that are alike get their symbols alike. -/
theorem declare_of_alike (h : d.Alike d') (site : Site) (s : Store) :
    d'.declare site s =
      ({ d' with symbol := (d.declare site s).1.symbol }, (d.declare site s).2) := by
  unfold declare
  rw [h.eq]
  rfl

/-- Structs that are alike stay so when they get their symbols, which are the same. -/
theorem alike_declare (h : d.Alike d') (site : Site) (s : Store) :
    (d'.declare site s).2 = (d.declare site s).2 ∧
      (d.declare site s).1.Alike (d'.declare site s).1 ∧
      (d'.declare site s).1.symbol = (d.declare site s).1.symbol := by
  have hself := declare_of_alike (.refl d) site s
  rw [declare_of_alike h, hself]
  refine ⟨rfl, ⟨?_, h.fields⟩, rfl⟩
  rw [h.eq]

/-- Structs that are alike and have the same symbol get their fields alike. -/
theorem enterFields_of_alike (h : site.Top m s)
    (hd : Declared m s site.package .struct d.symbol) (halike : d.Alike d')
    (hsymbol : d'.symbol = d.symbol) : d'.enterFields site s = d.enterFields site s := by
  have hk : SymbolKind.struct.isType := rfl
  obtain ⟨_, i, _, hi, _⟩ := h.inContainer hk hd .struct
  have hfields : d'.fields.mapM (enterField (site.inContainer .struct i)) =
      d.fields.mapM (enterField (site.inContainer .struct i)) :=
    mapM_eq_of_forall₂ (halike.fields.imp fun v w hv => by
      have hv' : v.Alike (site.inContainer .struct i).kind w := hv
      rw [enterField, enterField, VarDecl.enter_of_alike hv'])
  rw [enterFields_eq hi, enterFields_eq (hsymbol ▸ hi), hfields, halike.eq, hsymbol]

variable {ds ds' : List Struct}

theorem mapM_declare_of_alike (h : List.Forall₂ Alike ds ds') (site : Site) (s : Store) :
    (ds'.mapM (·.declare site) s).2 = (ds.mapM (·.declare site) s).2 ∧
      List.Forall₂ (fun d d' => d.Alike d' ∧ d'.symbol = d.symbol) (ds.mapM (·.declare site) s).1
        (ds'.mapM (·.declare site) s).1 :=
  run_mapM_of_forall₂ (f := (declare site ·)) (fun _ _ s hd => alike_declare hd site s) h s

theorem mapM_enterFields_of_alike (h : site.Top m s)
    (hds : List.Forall₂ (fun d d' => d.Alike d' ∧ d'.symbol = d.symbol) ds ds')
    (hd : ∀ d ∈ ds, Declared m s site.package .struct d.symbol) :
    ds'.mapM (·.enterFields site) s = ds.mapM (·.enterFields site) s :=
  run_mapM_eq_of_forall₂ (f := (enterFields site ·)) (P := site.Top m)
    (D := fun (d : Struct) s => Declared m s site.package .struct d.symbol)
    (fun _ _ _ h hd hr => enterFields_of_alike h hd hr.1 hr.2)
    (fun d _ h hd =>
      have hf := (d.run_enterFields h hd).1.follows h.sound
      ⟨h.mono hf, fun _ hz => hz.mono hf.grows⟩) hds h hd

end Struct

namespace Connector

/-- The connectors differ in nothing but what is overwritten when they are entered. -/
structure Alike (d d' : Connector) : Prop where
  eq : d' = { d with actions := d'.actions, initializer := d'.initializer, symbol := d'.symbol }
  actions : List.Forall₂ (Callable.Alike .exported false) d.actions d'.actions

variable {d d' : Connector}

theorem Alike.refl (d : Connector) : d.Alike d :=
  ⟨rfl, List.forall₂_same.2 fun f _ => .refl _ _ f⟩

theorem alike_enterActions (site : Site) (d : Connector) (s : Store) :
    d.Alike (d.enterActions site s).1 := by
  unfold enterActions
  simp only [run_bind, run_get]
  cases d.symbol.bind s.table.scopeOf with
  | none => exact .refl d
  | some i =>
    exact ⟨rfl, Callable.alike_enterMembers (site.inContainer .connector i) .action d.actions s⟩

/-- Connectors that are alike get their symbols and initializers alike. -/
theorem declare_of_alike (h : d.Alike d') (config : Config) (site : Site) (s : Store) :
    d'.declare config site s =
      ({ d' with
          symbol := (d.declare config site s).1.symbol
          initializer := (d.declare config site s).1.initializer },
        (d.declare config site s).2) := by
  have hname : d'.name = d.name ∧ d'.flags = d.flags ∧ d'.span = d.span := by
    rw [h.eq]
    exact ⟨rfl, rfl, rfl⟩
  have hmake : ∀ x, makeInitializer { d' with symbol := x } config =
      makeInitializer { d with symbol := x } config := fun x => by
    rw [h.eq]
    rfl
  unfold declare
  simp only [run_bind, run_pure, hmake]
  simp only [hname]

/-- Connectors that are alike stay so when they get their symbols and initializers, which are the
    same. -/
theorem alike_declare (h : d.Alike d') (config : Config) (site : Site) (s : Store) :
    (d'.declare config site s).2 = (d.declare config site s).2 ∧
      (d.declare config site s).1.Alike (d'.declare config site s).1 ∧
      (d'.declare config site s).1.symbol = (d.declare config site s).1.symbol ∧
      (d'.declare config site s).1.initializer = (d.declare config site s).1.initializer := by
  have hself := declare_of_alike (.refl d) config site s
  rw [declare_of_alike h]
  generalize d.declare config site s = r at *
  obtain ⟨d₁, s₁⟩ := r
  have hd₁ : d₁ = _ := congrArg Prod.fst hself
  refine ⟨rfl, ⟨?_, ?_⟩, rfl, rfl⟩
  · rw [hd₁, h.eq]
  · rw [hd₁]
    exact h.actions

/-- Connectors that are alike and have the same symbol and initializer get their actions alike. -/
theorem enterActions_of_alike (h : site.Top m s)
    (hd : Declared m s site.package .connector d.symbol) (halike : d.Alike d')
    (hsymbol : d'.symbol = d.symbol) (hinit : d'.initializer = d.initializer) :
    d'.enterActions site s = d.enterActions site s := by
  have hk : SymbolKind.connector.isType := rfl
  obtain ⟨_, i, _, hi, _⟩ := h.inContainer hk hd .connector
  have hactions := Callable.enterMembers_of_alike (site.inContainer .connector i) halike.actions
    .action
  unfold enterActions
  simp only [run_bind, run_get]
  rw [hsymbol, hi]
  simp only [run_bind, run_pure, hactions]
  rw [halike.eq, hsymbol, hinit]

variable {ds ds' : List Connector}

theorem mapM_declare_of_alike (h : List.Forall₂ Alike ds ds') (config : Config) (site : Site)
    (s : Store) :
    (ds'.mapM (·.declare config site) s).2 = (ds.mapM (·.declare config site) s).2 ∧
      List.Forall₂ (fun d d' => d.Alike d' ∧ d'.symbol = d.symbol ∧ d'.initializer = d.initializer)
        (ds.mapM (·.declare config site) s).1 (ds'.mapM (·.declare config site) s).1 := by
  refine run_mapM_of_forall₂ (f := (declare config site ·)) (fun d d' s hd => ?_) h s
  exact alike_declare hd config site s

theorem mapM_enterActions_of_alike {config : Config} (h : site.Top m s)
    (hds : List.Forall₂ (fun d d' => d.Alike d' ∧ d'.symbol = d.symbol ∧
      d'.initializer = d.initializer) ds ds')
    (hd : ∀ d ∈ ds, d.DeclaredIn m config s site.package) :
    ds'.mapM (·.enterActions site) s = ds.mapM (·.enterActions site) s :=
  run_mapM_eq_of_forall₂ (f := (enterActions site ·)) (P := site.Top m)
    (D := fun (d : Connector) s => d.DeclaredIn m config s site.package)
    (fun _ _ _ h hd hr => enterActions_of_alike h hd.symbol hr.1 hr.2.1 hr.2.2)
    (fun d _ h hd =>
      have hf := (d.run_enterActions h hd).1.follows h.sound
      ⟨h.mono hf, fun _ hz => hz.mono hf h.sound⟩) hds h hd

end Connector

namespace Service

/-- The services differ in nothing but what is overwritten when they are entered. -/
structure Alike (d d' : Service) : Prop where
  eq : d' = { d with resources := d'.resources, initializer := d'.initializer, symbol := d'.symbol }
  resources : List.Forall₂ (Callable.Alike .exported false) d.resources d'.resources

variable {d d' : Service}

theorem Alike.refl (d : Service) : d.Alike d :=
  ⟨rfl, List.forall₂_same.2 fun f _ => .refl _ _ f⟩

theorem alike_enterMembers (config : Config) (site : Site) (d : Service) (s : Store) :
    d.Alike (d.enterMembers config site s).1 := by
  unfold enterMembers
  simp only [run_bind, run_get]
  cases d.symbol.bind ((d.makeInitializer config).enterFunction site s).2.table.scopeOf with
  | none => exact ⟨rfl, (Alike.refl d).resources⟩
  | some i =>
    exact ⟨rfl, Callable.alike_enterMembers (site.inContainer .service i) .resource d.resources _⟩

theorem declare_of_alike (h : d.Alike d') (site : Site) (s : Store) :
    d'.declare site s =
      ({ d' with symbol := (d.declare site s).1.symbol }, (d.declare site s).2) := by
  unfold declare
  rw [h.eq]
  rfl

/-- Services that are alike stay so when they get their symbols, which are the same. -/
theorem alike_declare (h : d.Alike d') (site : Site) (s : Store) :
    (d'.declare site s).2 = (d.declare site s).2 ∧
      (d.declare site s).1.Alike (d'.declare site s).1 ∧
      (d'.declare site s).1.symbol = (d.declare site s).1.symbol := by
  have hself := declare_of_alike (.refl d) site s
  rw [declare_of_alike h, hself]
  refine ⟨rfl, ⟨?_, h.resources⟩, rfl⟩
  rw [h.eq]

/-- Services that are alike and have the same symbol get their members alike. -/
theorem enterMembers_of_alike (config : Config) (h : site.Top m s)
    (hd : Declared m s site.package .service d.symbol) (halike : d.Alike d')
    (hsymbol : d'.symbol = d.symbol) :
    d'.enterMembers config site s = d.enterMembers config site s := by
  have hk : SymbolKind.service.isType := rfl
  have hinit := ((d.makeInitializer config).run_enterFunction h.toAt).1.follows h.sound
  obtain ⟨_, i, _, hi, _⟩ := (h.mono hinit).inContainer hk (hd.mono hinit.grows) .service
  have hmake : d'.makeInitializer config = d.makeInitializer config := by
    unfold makeInitializer
    rw [halike.eq]
  have hresources := Callable.enterMembers_of_alike (site.inContainer .service i) halike.resources
    .resource
  cases hf : (d.makeInitializer config).enterFunction site s with
  | mk f s₁ =>
    rw [hf] at hi
    have hi' : d'.symbol.bind s₁.table.scopeOf = some i := hsymbol ▸ hi
    rw [enterMembers_eq hf hi, enterMembers_eq (hmake ▸ hf) hi', hresources, halike.eq, hsymbol]

variable {ds ds' : List Service}

theorem mapM_declare_of_alike (h : List.Forall₂ Alike ds ds') (site : Site) (s : Store) :
    (ds'.mapM (·.declare site) s).2 = (ds.mapM (·.declare site) s).2 ∧
      List.Forall₂ (fun d d' => d.Alike d' ∧ d'.symbol = d.symbol) (ds.mapM (·.declare site) s).1
        (ds'.mapM (·.declare site) s).1 :=
  run_mapM_of_forall₂ (f := (declare site ·)) (fun _ _ s hd => alike_declare hd site s) h s

theorem mapM_enterMembers_of_alike (config : Config) (h : site.Top m s)
    (hds : List.Forall₂ (fun d d' => d.Alike d' ∧ d'.symbol = d.symbol) ds ds')
    (hd : ∀ d ∈ ds, Declared m s site.package .service d.symbol) :
    ds'.mapM (·.enterMembers config site) s = ds.mapM (·.enterMembers config site) s :=
  run_mapM_eq_of_forall₂ (f := (enterMembers config site ·)) (P := site.Top m)
    (D := fun (d : Service) s => Declared m s site.package .service d.symbol)
    (fun _ _ _ h hd hr => enterMembers_of_alike config h hd hr.1 hr.2)
    (fun d _ h hd =>
      have hf := (d.run_enterMembers config h hd).1.follows h.sound
      ⟨h.mono hf, fun _ hz => hz.mono hf.grows⟩) hds h hd

end Service

/-! ## Packages -/

/-- The imports say the same; which package was loaded for them does not matter. -/
def Import.Alike (i j : Import) : Prop := ∃ x, j = { i with symbol := x }

namespace Package

/-- The packages differ in nothing but what is overwritten when they are entered. -/
structure Alike (p p' : Package) : Prop where
  eq : p' = { p with
    imports := p'.imports, structs := p'.structs, connectors := p'.connectors
    services := p'.services, functions := p'.functions, vars := p'.vars
    initializer := p'.initializer, symbol := p'.symbol }
  imports : List.Forall₂ Import.Alike p.imports p'.imports
  structs : List.Forall₂ Struct.Alike p.structs p'.structs
  connectors : List.Forall₂ Connector.Alike p.connectors p'.connectors
  services : List.Forall₂ Service.Alike p.services p'.services
  functions : List.Forall₂ (fun f f' => ∀ site : Site, site.publishes = false →
    Callable.enterFunction site f' = f.enterFunction site) p.functions p'.functions
  vars : List.Forall₂ (VarDecl.Alike .package) p.vars p'.vars

theorem Alike.refl (p : Package) : p.Alike p where
  eq := rfl
  imports := List.forall₂_same.2 fun i _ => ⟨i.symbol, rfl⟩
  structs := List.forall₂_same.2 fun d _ => .refl d
  connectors := List.forall₂_same.2 fun d _ => .refl d
  services := List.forall₂_same.2 fun d _ => .refl d
  functions := List.forall₂_same.2 fun _ _ _ _ => rfl
  vars := List.forall₂_same.2 fun v _ => .refl _ v

/-- A package comes out like it went in, its imports aside. -/
theorem alike_enterMembers (config : Config) (hk : site.kind = .package) (p : Package) (s : Store) :
    p.Alike (p.enterMembers config site s).1 := by
  have hpublishes : site.publishes = false := by
    rw [Site.publishes, hk]
    rfl
  unfold enterMembers
  simp only [run_bind, run_get, run_pure]
  refine ⟨rfl, (Alike.refl p).imports, ?_, ?_, ?_, ?_, ?_⟩
  · refine forall₂_run_mapM_of (R := fun (d d' : Struct) => ∃ x, d' = { d with symbol := x })
      (fun d d' s hd => ?_) (forall₂_run_mapM (fun d s => ⟨_, rfl⟩) p.structs s) _
    obtain ⟨x, rfl⟩ := hd
    have halike := Struct.alike_enterFields site { d with symbol := x } s
    exact ⟨halike.eq, halike.fields⟩
  · refine forall₂_run_mapM_of
      (R := fun (d d' : Connector) => ∃ x f, d' = { d with symbol := x, initializer := f })
      (fun d d' s hd => ?_) (forall₂_run_mapM (fun d s =>
        ⟨_, _, congrArg Prod.fst (Connector.declare_of_alike (.refl d) config site s)⟩)
        p.connectors _) _
    obtain ⟨x, f, rfl⟩ := hd
    have halike := Connector.alike_enterActions site { d with symbol := x, initializer := f } s
    exact ⟨halike.eq, halike.actions⟩
  · refine forall₂_run_mapM_of (R := fun (d d' : Service) => ∃ x, d' = { d with symbol := x })
      (fun d d' s hd => ?_) (forall₂_run_mapM (fun d s => ⟨_, rfl⟩) p.services _) _
    obtain ⟨x, rfl⟩ := hd
    have halike := Service.alike_enterMembers config site { d with symbol := x } s
    exact ⟨halike.eq, halike.resources⟩
  · exact forall₂_run_mapM (fun f s site' h' =>
      Callable.enterFunction_enterFunction hpublishes h' f s) p.functions _
  · exact forall₂_run_mapM (fun v s => hk ▸ v.alike_enter site s) p.vars _

/-- Packages that are alike and have the same imports and symbol get their members alike. -/
theorem enterMembers_of_alike (config : Config) {p p' : Package} (h : site.Top m s)
    (halike : p.Alike p') (himports : p'.imports = p.imports) (hsymbol : p'.symbol = p.symbol) :
    p'.enterMembers config site s = p.enterMembers config site s := by
  obtain ⟨structs, connectors, services, structs', connectors', functions, services', vars, s₁, s₂,
    s₃, s₄, s₅, s₆, s₇, s₈, h₁, h₂, h₃, h₄, h₅, h₆, h₇, h₈⟩ := p.exists_stages config site s
  obtain ⟨hdeclare, hd⟩ := run_declare h h₁ h₂ h₃
  have ht₃ := h.mono (hdeclare.follows h.sound)
  have hf₄ := (run_mapM_enterFields ht₃ hd.struct h₄).1.follows ht₃.sound
  have ht₄ := ht₃.mono hf₄
  have hconnectors : ∀ d ∈ connectors, Connector.DeclaredIn m config s₄ site.package d :=
    fun d hd' => (hd.connector d hd').mono hf₄ ht₃.sound
  have hf₅ := (run_mapM_enterActions ht₄ hconnectors h₅).1.follows ht₄.sound
  have ht₅ := ht₄.mono hf₅
  have hf₆ := (run_mapM_enterFunction ht₅ h₆).1.follows ht₅.sound
  have ht₆ := ht₅.mono hf₆
  have hservices : ∀ d ∈ services, Declared m s₆ site.package .service d.symbol := fun d hd' =>
    (((hd.service d hd').mono hf₄.grows).mono hf₅.grows).mono hf₆.grows
  -- First the symbols of structs, connectors and services.
  obtain ⟨hs₁, hr₁⟩ := Struct.mapM_declare_of_alike halike.structs site s
  obtain ⟨hs₂, hr₂⟩ := Connector.mapM_declare_of_alike halike.connectors config site s₁
  obtain ⟨hs₃, hr₃⟩ := Service.mapM_declare_of_alike halike.services site s₂
  rw [h₁] at hs₁ hr₁
  rw [h₂] at hs₂ hr₂
  rw [h₃] at hs₃ hr₃
  generalize h₁' : p'.structs.mapM (·.declare site) s = r₁ at hs₁ hr₁
  generalize h₂' : p'.connectors.mapM (·.declare config site) s₁ = r₂ at hs₂ hr₂
  generalize h₃' : p'.services.mapM (·.declare site) s₂ = r₃ at hs₃ hr₃
  obtain ⟨structs₁, _⟩ := r₁
  obtain ⟨connectors₁, _⟩ := r₂
  obtain ⟨services₁, _⟩ := r₃
  cases hs₁
  cases hs₂
  cases hs₃
  -- Then what is in them, and the other members.
  have h₄' := Struct.mapM_enterFields_of_alike ht₃ hr₁ hd.struct
  have h₅' := Connector.mapM_enterActions_of_alike ht₄ hr₂ hconnectors
  have h₆' : p'.functions.mapM (·.enterFunction site) = p.functions.mapM (·.enterFunction site) :=
    mapM_eq_of_forall₂ (halike.functions.imp fun _ _ hf => hf site h.publishes)
  have h₇' := Service.mapM_enterMembers_of_alike config ht₆ hr₃ hservices
  have h₈' : p'.vars.mapM (·.enter site) = p.vars.mapM (·.enter site) :=
    mapM_eq_of_forall₂ (halike.vars.imp fun _ _ hv => VarDecl.enter_of_alike (h.kind ▸ hv))
  rw [enterMembers_eq h₁ h₂ h₃ h₄ h₅ h₆ h₇ h₈, enterMembers_eq h₁' h₂' h₃' (h₄'.trans h₄)
    (h₅'.trans h₅) ((congrFun h₆' s₅).trans h₆) (h₇'.trans h₇) ((congrFun h₈' s₇).trans h₈),
    halike.eq, himports, hsymbol]

end Package

end Binder
