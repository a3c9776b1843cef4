import Binder.Proofs.Resolve

/-!
# Entering variables and callables is a run

What is entered at a site is offered to the scope of the symbol that the site is in (`Site.At`), and
entering it is a run whose offers can be read off what comes out. The written types that come out
have what they mean in the package, and keep it, for entering variables and callables makes no
types.

* `Store.Run.mapM`: what is entered one after another.
* `VarDecl.run_enter`: a variable.
* `Callable.run_enter`: a callable, with the workers nested in it.
-/

namespace Binder

open Store

/-! ## Sites -/

/-- The site is in the scope of `c`, which is not older than the mark. -/
structure Site.At (site : Site) (c : SymbolId) (m : Mark) (s : Store) : Prop where
  sound : s.Sound
  fresh : m.symbols ≤ c.index
  types : m.types ≤ s.table.types.size
  scopeOf : s.table.scopeOf c = some site.scope
  callable : site.callable = none ∨ site.callable = some c
  pkgOf : s.table.pkgOf c = some site.pkg
  inside : s.table.Inside site.scope site.package

variable {m : Mark} {s s' : Store} {site : Site} {c p : SymbolId}

namespace Site.At

variable (h : site.At c m s)
include h

theorem mono {os : List Offer} (he : s.Follows os s') : site.At c m s' :=
  let g := he.grows.table
  ⟨he.sound, h.fresh, Nat.le_trans h.types g.types_size_le, g.scopeOf h.scopeOf, h.callable,
    g.pkgOf h.pkgOf, h.inside.mono h.sound.linked g⟩

/-- What is declared at the site belongs to `c`. -/
theorem ownerOf : s.table.ownerOf site.scope = some c :=
  h.sound.linked.ownerOf_of_scopeOf h.scopeOf

theorem callable_or_ownerOf : site.callable.or (s.table.ownerOf site.scope) = some c := by
  rw [h.ownerOf]
  rcases h.callable with hc | hc <;> rw [hc] <;> rfl

/-- At a site, a symbol can be made and offered whenever its name has the text of the offer. -/
theorem admits {o : Offer} {name : Name} (hcontainer : o.container = some c)
    (hsymbol : o.symbol = some s.table.nextSymbol) (htext : s.names.text? name = some o.text) :
    s.Admits m o c site.scope name site.pkg :=
  ⟨hcontainer, h.fresh, h.scopeOf, h.pkgOf, hsymbol, htext⟩

/-- A site in the scope of a symbol that belongs to `c`. -/
theorem of_owner {x : SymbolId} {sym : Symbol} {site' : Site} (hx : s.table.symbol? x = some sym)
    (hk : sym.kind ≠ .package) (ho : sym.owner = some c) (hi : sym.scope = some site'.scope)
    (hcallable : site'.callable = none ∨ site'.callable = some x)
    (hpackage : site'.package = site.package) (hpkg : site'.pkg = site.pkg) : site'.At x m s := by
  have hs := h.sound.linked.symbol x sym hx
  have hroot : x ≠ Table.root := fun hr => hk (hs.atRoot hr).1
  obtain ⟨c', k, ho', hlt, _, hp, _⟩ := hs.owner hroot
  cases ho.symm.trans ho'
  have hsite := h.pkgOf.symm.trans (hp hk)
  refine ⟨h.sound, Nat.le_of_lt (Nat.lt_of_le_of_lt h.fresh hlt), h.types, ?_, hcallable, ?_, ?_⟩
  · rw [Table.scopeOf, hx, Option.bind_some, hi]
  · rw [Table.pkgOf, hx, Option.map_some, hpkg, hsite]
  · rw [hpackage]
    exact h.sound.linked.inside_of_owner hx hk ho hi h.scopeOf h.inside

end Site.At

/-- What is entered one after another: `P` holds throughout, and what is known of a result still
    holds at the end, as the results that follow leave it alone. -/
theorem Store.Run.mapM {α β : Type} {f : α → Entry β} {offers : β → List Offer}
    {Q : Offer → Prop} {P : Store → Prop} {R : β → Store → Prop} {xs : List α}
    (hQ : ∀ y, ∀ o ∈ offers y, Q o) (hsound : ∀ {s}, P s → s.Sound)
    (hP : ∀ {s os s'}, s.Follows os s' → P s → P s')
    (hR : ∀ {y s os s'}, s.Follows os s' → (∀ o ∈ os, Q o) → P s → R y s → R y s')
    (hf : ∀ x ∈ xs, ∀ s, P s → Run m s (offers (f x s).1) (f x s).2 ∧ R (f x s).1 (f x s).2)
    {s : Store} (hs : P s) : Run m s ((xs.mapM f s).1.flatMap offers) (xs.mapM f s).2 ∧
      ∀ y ∈ (xs.mapM f s).1, R y (xs.mapM f s).2 := by
  induction xs generalizing s with
  | nil => exact ⟨.refl s, fun y hy => absurd hy List.not_mem_nil⟩
  | cons x xs ih =>
    obtain ⟨hrun, hx⟩ := hf x List.mem_cons_self s hs
    have hs₁ := hP (hrun.follows (hsound hs)) hs
    obtain ⟨hrest, hxs⟩ := ih (fun y hy => hf y (List.mem_cons_of_mem _ hy)) hs₁
    rw [run_mapM_cons, List.flatMap_cons]
    refine ⟨hrun.trans hrest, fun y hy => ?_⟩
    rcases List.mem_cons.1 hy with rfl | hy
    · refine hR (hrest.follows (hsound hs₁)) (fun o ho => ?_) hs₁ hx
      obtain ⟨z, _, hz⟩ := List.mem_flatMap.1 ho
      exact hQ z o hz
    · exact hxs y hy

/-! ## Variables -/

namespace VarDecl

/-- The written type of the variable is resolved in the package `p`, and the variable has a type
    that it can have. -/
structure EnteredIn (s : Store) (p : SymbolId) (v : VarDecl) : Prop where
  type : v.type.ResolvedIn s p
  ty : ∃ ty, v.ty = some ty ∧ s.Usable ty

theorem inner_of_mem_offers {o : Offer} {container : Option SymbolId} {v : VarDecl}
    (h : o ∈ v.offers container) : o.Inner := by
  unfold offers at h
  split at h
  · exact absurd h List.not_mem_nil
  · rw [List.mem_singleton.1 h]
    exact .inl rfl

theorem inner_flatMap_offers (vs : List VarDecl) (container : Option SymbolId) :
    ∀ o ∈ vs.flatMap (·.offers container), o.Inner :=
  Offer.inner_flatMap (fun _ _ ho => inner_of_mem_offers ho) vs

theorem EnteredIn.mono {v : VarDecl} (h : v.EnteredIn s p) {os : List Offer}
    (he : s.Follows os s') (hs : s.Sound) (hos : ∀ o ∈ os, o.Inner) : v.EnteredIn s' p where
  type := h.type.mono he hs hos
  ty :=
    let ⟨ty, hty, hu⟩ := h.ty
    ⟨ty, hty, he.grows.usable hu⟩

/-- Variables that were entered stay entered while further ones are. -/
theorem enteredIn_append {vs vs' : List VarDecl} {os : List Offer}
    (h : ∀ v ∈ vs, v.EnteredIn s p) (hs : s.Sound) (hf : s.Follows os s')
    (hos : ∀ o ∈ os, o.Inner) (h' : ∀ v ∈ vs', v.EnteredIn s' p) :
    ∀ v ∈ vs ++ vs', v.EnteredIn s' p := fun v hv =>
  (List.mem_append.1 hv).elim (fun hv => (h v hv).mono hf hs hos) (h' v)

/-- A variable whose written type is resolved and whose type is known. -/
theorem run_enterWith (v : VarDecl) (h : site.At c m s) {ty : TypeId} (hu : s.Usable ty)
    (hr : v.type.ResolvedIn s site.package) :
    Run m s ((v.enterWith site ty s).1.offers (some c)) (v.enterWith site ty s).2 ∧
      (v.enterWith site ty s).1.EnteredIn (v.enterWith site ty s).2 site.package := by
  have hintern : Run m s [] (Store.intern (v.typed site ty).name.text s).2 := .intern s _
  have he := hintern.follows h.sound
  have h₁ := h.mono he
  have hu₁ := he.grows.usable hu
  have hname : (Store.intern (v.typed site ty).name.text s).2.names.text?
      (Store.intern (v.typed site ty).name.text s).1 = some v.name.text := s.names.text?_intern _
  have hunnamed : (Store.intern (v.typed site ty).name.text s).1.isUnnamed = true ↔
      v.name.text = "" := s.names.isUnnamed_intern _
  unfold enterWith
  simp only [run_bind]
  split
  · next hempty =>
    have hoffers : VarDecl.offers (some c) (v.typed site ty) = [] := if_pos (hunnamed.1 hempty)
    rw [run_pure, hoffers]
    exact ⟨hintern, EnteredIn.mono ⟨hr, ty, rfl, hu⟩ he h.sound
      fun o ho => absurd ho List.not_mem_nil⟩
  · next hnamed =>
    generalize Store.intern (v.typed site ty).name.text s = r at *
    obtain ⟨name, s₁⟩ := r
    let w : VarDecl := { v.typed site ty with symbol := some s₁.table.nextSymbol }
    have hoffers : w.offers (some c) = [w.offer (some c)] :=
      if_neg fun hempty => hnamed (hunnamed.2 hempty)
    have hsymbol : (v.typed site ty).toSymbol site name (s₁.table.ownerOf site.scope) =
        (w.offer (some c)).toSymbol name site.pkg := by
      rw [toSymbol, h₁.callable_or_ownerOf]
      rfl
    have hvar : Run m s₁ [w.offer (some c)] _ := .var (h₁.admits rfl rfl hname) rfl rfl hu₁
    have hrun := hintern.trans hvar
    rw [List.nil_append, ← hoffers] at hrun
    simp only [run_bind, run_get, run_pure, hsymbol]
    exact ⟨hrun, EnteredIn.mono (v := w) ⟨hr, ty, rfl, hu⟩ (hrun.follows h.sound) h.sound
      fun o ho => inner_of_mem_offers ho⟩

/-- The written type of the variable is left alone. -/
theorem type_enterWith (site : Site) (ty : TypeId) (v : VarDecl) (s : Store) :
    (v.enterWith site ty s).1.type = v.type := by
  unfold enterWith
  simp only [run_bind]
  split <;> rfl

/-- A variable that is entered has the type it is entered with, and stands where it stood. -/
theorem enterWith_written (site : Site) (ty : TypeId) (v : VarDecl) (s : Store) :
    (v.enterWith site ty s).1.ty = some ty ∧ (v.enterWith site ty s).1.span = v.span := by
  unfold enterWith
  simp only [run_bind]
  split <;> exact ⟨rfl, rfl⟩

theorem run_enter (v : VarDecl) (h : site.At c m s) :
    Run m s ((v.enter site s).1.offers (some c)) (v.enter site s).2 ∧
      (v.enter site s).1.EnteredIn (v.enter site s).2 site.package := by
  obtain ⟨hresolve, hu, hr⟩ := v.type.run_resolve (m := m) h.sound h.inside
  obtain ⟨hrun, hentered⟩ := VarDecl.run_enterWith
    { v with type := (v.type.resolve site.scope s).1.1 } (h.mono (hresolve.follows h.sound)) hu hr
  exact ⟨hresolve.trans hrun, hentered⟩

/-- Variables are entered one after another. -/
theorem run_mapM_enter (vs : List VarDecl) (h : site.At c m s) :
    Run m s ((vs.mapM (·.enter site) s).1.flatMap (·.offers (some c)))
        (vs.mapM (·.enter site) s).2 ∧
      ∀ v ∈ (vs.mapM (·.enter site) s).1,
        v.EnteredIn (vs.mapM (·.enter site) s).2 site.package :=
  Run.mapM (Q := Offer.Inner) (P := site.At c m)
    (R := fun (v : VarDecl) s => v.EnteredIn s site.package) (fun _ _ ho => inner_of_mem_offers ho)
    (fun h => h.sound) (fun he h => h.mono he) (fun he hos h hv => hv.mono he h.sound hos)
    (fun (v : VarDecl) _ _ h => v.run_enter h) h

end VarDecl

/-! ## Callables -/

namespace CallableHead

/-- What a method receives: a type that is known, and a receiver whose written type is resolved.
    Other callables receive nothing. -/
def Receives (s : Store) (p : SymbolId) (kind : SymbolKind) (ty : Option TypeId)
    (h : CallableHead) : Prop :=
  if kind = .method then
    ∃ τ r, ty = some τ ∧ s.Usable τ ∧ h.receiver = some r ∧ r.type.ResolvedIn s p
  else ty = none

theorem receives_none {kind : SymbolKind} (hk : kind ≠ .method) (head : CallableHead) :
    head.Receives s p kind none := by
  rw [Receives, if_neg hk]

theorem Receives.mono {kind : SymbolKind} {ty : Option TypeId} {head : CallableHead}
    (h : head.Receives s p kind ty) {os : List Offer} (he : s.Follows os s') (hs : s.Sound)
    (hos : ∀ o ∈ os, o.Inner) : head.Receives s' p kind ty := by
  unfold Receives at h ⊢
  split
  · next hk =>
    rw [if_pos hk] at h
    obtain ⟨τ, r, hty, hu, hreceiver, hr⟩ := h
    exact ⟨τ, r, hty, he.grows.usable hu, hreceiver, hr.mono he hs hos⟩
  · next hk => rwa [if_neg hk] at h

theorem Receives.usable {kind : SymbolKind} {ty : Option TypeId} {head : CallableHead}
    (h : head.Receives s p kind ty) (τ : TypeId) (hτ : ty = some τ) : s.Usable τ := by
  unfold Receives at h
  split at h
  · obtain ⟨τ', _, hτ', hu, _⟩ := h
    cases hτ.symm.trans hτ'
    exact hu
  · exact absurd (h.symm.trans hτ) nofun

theorem Receives.isSome_iff {kind : SymbolKind} {ty : Option TypeId} {head : CallableHead}
    (h : head.Receives s p kind ty) : ty.isSome ↔ kind = .method := by
  unfold Receives at h
  split at h
  · next hk =>
    obtain ⟨τ, _, hτ, _⟩ := h
    exact ⟨fun _ => hk, fun _ => Option.isSome_iff_exists.2 ⟨τ, hτ⟩⟩
  · next hk =>
    rw [h]
    exact ⟨nofun, fun h => absurd h hk⟩

/-- The written type of a receiver is left alone. -/
theorem type_enterReceiver (site : Site) (ty : Option TypeId) (receiver : Option VarDecl)
    (s : Store) : (enterReceiver site ty receiver s).1.map (·.type) = receiver.map (·.type) := by
  unfold enterReceiver
  split
  · rw [run_map, Option.map_some, VarDecl.type_enterWith]
    rfl
  · rfl

/-- The receiver of a method is entered. -/
theorem run_enterReceiver {kind : SymbolKind} {ty : Option TypeId} {head : CallableHead}
    (h : site.At c m s) (hr : head.Receives s site.package kind ty) :
    Run m s
        ((if kind = .method then (enterReceiver site ty head.receiver s).1.toList else []).flatMap
          (·.offers (some c)))
        (enterReceiver site ty head.receiver s).2 ∧
      ∀ v ∈ (if kind = .method then (enterReceiver site ty head.receiver s).1.toList else []),
        v.EnteredIn (enterReceiver site ty head.receiver s).2 site.package := by
  unfold Receives at hr
  split at hr
  · next hk =>
    obtain ⟨τ, r, rfl, hu, hreceiver, hr⟩ := hr
    obtain ⟨hrun, hentered⟩ := r.run_enterWith h hu hr
    rw [if_pos hk, hreceiver]
    simp only [enterReceiver, run_map, Option.toList_some, List.flatMap_singleton,
      List.mem_singleton, forall_eq]
    exact ⟨hrun, hentered⟩
  · next hk =>
    subst hr
    have hnone : enterReceiver site none head.receiver s = (head.receiver, s) := by
      unfold enterReceiver
      cases head.receiver <;> rfl
    simp only [if_neg hk, hnone]
    exact ⟨.refl s, fun v hv => absurd hv List.not_mem_nil⟩

/-- The parts of a callable are entered in its scope. -/
theorem run_enterParts {kind : SymbolKind} {ty : Option TypeId} {head : CallableHead}
    (h : site.At c m s) (hsymbol : head.symbol = some c)
    (hr : head.Receives s site.package kind ty) :
    Run m s ((head.enterParts site ty s).1.partOffers kind) (head.enterParts site ty s).2 ∧
      ∀ v ∈ (head.enterParts site ty s).1.parts kind,
        v.EnteredIn (head.enterParts site ty s).2 site.package := by
  obtain ⟨hparams, hps⟩ := VarDecl.run_mapM_enter head.params h
  have he₁ := hparams.follows h.sound
  have h₁ := h.mono he₁
  obtain ⟨hreceiver, hrs⟩ := run_enterReceiver h₁
    (hr.mono he₁ h.sound (VarDecl.inner_flatMap_offers _ _))
  have he₂ := hreceiver.follows h₁.sound
  have h₂ := h₁.mono he₂
  obtain ⟨hreturns, hts⟩ := VarDecl.run_mapM_enter head.returns h₂
  have he₃ := hreturns.follows h₂.sound
  have hrun := (hparams.trans hreceiver).trans hreturns
  rw [← List.flatMap_append, ← List.flatMap_append] at hrun
  have hprs := VarDecl.enteredIn_append hps h₁.sound he₂ (VarDecl.inner_flatMap_offers _ _) hrs
  refine ⟨?_, VarDecl.enteredIn_append hprs h₂.sound he₃ (VarDecl.inner_flatMap_offers _ _) hts⟩
  rw [partOffers]
  exact hsymbol ▸ hrun

/-- A callable with its symbol. What a connector or service offers is public. -/
def declared (site : Site) (x : SymbolId) (head : CallableHead) : CallableHead :=
  { head with
    flags := if site.publishes then head.flags.union .exported else head.flags
    symbol := some x }

/-- Declaring a callable makes its symbol and offers it. -/
theorem declare_eq (kind : SymbolKind) (name : Name) (text : String) (head : CallableHead)
    (h : site.At c m s) :
    head.declare site kind name s =
      ((head.declared site s.table.nextSymbol, s.table.nextSymbol, s.table.nextScope),
        s.offerNext
          (((head.declared site s.table.nextSymbol).offer (some c) text kind).toSymbol name
            site.pkg)
          site.scope
          (s.table.addOwner
            (((head.declared site s.table.nextSymbol).offer (some c) text kind).toSymbol name
              site.pkg)
            (some site.scope))) := by
  have hmake := Store.addScope_addSymbol s
    (((head.declared site s.table.nextSymbol).offer (some c) text kind).toSymbol name site.pkg)
    (some site.scope)
  simp only [declare, run_bind, run_get, run_pure, h.ownerOf]
  exact congrArg (fun r : ScopeId × Store =>
    ((head.declared site s.table.nextSymbol, s.table.nextSymbol, r.1),
      (define head.span site.scope name s.table.nextSymbol r.2).2)) hmake

/-- The callable `head` is declared at a site in the scope of `c`, under a name with the text `text`:
    it has its symbol, which has no type yet, and what is entered in it is entered around a run. -/
structure DeclaredAt (m : Mark) (site : Site) (c : SymbolId) (kind : SymbolKind) (text : String)
    (receiver : Option TypeId) (head : CallableHead) (s s₀ : Store) : Prop where
  follows : s.Follows [(head.declared site s.table.nextSymbol).offer (some c) text kind] s₀
  inside : (site.inCallable s.table.nextSymbol s.table.nextScope).At s.table.nextSymbol m s₀
  receives : (head.declared site s.table.nextSymbol).Receives s₀ site.package kind receiver
  incomplete : ∃ sym, s₀.table.symbol? s.table.nextSymbol = some sym ∧ sym.ty = none
  run : ∀ {os : List Offer} {s₁ : Store} {signature : Signature} {links : Links}, Run m s₀ os s₁ →
    (∀ ty ∈ signature.types, s₁.Usable ty) → (signature.receiver.isSome ↔ kind = .method) →
    Run m s ((head.declared site s.table.nextSymbol).offer (some c) text kind :: os)
      { s₁ with table := s₁.table.complete s.table.nextSymbol signature links }

theorem declare_spec {kind : SymbolKind} {name : Name} {text : String} {receiver : Option TypeId}
    {head : CallableHead} (hk : kind.isCallable) (h : site.At c m s)
    (hname : s.names.text? name = some text) (hr : head.Receives s site.package kind receiver) :
    ∃ s₀, head.declare site kind name s =
        ((head.declared site s.table.nextSymbol, s.table.nextSymbol, s.table.nextScope), s₀) ∧
      DeclaredAt m site c kind text receiver head s s₀ := by
  let x := s.table.nextSymbol
  let o := (head.declared site x).offer (some c) text kind
  have hadmits : s.Admits m o c site.scope name site.pkg := h.admits rfl rfl hname
  have hmade := hadmits.made_callable h.sound hk rfl
  have hf := hadmits.follows_callable h.sound hk rfl
  let s₀ := s.offerNext (o.toSymbol name site.pkg) site.scope
    (s.table.addOwner (o.toSymbol name site.pkg) (some site.scope))
  have hx : s₀.table.symbol? x = some _ := (hmade.symbol?_offerNext x).trans hmade.symbol?_next
  have hinner : ∀ o' ∈ [o], o'.Inner := fun o' ho' => List.mem_singleton.1 ho' ▸ .inr hk
  have hhead : head.Receives s₀ site.package kind receiver := hr.mono hf h.sound hinner
  exact ⟨s₀, declare_eq kind name text head h, hf,
    (h.mono hf).of_owner hx (SymbolKind.of_isCallable hk).1 rfl rfl (.inr rfl) rfl rfl, hhead,
    ⟨_, hx, rfl⟩, fun hrun hu hm => .callable hadmits hk rfl hrun hu hm⟩

/-- The types in the signature of a callable can be those of its parts. -/
theorem usable_of_mem_signature {kind : SymbolKind} {ty : Option TypeId} {head : CallableHead}
    (h : ∀ v ∈ head.parts kind, v.EnteredIn s p) (hu : ∀ τ, ty = some τ → s.Usable τ) :
    ∀ τ ∈ (head.signature ty).types, s.Usable τ := by
  have hvars : ∀ v ∈ head.parts kind, ∀ τ, v.ty = some τ → s.Usable τ := fun v hv τ hτ => by
    obtain ⟨τ', hτ', hu'⟩ := (h v hv).ty
    cases hτ.symm.trans hτ'
    exact hu'
  intro τ hτ
  rcases List.mem_append.1 hτ with hτ | hτ
  · rcases List.mem_append.1 hτ with hτ | hτ
    · obtain ⟨v, hv, hvτ⟩ := List.mem_filterMap.1 hτ
      exact hvars v (List.mem_append_left _ (List.mem_append_left _ hv)) τ hvτ
    · obtain ⟨v, hv, hvτ⟩ := List.mem_filterMap.1 hτ
      exact hvars v (List.mem_append_right _ hv) τ hvτ
  · exact hu τ (Option.mem_toList.1 hτ)

end CallableHead

namespace Callable

mutual

theorem inner_offers {container : Option SymbolId} {text : String} {kind : SymbolKind}
    (hk : kind.isCallable) : ∀ f : Callable, ∀ o ∈ f.offers container text kind, o.Inner
  | mk head workers => fun o ho => by
    rw [offers] at ho
    rcases List.mem_cons.1 ho with rfl | ho
    · exact .inr hk
    · rcases List.mem_append.1 ho with ho | ho
      · exact VarDecl.inner_flatMap_offers _ _ o ho
      · exact inner_workerOffers workers o ho

theorem inner_workerOffers {container : Option SymbolId} :
    ∀ workers : List Callable, ∀ o ∈ workerOffers container workers, o.Inner
  | [] => fun o ho => absurd ho List.not_mem_nil
  | worker :: rest => fun o ho => by
    rw [workerOffers] at ho
    rcases List.mem_append.1 ho with ho | ho
    · exact inner_offers rfl worker o ho
    · exact inner_workerOffers rest o ho

end

theorem inner_flatMap_memberOffers {kind : SymbolKind} (hk : kind.isCallable)
    (container : Option SymbolId) (members : List Callable) :
    ∀ o ∈ members.flatMap (·.memberOffers container kind), o.Inner :=
  Offer.inner_flatMap (fun f => inner_offers hk f) members

/-- An entered callable is called as before. -/
theorem name_enter (site : Site) (kind : SymbolKind) (name : Name) (receiver : Option TypeId)
    (f : Callable) (s : Store) : (f.enter site kind name receiver s).1.head.name = f.head.name := by
  cases f
  rw [enter]
  rfl

/-- What a callable becomes, in the stages in which it is entered. -/
theorem enter_eq {kind : SymbolKind} {name : Name} {receiver : Option TypeId}
    {head head₀ head' : CallableHead} {workers workers' : List Callable} {x : SymbolId} {i : ScopeId}
    {s s₀ s₁ s₂ : Store} (h₀ : head.declare site kind name s = ((head₀, x, i), s₀))
    (h₁ : head₀.enterParts (site.inCallable x i) receiver s₀ = (head', s₁))
    (h₂ : enterWorkers (site.inCallable x i) workers s₁ = (workers', s₂)) :
    (mk head workers).enter site kind name receiver s = (mk head' workers',
      { s₂ with
        table := s₂.table.complete x (head'.signature receiver) (head'.links receiver) }) := by
  rw [enter]
  simp only [run_bind, run_pure, h₀, h₁, h₂]
  rfl

mutual

/-- Entering a callable under a name with the text `text`. -/
theorem run_enter {kind : SymbolKind} {name : Name} {text : String} {receiver : Option TypeId}
    (hk : kind.isCallable) {s : Store} {site : Site} {c : SymbolId} : ∀ f : Callable,
      site.At c m s → s.names.text? name = some text →
      f.head.Receives s site.package kind receiver →
      Run m s ((f.enter site kind name receiver s).1.offers (some c) text kind)
          (f.enter site kind name receiver s).2 ∧
        ∀ v ∈ (f.enter site kind name receiver s).1.allParts kind,
          v.EnteredIn (f.enter site kind name receiver s).2 site.package
  | mk head workers, h, hname, hr => by
    have hreceives : head.Receives s site.package kind receiver := hr
    obtain ⟨s₀, hdeclare, hd⟩ := CallableHead.declare_spec hk h hname hreceives
    obtain ⟨hparts, hentered⟩ := CallableHead.run_enterParts hd.inside rfl hd.receives
    have hf₁ := hparts.follows hd.inside.sound
    have h₁ := hd.inside.mono hf₁
    obtain ⟨hworkers, hwentered⟩ := run_enterWorkers workers h₁
    have hf₂ := hworkers.follows h₁.sound
    rw [enter_eq hdeclare rfl rfl, offers, allParts]
    -- What is entered in the callable leaves its symbol alone, which gets its type last.
    obtain ⟨sym, hsym, hty⟩ := hd.incomplete
    have hx := hworkers.symbol? h₁.sound (hparts.symbol? hd.inside.sound hsym)
    have hinside := fun v hv => (hentered v hv).mono hf₂ h₁.sound (inner_workerOffers _)
    have husable := CallableHead.usable_of_mem_signature hinside fun τ hτ =>
      (hf₁.grows.trans hf₂.grows).usable (hd.receives.usable τ hτ)
    have hf₃ := hf₂.sound.follows_complete hx hty
    refine ⟨hd.run (hparts.trans hworkers) husable hd.receives.isSome_iff,
      fun v hv => VarDecl.EnteredIn.mono ?_ (hf₃ _ _) hf₂.sound
        fun o ho => absurd ho List.not_mem_nil⟩
    exact (List.mem_append.1 hv).elim (hinside v) (hwentered v)

theorem run_enterWorkers {s : Store} {site : Site} {c : SymbolId} : ∀ workers : List Callable,
      site.At c m s →
      Run m s (workerOffers (some c) (enterWorkers site workers s).1) (enterWorkers site workers s).2 ∧
        ∀ v ∈ workerParts (enterWorkers site workers s).1,
          v.EnteredIn (enterWorkers site workers s).2 site.package
  | [], h => ⟨.refl s, fun v hv => absurd hv List.not_mem_nil⟩
  | worker :: rest, h => by
    have hintern : Run m s [] (Store.intern worker.head.name.text s).2 := .intern s _
    have h₁ := h.mono (hintern.follows h.sound)
    have hk : SymbolKind.worker.isCallable := rfl
    have hreceives : worker.head.Receives (Store.intern worker.head.name.text s).2 site.package
        .worker none := CallableHead.receives_none (by decide) _
    obtain ⟨hworker, hentered⟩ := run_enter hk worker h₁ (s.names.text?_intern _) hreceives
    have hf₂ := hworker.follows h₁.sound
    have h₂ := h₁.mono hf₂
    obtain ⟨hrest, hrentered⟩ := run_enterWorkers rest h₂
    rw [enterWorkers]
    simp only [run_bind, run_pure, workerOffers, name_enter]
    exact ⟨hintern.trans (hworker.trans hrest), VarDecl.enteredIn_append hentered h₂.sound
      (hrest.follows h₂.sound) (inner_workerOffers _) hrentered⟩

end

/-- The written type of a receiver is left alone. -/
theorem receiver_enter (site : Site) (kind : SymbolKind) (name : Name) (receiver : Option TypeId)
    (f : Callable) (s : Store) : (f.enter site kind name receiver s).1.head.receiver.map (·.type) =
      f.head.receiver.map (·.type) := by
  obtain ⟨head, workers⟩ := f
  rw [enter]
  simp only [run_bind, run_pure]
  exact CallableHead.type_enterReceiver _ receiver head.receiver _

/-- The actions of a connector or the resources of a service are entered. -/
theorem run_enterMembers {kind : SymbolKind} (hk : kind.isCallable) (hm : kind ≠ .method)
    (members : List Callable) (h : site.At c m s) :
    Run m s ((enterMembers site kind members s).1.flatMap (·.memberOffers (some c) kind))
        (enterMembers site kind members s).2 ∧
      ∀ f ∈ (enterMembers site kind members s).1, ∀ v ∈ f.allParts kind,
        v.EnteredIn (enterMembers site kind members s).2 site.package := by
  refine Run.mapM (Q := Offer.Inner) (P := site.At c m)
    (R := fun (f : Callable) s => ∀ v ∈ f.allParts kind, v.EnteredIn s site.package)
    (fun f => inner_offers hk f) (fun h => h.sound) (fun hf h => h.mono hf)
    (fun hf hos h hvs v hv => (hvs v hv).mono hf h.sound hos) (fun f _ s h => ?_) h
  have hintern : Run m s [] (Store.intern f.head.name.text s).2 := .intern s _
  have h₁ := h.mono (hintern.follows h.sound)
  obtain ⟨hrun, hentered⟩ := run_enter hk f h₁ (s.names.text?_intern _)
    (CallableHead.receives_none hm _)
  simp only [run_bind, name_enter]
  exact ⟨hintern.trans hrun, hentered⟩

end Callable

end Binder
