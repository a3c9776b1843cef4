import Binder.Proofs.Entry.Callable

/-!
# Entering functions and methods is a run

A function is entered like any callable. A method is entered under the written type of its receiver,
which is resolved first; whatever comes out of that, the method is entered, and its receiver has a
type that it can have.

* `VarDecl.run_resolveReceiver`: a receiver.
* `Callable.run_enterFunction`: a function or method.
-/

namespace Binder

open Store

variable {m : Mark} {s : Store} {site : Site} {c : SymbolId}

theorem Store.receiverProblem?_concernsTypes {pkg : PackageId} {method : Ident} {ty : TypeId}
    {problem : Problem} (h : s.receiverProblem? pkg method ty = some problem) :
    problem.concernsTypes ∧ problem.code ∈ typeErrorCodes := by
  unfold receiverProblem? at h
  split at h
  · cases h
  split at h
  · cases h
    exact ⟨rfl, (by decide : "E0101" ∈ typeErrorCodes)⟩
  · split at h
    · cases h
    · cases h
      exact ⟨rfl, (by decide : "E0102" ∈ typeErrorCodes)⟩

/-- The written type of a receiver is resolved, and the receiver gets a type that it can have. -/
theorem VarDecl.run_resolveReceiver (receiver : VarDecl) (method : Ident) (h : site.At c m s) :
    Run m s [] (receiver.resolveReceiver site method s).2 ∧
      (receiver.resolveReceiver site method s).2.Usable
        (receiver.resolveReceiver site method s).1.2 ∧
      (receiver.resolveReceiver site method s).1.1.type.ResolvedIn
        (receiver.resolveReceiver site method s).2 site.package := by
  obtain ⟨hrun, hu, hr⟩ := receiver.type.run_resolve (m := m) h.sound h.inside
  have hs₁ := hrun.sound h.sound
  unfold resolveReceiver
  simp only [run_bind, run_get]
  cases hp : (receiver.type.resolve site.scope s).2.receiverProblem? site.pkg method
      (receiver.type.resolve site.scope s).1.2 with
  | none => exact ⟨hrun, hu, hr⟩
  | some problem =>
    obtain ⟨hconcerns, hcode⟩ := receiverProblem?_concernsTypes hp
    have hreport : Run m (receiver.type.resolve site.scope s).2 [] _ :=
      .report _ problem receiver.span hconcerns
    exact ⟨hrun.trans hreport, hs₁.usable_error hcode _,
      hr.mono (hreport.follows hs₁) hs₁ fun o ho => absurd ho List.not_mem_nil⟩

/-- Looking for a clash with a field makes no symbol. -/
theorem Store.run_checkFieldClash (method : Ident) (receiver : TypeId) (s : Store) :
    Run m s [] (checkFieldClash method receiver s).2 := by
  unfold checkFieldClash
  simp only [run_bind, run_get]
  cases s.table.fieldScope? receiver with
  | none => exact .refl s
  | some scope =>
    have hintern : Run m s [] (intern method.text s).2 := .intern s _
    simp only [run_bind, run_get]
    cases ((intern method.text s).2.table.lookupMember scope (intern method.text s).1
      .var).symbol? with
    | none => exact hintern
    | some _ => exact hintern.trans (.report _ _ _ rfl)

namespace Callable

/-- How an entered function or method is called and of which kind it is. -/
theorem functionName_enter (site : Site) (kind : SymbolKind) (name : Name)
    (receiver : Option TypeId) (f : Callable) (s : Store) :
    (f.enter site kind name receiver s).1.functionName = f.functionName ∧
      (f.enter site kind name receiver s).1.functionKind = f.functionKind := by
  have hname := name_enter site kind name receiver f s
  have hreceiver := receiver_enter site kind name receiver f s
  generalize (f.enter site kind name receiver s).1 = g at *
  unfold functionName functionKind
  rw [hname]
  cases hf : f.head.receiver with
  | none =>
    rw [hf, Option.map_none, Option.map_eq_none_iff] at hreceiver
    rw [hreceiver]
    exact ⟨rfl, rfl⟩
  | some r =>
    rw [hf, Option.map_some, Option.map_eq_some_iff] at hreceiver
    obtain ⟨r', hr', htype⟩ := hreceiver
    rw [hr']
    exact ⟨congrArg (methodName · f.head.name) htype, rfl⟩

theorem isCallable_functionKind (f : Callable) : f.functionKind.isCallable := by
  unfold functionKind
  split <;> rfl

theorem inner_functionOffers {container : Option SymbolId} (f : Callable) :
    ∀ o ∈ f.functionOffers container, o.Inner :=
  inner_offers f.isCallable_functionKind f

/-- A function without a receiver is entered under its own name. -/
theorem run_enterNamed {f : Callable} (hreceiver : f.head.receiver = none) (h : site.At c m s) :
    let name := intern f.head.name.text s
    let entered := f.enter site .function name.1 none name.2
    Run m s (entered.1.functionOffers (some c)) entered.2 ∧
      ∀ v ∈ entered.1.functionParts, v.EnteredIn entered.2 site.package := by
  intro name entered
  have hintern : Run m s [] name.2 := .intern s _
  have h₁ := h.mono (hintern.follows h.sound)
  have hk : SymbolKind.function.isCallable := rfl
  have hreceives : f.head.Receives name.2 site.package .function none :=
    CallableHead.receives_none (by decide) _
  obtain ⟨hrun, hentered⟩ := run_enter hk f h₁ (s.names.text?_intern _) hreceives
  have hfunction : f.functionName = f.head.name.text ∧ f.functionKind = .function := by
    unfold functionName functionKind
    rw [hreceiver]
    exact ⟨rfl, rfl⟩
  simp only [entered, functionOffers, functionParts, functionName_enter, hfunction]
  exact ⟨hintern.trans hrun, hentered⟩

/-- A method whose receiver is resolved. -/
def withReceiver (f : Callable) (receiver : VarDecl) : Callable :=
  f.withHead { f.head with receiver := some receiver, flags := f.head.flags.union .attached }

/-- What is done for a method when its receiver is resolved and has got the type `ty`. -/
def enterResolved (site : Site) (ty : TypeId) (receiver : VarDecl) (f : Callable) :
    Entry Callable := do
  let name ← Store.intern (methodName receiver.type f.head.name)
  let entered ← (f.withReceiver receiver).enter site .method name (some ty)
  Store.checkFieldClash f.head.name ty
  pure entered

theorem enterFunction_eq {f : Callable} {receiver : VarDecl} (h : f.head.receiver = some receiver)
    (site : Site) (s : Store) : f.enterFunction site s =
      f.enterResolved site (receiver.resolveReceiver site f.head.name s).1.2
        (receiver.resolveReceiver site f.head.name s).1.1
        (receiver.resolveReceiver site f.head.name s).2 := by
  unfold enterFunction
  rw [h]
  rfl

/-- A method is entered when its receiver is resolved. -/
theorem run_enterResolved (f : Callable) {receiver : VarDecl} {ty : TypeId} (h : site.At c m s)
    (hu : s.Usable ty) (hr : receiver.type.ResolvedIn s site.package) :
    Run m s ((f.enterResolved site ty receiver s).1.functionOffers (some c))
        (f.enterResolved site ty receiver s).2 ∧
      ∀ v ∈ (f.enterResolved site ty receiver s).1.functionParts,
        v.EnteredIn (f.enterResolved site ty receiver s).2 site.package := by
  have hintern : Run m s [] (intern (methodName receiver.type f.head.name) s).2 := .intern s _
  have hf₁ := hintern.follows h.sound
  have h₁ := h.mono hf₁
  have hk : SymbolKind.method.isCallable := rfl
  have hinner : ∀ o ∈ ([] : List Offer), o.Inner := fun o ho => absurd ho List.not_mem_nil
  have hreceives : (f.withReceiver receiver).head.Receives _ site.package .method (some ty) :=
    CallableHead.Receives.mono ((if_pos rfl).mpr ⟨ty, receiver, rfl, hu, rfl, hr⟩) hf₁ h.sound hinner
  obtain ⟨hrun, hentered⟩ := run_enter hk (f.withReceiver receiver) h₁ (s.names.text?_intern _)
    hreceives
  have hf₂ := hrun.follows h₁.sound
  unfold enterResolved
  simp only [run_bind, run_pure, functionOffers, functionParts, functionName_enter]
  have hclash := run_checkFieldClash (m := m) f.head.name ty
    ((f.withReceiver receiver).enter site .method
      (intern (methodName receiver.type f.head.name) s).1 (some ty)
      (intern (methodName receiver.type f.head.name) s).2).2
  have hruns := hintern.trans (hrun.trans hclash)
  rw [List.append_nil] at hruns
  exact ⟨hruns, fun v hv => (hentered v hv).mono (hclash.follows hf₂.sound) hf₂.sound hinner⟩

/-- A function or method is entered. -/
theorem run_enterFunction (f : Callable) (h : site.At c m s) :
    Run m s ((f.enterFunction site s).1.functionOffers (some c)) (f.enterFunction site s).2 ∧
      ∀ v ∈ (f.enterFunction site s).1.functionParts,
        v.EnteredIn (f.enterFunction site s).2 site.package := by
  cases hreceiver : f.head.receiver with
  | none =>
    unfold enterFunction
    rw [hreceiver]
    exact run_enterNamed hreceiver h
  | some receiver =>
    obtain ⟨hresolve, hu, hr⟩ := receiver.run_resolveReceiver f.head.name h
    obtain ⟨hrun, hentered⟩ :=
      run_enterResolved f (h.mono (hresolve.follows h.sound)) hu hr
    rw [enterFunction_eq hreceiver]
    exact ⟨hresolve.trans hrun, hentered⟩

end Callable

end Binder
