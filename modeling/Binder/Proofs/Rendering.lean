import Binder.Proofs.Method
import Binder.Proofs.Resolution

/-!
# Written types and what they are shown as

A type is shown in two ways: as it is written, and by what it is. The latter goes from the type to the
symbol that it names and from there to the name of the symbol. The two agree wherever a written type
is resolved, but for the alias of an import, which is not known to the type. So a method, which is
named after the written type of its receiver, is named after the type that messages show.

* `TypeRef.text_eq`: a written type is the alias in it, if there is one, and the rest.
* `Session.Arises.stratified`: types are made of older ones in every session that comes up.
* `Callable.ShownIn`: how the receiver of a method is shown.
* `Session.texts_agree`: what written types and types are shown as.
-/

namespace Binder

open Store

/-! ## Aliases -/

namespace TypeRef

/-- The alias of an import in a written type, as it is written; it is empty if there is none. -/
def aliasText (r : TypeRef) : String :=
  match r.baseName? with
  | some (some q, _) => q.text ++ ":"
  | _ => ""

theorem text_eq (r : TypeRef) : r.text = r.aliasText ++ r.plainText := by
  induction r with
  | primitive p => exact String.empty_append.symm
  | named qualifier name =>
    cases qualifier with
    | none => exact String.empty_append.symm
    | some q => rfl
  | array element _ _ ih => rw [text, plainText, ih, String.append_assoc]; rfl

end TypeRef

/-! ## Sessions on the way -/

/-- On the way through a run, too, types are made of older ones. -/
theorem Store.Reaches.stratified {m : Mark} {s u : Store} {os : List Offer}
    (h : Reaches m s os u) (hs : s.table.Stratified) : u.table.Stratified := by
  induction h with
  | run h => exact h.stratified hs
  | inside hrun _ _ hty _ ih => exact ih (stratified_callable (hrun.stratified hs) hty)

theorem Session.Arises.stratified {s : Session} (h : s.Arises) : s.store.table.Stratified := by
  induction h with
  | between h => exact h.stratified
  | @during names config library requests m u hm hu =>
    obtain ⟨k, hk⟩ := List.mem_iff_getElem?.1 hm
    have hfair := (segment_moments requests (ready_start names config library)).honest.fair hk
    rcases hu with rfl | ⟨_, _, _, _, _, hreaches⟩
    · exact hfair.ready.stratified
    · exact hreaches.stratified hfair.ready.stratified
  | @resolving s scope r h hscope ih =>
    obtain ⟨sc, hsc⟩ := Option.isSome_iff_exists.1 hscope
    obtain ⟨p, hi⟩ := h.sound.linked.exists_inside hsc
    exact (r.run_resolve (m := s.store.mark) h.sound hi).1.stratified ih

/-! ## Receivers -/

/-- The written type of the receiver `r` of the method `f` is resolved to `ty`, and the method is
    named after what that is shown as. If the receiver is reported, or a field with the name of the
    method is, so is the type shown. -/
structure Callable.ShownIn (s : Store) (x : SymbolId) (f : Callable) (r : VarDecl) (ty : TypeId) :
    Prop where
  symbol : ∃ y sym, f.head.symbol = some y ∧ s.table.symbol? y = some sym ∧
    s.names.text? sym.name =
      some (r.type.aliasText ++ s.typeText ty ++ "." ++ f.head.name.text)
  reported : ∀ d ∈ r.receiverReports s x f.head.name ++ r.clashReports s x f.head.name,
    d ∈ s.log ∧
      (d = (Problem.receiverNotStruct f.head.name.text (s.typeText ty)).diagnostic r.span ∨
        d = (Problem.receiverNotLocal f.head.name.text (s.typeText ty)).diagnostic r.span ∨
        d = (Problem.fieldMethodClash f.head.name.text (s.typeText ty)).diagnostic f.head.name.span)

/-- What can be reported of a receiver whose written type means something. -/
theorem VarDecl.of_mem_receiverReports {s : Store} {c : SymbolId} {r : VarDecl} {method : Ident}
    {d : Diagnostic} (hnil : r.type.reports s c = [])
    (hd : d ∈ r.receiverReports s c method ++ r.clashReports s c method) :
    d = (Problem.receiverNotStruct method.text r.type.plainText).diagnostic r.span ∨
      d = (Problem.receiverNotLocal method.text r.type.plainText).diagnostic r.span ∨
      d = (Problem.fieldMethodClash method.text r.type.plainText).diagnostic method.span := by
  rw [receiverReports, hnil, List.nil_append, clashReports, List.mem_append, List.mem_map,
    List.mem_map] at hd
  rcases hd with ⟨problem, hproblem, rfl⟩ | ⟨problem, hproblem, rfl⟩
  · rw [Option.mem_toList, receiverProblem?] at hproblem
    split at hproblem
    · rw [Option.ite_none_right_eq_some] at hproblem
      exact .inl (by rw [← Option.some.inj hproblem.2])
    · rw [Option.ite_none_left_eq_some] at hproblem
      exact .inr (.inl (by rw [← Option.some.inj hproblem.2]))
  · rw [Option.mem_toList, fieldClash?, Option.bind_eq_some_iff] at hproblem
    obtain ⟨e, _, hclash⟩ := hproblem
    rw [Option.ite_none_right_eq_some] at hclash
    exact .inr (.inr (by rw [← Option.some.inj hclash.2]))

namespace Package

/-- What is reported of a method is reported of its package. -/
theorem functionReports_subset {s : Store} {c : SymbolId} {p : Package} {f : Callable}
    (hf : f ∈ p.functions) : f.functionReports s c ⊆ p.reports s c := fun d hd => by
  have hmem : d ∈ p.functions.flatMap (·.functionReports s c) := List.mem_flatMap.2 ⟨f, hf, hd⟩
  simp only [reports, List.mem_append]
  tauto

/-- The receivers of a package that is entered are shown as they are written. -/
theorem Entered.shownIn {load : Loader} {site : Site} {s₀ s s₁ s' : Session}
    {imports : List Import} {p : Package} (h : Entered load site s₀ s s₁ imports p s')
    (ht : s'.store.table.Stratified)
    (hreports : p.reports s'.store site.package ⊆ s'.store.log) {f : Callable}
    (hf : f ∈ p.functions) {r : VarDecl} (hr : f.head.receiver = some r) {ty : TypeId}
    (hty : r.type.ty = some ty) (hne : ty ≠ .error) :
    f.ShownIn s'.store site.package r ty := by
  have hs := h.follows.sound
  have hpart : r ∈ f.head.parts .method := by
    rw [CallableHead.parts, if_pos rfl, hr]
    exact List.mem_append_left _ (List.mem_append_right _ List.mem_cons_self)
  obtain ⟨_, hvars⟩ := offers_of_mem_everyCallable (c := site.package)
    (method_mem_everyCallable hf hr)
  obtain ⟨ty', hty', hm⟩ := (h.vars r (hvars r hpart)).type.means
  cases hty.symm.trans hty'
  have hnil : r.type.reports s'.store site.package = [] :=
    Decidable.not_not.1 (mt (hm.eq_error_iff hs).2 hne)
  have htext := hm.typeText_eq hs ht hne
  refine ⟨?_, fun d hd => ⟨hreports (functionReports_subset hf ?_), ?_⟩⟩
  · have hhas := functionOffers_subset site.package hf
    rw [Callable.functionOffers, Callable.offers_eq] at hhas
    obtain ⟨y, sym, hy, hsym, _, _, _, _, hname, _⟩ := h.follows.has _ (hhas List.mem_cons_self)
    refine ⟨y, sym, hy, hsym, hname.trans ?_⟩
    rw [htext, ← r.type.text_eq]
    exact congrArg some (by rw [CallableHead.offer, Callable.functionName, hr]; rfl)
  · rw [Callable.functionReports, hr]
    rcases List.mem_append.1 hd with hd | hd
    · exact List.mem_append_left _ (List.mem_append_left _ hd)
    · exact List.mem_append_right _ hd
  · rw [htext]
    exact r.of_mem_receiverReports hnil hd

end Package

namespace Session

/-- Wherever a written type is resolved without an error, in whichever session and scope, it is shown
    as what it is resolved to is shown, after its alias. When a package is entered with success, the
    methods are named after what their receivers are shown as. -/
theorem texts_agree :
    (∀ {s s' : Session} {scope : ScopeId} {r r' : TypeRef} {ty : TypeId}, s.Arises →
      (s.store.table.scope? scope).isSome → onStore (r.resolve scope) s = ((r', ty), s') →
        ty ≠ .error → ∃ text, s'.store.table.typeText? s'.store.names ty = some text ∧
          r.text = r.aliasText ++ text) ∧
    ∀ {depth : Nat} {path : Option PackageName} {p p' : Package} {s s' : Session} {x : SymbolId},
      Enters depth path p s → p.enterWith (loadWithin depth) path s = ((p', .ok x), s') →
        ∀ f ∈ p'.functions, ∀ r, f.head.receiver = some r → ∀ ty, r.type.ty = some ty →
          ty ≠ .error → f.ShownIn s'.store x r ty := by
  constructor
  · intro s s' scope r r' ty h hscope hresolve hne
    have hs := h.sound
    obtain ⟨sc, hsc⟩ := Option.isSome_iff_exists.1 hscope
    obtain ⟨p, hi⟩ := hs.linked.exists_inside hsc
    obtain ⟨hrun, _, hr⟩ := r.run_resolve (m := s.store.mark) hs hi
    have hty := r.resolve_fst_ty scope s.store
    have hbare := r.bare_resolve scope s.store
    obtain ⟨hfst, rfl⟩ := Prod.mk.inj hresolve
    rw [hfst] at hr hty hbare
    obtain ⟨ty', hty', hmeans⟩ := hr.means
    cases hty.symm.trans hty'
    refine ⟨_, hmeans.typeText?_eq (hrun.sound hs) (hrun.stratified h.stratified) hne, ?_⟩
    rw [r.text_eq, ← r.plainText_bare, ← hbare, r'.plainText_bare]
  · intro depth path p p' s s' x h hp f hf r hr ty hty hne
    obtain ⟨hs, hpath⟩ := h.sound
    obtain ⟨names, config, library, hstart⟩ := h.course
    have hcourse := p.course_enterWith (loadWithin_sound depth) (loadWithin_courses depth) hs hpath
    rw [hp] at hcourse
    cases ho : p.collect.opened path s with
    | mk key opened =>
      obtain ⟨rfl, hentered, _, hothers⟩ := h.complete ho hp
      refine hentered.shownIn ((hstart.trans hcourse).stratified
        (stratified_start names config library)) (fun d hd => ?_) hf hr hty hne
      have hmem : d ∈ s'.store.others := hothers ▸ List.mem_append_right _ hd
      exact (List.mem_filter.1 hmem).1

/-- Methods of a struct, of a struct of an imported package and of a primitive type, and an array of
    arrays of the imported struct, seen from the package. -/
theorem texts_agree_of_each_receiver :
    let name (text : String) : Ident := ⟨text, .origin⟩
    let method (type : TypeRef) : Callable := .mk
      { span := .origin, name := name "f"
        receiver := some { span := .origin, name := name "t", type } } []
    let imported : TypeRef := .named (some (name "a")) (name "S") .origin none
    let s := start {} {} (Library.insert {} "a" none
      { structs := [{ span := .origin, name := name "S" }] })
    let p : Package :=
      { imports := [{ span := .origin, path := [name "a"] }]
        structs := [{ span := .origin, name := name "T" }]
        functions := [method (.ofName (name "T")), method imported,
          method (.primitive .int .origin none)] }
    let r := p.enterWith (loadWithin s.depthBound) none s
    let t := s.after [.define p]
    let arrays : TypeRef := .array (.array imported .origin none) .origin none
    Enters s.depthBound none p s ∧ r.1.2 = .ok ⟨1⟩ ∧
      (∀ f ∈ r.1.1.functions, ∀ v, f.head.receiver = some v → ∀ ty, v.type.ty = some ty →
        ty ≠ .error → f.ShownIn r.2.store ⟨1⟩ v ty) ∧
      r.1.1.functions.map (fun f => (f.head.receiver.bind (·.type.ty)).map r.2.store.typeText) =
        [some "T", some "S", some "int"] ∧
      t.Arises ∧ arrays.text = "a:S[][]" ∧ ∃ r' ty t' text,
        onStore (arrays.resolve ⟨1⟩) t = ((r', ty), t') ∧ ty ≠ .error ∧
        t'.store.table.typeText? t'.store.names ty = some text ∧
          arrays.text = arrays.aliasText ++ text := by
  intro name method imported s p r t arrays
  have h : Enters s.depthBound none p s := .define p (.start {} {} _)
  have hok : r.1.2 = .ok ⟨1⟩ := by decide +kernel
  have hp : r = ((r.1.1, .ok ⟨1⟩), r.2) := eq_of_outcome hok
  have ht : t.Arises := .between ((Reachable.start {} {} _).after [.define p])
  have hscope : (t.store.table.scope? ⟨1⟩).isSome := by decide +kernel
  have hne : (onStore (arrays.resolve ⟨1⟩) t).1.2 ≠ .error := by decide +kernel
  obtain ⟨hresolved, hentered⟩ := texts_agree
  refine ⟨h, hok, hentered h hp, by decide +kernel, ht, by decide +kernel, ?_⟩
  cases hresolve : onStore (arrays.resolve ⟨1⟩) t with
  | mk o t' =>
    rw [hresolve] at hne
    obtain ⟨text, htext, heq⟩ := hresolved ht hscope hresolve hne
    exact ⟨_, _, t', text, rfl, hne, htext, heq⟩

end Session

end Binder
