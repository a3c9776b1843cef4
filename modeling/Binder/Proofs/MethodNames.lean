import Binder.Proofs.ForwardReference
import Binder.Proofs.Initializers
import Binder.Proofs.Refusal

/-!
# What methods are called

A method is bound in the scope of its package, under the written type of its receiver, a dot and its
own name. If what is written there has none of the signs that types and methods are put together
with, the receiver and the name can be read off: two methods are bound alike just if they have the
same name and their receivers are written alike, and nothing else that is written in the package is
bound like a method. So a method that is refused gives way to another one of the same name and
receiver, or to an initializer, which is not written at all.

* `TypeRef.text_eq_text_iff`: types that are written alike say the same.
* `Callable.methodName_eq_iff`: so do the names of methods.
* `Package.find?_scopeOffers`, `Package.cases_of_mem_earlyOffers`: what can get the name of a
  method.
* `Package.NamesMethods`: what the methods of a package are called, and what they give way to.
* `Session.Enters.namesMethods`: the packages that are entered with success.
-/

namespace Binder

/-! ## Words -/

/-- The signs that written types and the names of methods are put together with. -/
def signs : List Char := ['.', ':', '[', ']']

/-- None of the signs is in the text. -/
def IsWord (text : String) : Prop := ∀ c ∈ signs, c ∉ text.toList

instance : DecidablePred IsWord := fun text =>
  List.decidableBAll (fun c => c ∉ text.toList) signs

theorem Primitive.isWord_keyword (p : Primitive) : IsWord p.keyword := by
  cases p <;> decide

theorem Primitive.keyword_injective : Function.Injective keyword := fun p q h => by
  have hp := ofKeyword?_keyword p
  rw [h, ofKeyword?_keyword q] at hp
  exact (Option.some.inj hp).symm

/-! ## Written types -/

namespace TypeRef

/-- The identifiers in the written type are words, and an unqualified name is no keyword. -/
def OfWords : TypeRef → Prop
  | primitive .. => True
  | named none name _ _ => IsWord name.text ∧ Primitive.ofKeyword? name.text = none
  | named (some qualifier) name _ _ => IsWord qualifier.text ∧ IsWord name.text
  | array element _ _ => element.OfWords

instance decidableOfWords : ∀ r : TypeRef, Decidable r.OfWords
  | primitive .. => inferInstanceAs (Decidable True)
  | named none name _ _ =>
    inferInstanceAs (Decidable (IsWord name.text ∧ Primitive.ofKeyword? name.text = none))
  | named (some qualifier) name _ _ =>
    inferInstanceAs (Decidable (IsWord qualifier.text ∧ IsWord name.text))
  | array element _ _ => decidableOfWords element

theorem ofWords_bare (r : TypeRef) : r.bare.OfWords ↔ r.OfWords := by
  induction r with
  | primitive => exact Iff.rfl
  | named qualifier => cases qualifier <;> exact Iff.rfl
  | array element _ _ ih => exact ih

theorem toList_text_qualified (qualifier name : Ident) (span : Span) (ty : Option TypeId) :
    (named (some qualifier) name span ty).text.toList =
      qualifier.text.toList ++ ':' :: name.text.toList := by
  simp only [text, qualifiedText, String.toList_append, List.append_assoc]
  rfl

theorem toList_text_array (element : TypeRef) (span : Span) (ty : Option TypeId) :
    (array element span ty).text.toList = element.text.toList ++ ['[', ']'] := by
  rw [text, String.toList_append]
  rfl

/-- Of the signs, only a colon can be in a written type that is no array. -/
theorem OfWords.not_mem {r : TypeRef} (h : r.OfWords)
    (hr : ∀ element span ty, r ≠ array element span ty) {c : Char} (hc : c ∈ signs)
    (hcolon : c ≠ ':') : c ∉ r.text.toList := by
  cases r with
  | primitive p => exact p.isWord_keyword _ hc
  | named qualifier name =>
    cases qualifier with
    | none => exact h.1 _ hc
    | some q =>
      rw [toList_text_qualified, List.mem_append, List.mem_cons, not_or, not_or]
      exact ⟨h.1 _ hc, hcolon, h.2 _ hc⟩
  | array element span ty => exact absurd rfl (hr element span ty)

theorem OfWords.dot_not_mem {r : TypeRef} (h : r.OfWords) : '.' ∉ r.text.toList := by
  induction r with
  | primitive | named => exact h.not_mem nofun (by decide) (by decide)
  | array element span ty ih =>
    rw [toList_text_array, List.mem_append, not_or]
    exact ⟨ih h, by decide⟩

theorem OfWords.text_ne_array {r : TypeRef} (h : r.OfWords)
    (hr : ∀ element span ty, r ≠ array element span ty) (element : TypeRef) (span : Span)
    (ty : Option TypeId) : r.text ≠ (array element span ty).text := fun heq => by
  have hbracket : ']' ∉ r.text.toList := h.not_mem hr (by decide) (by decide)
  rw [heq, toList_text_array] at hbracket
  exact hbracket (List.mem_append_right _ (by decide))

theorem text_ne_qualified {word : String} (h : IsWord word) (qualifier name : Ident) (span : Span)
    (ty : Option TypeId) : word ≠ (named (some qualifier) name span ty).text := fun heq => by
  have hcolon : ':' ∉ word.toList := h _ (by decide)
  rw [heq, toList_text_qualified] at hcolon
  exact hcolon (List.mem_append_right _ List.mem_cons_self)

theorem keyword_ne {name : Ident} (h : Primitive.ofKeyword? name.text = none) (p : Primitive) :
    p.keyword ≠ name.text := fun heq => by
  cases (p.ofKeyword?_keyword).symm.trans (heq ▸ h)

/-- What a written type says can be read off its text. -/
theorem OfWords.shape_eq {r r' : TypeRef} (h : r.OfWords) (h' : r'.OfWords)
    (heq : r.text = r'.text) : r.shape = r'.shape := by
  induction r generalizing r' with
  | primitive p =>
    cases r' with
    | primitive q => rw [shape, shape, Primitive.keyword_injective heq]
    | named qualifier name span =>
      cases qualifier with
      | none => exact absurd heq (keyword_ne h'.2 p)
      | some q => exact absurd heq (text_ne_qualified p.isWord_keyword q name span _)
    | array element span => exact absurd heq (h.text_ne_array nofun element span _)
  | named qualifier name span =>
    cases r' with
    | primitive q =>
      cases qualifier with
      | none => exact absurd heq.symm (keyword_ne h.2 q)
      | some i => exact absurd heq.symm (text_ne_qualified q.isWord_keyword i name span _)
    | named qualifier' name' span' =>
      cases qualifier with
      | none =>
        cases qualifier' with
        | none =>
          have hname : name.text = name'.text := heq
          rw [shape, shape, hname]
        | some j => exact absurd heq (text_ne_qualified h.1 j name' span' _)
      | some i =>
        cases qualifier' with
        | none => exact absurd heq.symm (text_ne_qualified h'.1 i name span _)
        | some j =>
          have hlist := congrArg String.toList heq
          rw [toList_text_qualified, toList_text_qualified] at hlist
          obtain ⟨hq, hname⟩ := eq_of_append_cons (h.1 _ (by decide))
            (h'.1 _ (by decide)) hlist
          rw [shape, shape, Option.map_some, Option.map_some, String.toList_inj.1 hq,
            String.toList_inj.1 hname]
    | array element span' => exact absurd heq (h.text_ne_array nofun element span' _)
  | array element span ty ih =>
    cases r' with
    | primitive | named => exact absurd heq.symm (h'.text_ne_array nofun element span ty)
    | array element' span' ty' =>
      have hlist := congrArg String.toList heq
      rw [toList_text_array, toList_text_array] at hlist
      have hwords : element'.OfWords := h'
      -- The brackets are taken off at the end: inside there may be more of them.
      have htext : element.text = element'.text :=
        String.toList_inj.1 (List.append_cancel_right hlist)
      rw [shape, shape, ih h hwords htext]

theorem text_shape (r : TypeRef) : r.shape.text = r.text := by
  induction r with
  | primitive => rfl
  | named qualifier => cases qualifier <;> rfl
  | array element _ _ ih => exact congrArg (· ++ "[]") ih

/-- Types are written alike just if they say the same. -/
theorem text_eq_text_iff {r r' : TypeRef} (h : r.OfWords) (h' : r'.OfWords) :
    r.text = r'.text ↔ r.shape = r'.shape := by
  refine ⟨h.shape_eq h', fun hshape => ?_⟩
  rw [← r.text_shape, hshape, r'.text_shape]

end TypeRef

/-! ## Methods -/

namespace Callable

/-- The receiver and the name of a method can be read off what it is called. -/
theorem methodName_eq_iff {r r' : TypeRef} {m m' : Ident} (h : r.OfWords) (h' : r'.OfWords) :
    methodName r m = methodName r' m' ↔ r.shape = r'.shape ∧ m.text = m'.text := by
  rw [← TypeRef.text_eq_text_iff h h']
  refine ⟨fun heq => ?_, fun ⟨htype, hname⟩ => ?_⟩
  · have hlist := congrArg String.toList heq
    rw [toList_methodName, toList_methodName] at hlist
    -- The first dot ends the receiver, whatever comes after it.
    obtain ⟨htype, hname⟩ := eq_of_append_cons h.dot_not_mem h'.dot_not_mem hlist
    exact ⟨String.toList_inj.1 htype, String.toList_inj.1 hname⟩
  · rw [methodName, methodName, htype, hname]

theorem not_isWord_methodName (receiver : TypeRef) (method : Ident) :
    ¬IsWord (methodName receiver method) := fun h => by
  have hdot : '.' ∉ (methodName receiver method).toList := h _ (by decide)
  rw [toList_methodName] at hdot
  exact hdot (List.mem_append_right _ List.mem_cons_self)

theorem functionName_of_receiver {f : Callable} {r : VarDecl} (h : f.head.receiver = some r) :
    f.functionName = methodName r.type f.head.name := by
  rw [functionName, h]

end Callable

/-! ## What is offered to the scope of a package -/

namespace Package

/-- What a package with the symbol `c` offers to its own scope until all functions are offered. -/
def earlyOffers (c : SymbolId) (p : Package) : List Offer :=
  Import.offers c p.imports ++ p.structs.map (·.offer (some c)) ++
    p.connectors.flatMap
      (fun d => d.offer (some c) :: d.initializer.toList.map (·.functionOffer (some c))) ++
    p.services.map (·.offer (some c)) ++ p.functions.map (·.functionOffer (some c))

/-- What is offered by then has a name that is written in the scope of the package, or is a method
    or the initializer of a connector. -/
theorem cases_of_mem_earlyOffers {p : Package} {c : SymbolId} {o : Offer}
    (ho : o ∈ p.earlyOffers c) : o.text ∈ p.writtenNames ∨
      (∃ f ∈ p.functions, f.head.receiver.isSome ∧ o = f.functionOffer (some c)) ∨
      ∃ d ∈ p.connectors, ∃ f, d.initializer = some f ∧ o = f.functionOffer (some c) := by
  simp only [earlyOffers, List.mem_append, or_assoc] at ho
  rw [mem_writtenNames]
  rcases ho with ho | ho | ho | ho | ho
  · obtain ⟨i, hi, rfl⟩ := List.mem_map.1 ho
    exact .inl (.inl ⟨i, hi, rfl⟩)
  · obtain ⟨d, hd, rfl⟩ := List.mem_map.1 ho
    exact .inl (.inr (.inl ⟨d, hd, rfl⟩))
  · obtain ⟨d, hd, ho⟩ := List.mem_flatMap.1 ho
    rcases List.mem_cons.1 ho with rfl | ho
    · exact .inl (.inr (.inr (.inl ⟨d, hd, rfl⟩)))
    · obtain ⟨f, hf, rfl⟩ := List.mem_map.1 ho
      exact .inr (.inr ⟨d, hd, f, Option.mem_toList.1 hf, rfl⟩)
  · obtain ⟨d, hd, rfl⟩ := List.mem_map.1 ho
    exact .inl (.inr (.inr (.inr (.inl ⟨d, hd, rfl⟩))))
  · obtain ⟨f, hf, rfl⟩ := List.mem_map.1 ho
    cases hreceiver : f.head.receiver with
    | none =>
      refine .inl (.inr (.inr (.inr (.inr (.inl ⟨f, hf, hreceiver, ?_⟩)))))
      simp only [Callable.functionOffer, Callable.functionName, CallableHead.offer, hreceiver]
    | some receiver => exact .inr (.inl ⟨f, hf, by rw [hreceiver]; rfl, rfl⟩)

/-- What comes later comes too late for the name of a function or method. -/
theorem find?_scopeOffers {p : Package} (c : SymbolId) {f : Callable} (hf : f ∈ p.functions) :
    ∃ o ∈ p.earlyOffers c, o.text = f.functionName ∧
      (p.scopeOffers c).find? (f.functionName == Offer.text ·) = some o := by
  have hsome : ((p.earlyOffers c).find? (f.functionName == Offer.text ·)).isSome :=
    List.find?_isSome.2 ⟨f.functionOffer (some c),
      List.mem_append_right _ (List.mem_map_of_mem hf), beq_self_eq_true f.functionName⟩
  obtain ⟨o, ho⟩ := Option.isSome_iff_exists.1 hsome
  have htext : (f.functionName == o.text) = true := (List.find?_some ho :)
  refine ⟨o, List.mem_of_find?_eq_some ho, (beq_iff_eq.1 htext).symm, ?_⟩
  change (p.earlyOffers c ++ _ ++ _ ++ _).find? _ = _
  rw [List.find?_append, List.find?_append, List.find?_append, ho]
  rfl

/-- The identifiers that are declared in the package are words, and so are those in the written
    types of receivers. -/
structure OfWords (p : Package) : Prop where
  written : ∀ text ∈ p.writtenNames, IsWord text
  receiver : ∀ f ∈ p.functions, ∀ receiver ∈ f.head.receiver, receiver.type.OfWords

/-- This does not depend on what binding finds out. -/
theorem OfWords.of_bare {p q : Package} (h : p.bare = q.bare) (hq : q.OfWords) : p.OfWords := by
  refine ⟨writtenNames_of_bare h ▸ hq.written, fun f hf receiver hreceiver => ?_⟩
  obtain ⟨g, hg, r, hr, _, hbare⟩ := exists_method_of_bare h hf hreceiver
  rw [← receiver.type.ofWords_bare, ← hbare, r.type.ofWords_bare]
  exact hq.receiver g hg r hr

/-- What the methods of the package `p`, which has the symbol `x`, are called, and what becomes of
    those that are called alike. -/
structure NamesMethods (s : Session) (x : SymbolId) (p : Package) : Prop where
  /-- Methods, of whatever packages, are called alike just if they have the same name and their
      receivers are written alike. -/
  name_eq_iff : ∀ (f g : Callable) (r r' : VarDecl),
    f.head.receiver = some r → g.head.receiver = some r' → r.type.OfWords → r'.type.OfWords →
    (f.functionName = g.functionName ↔
      r.type.shape = r'.type.shape ∧ f.head.name.text = g.head.name.text)
  /-- No method is called by a word. -/
  not_isWord : ∀ f : Callable, f.head.receiver.isSome → ¬IsWord f.functionName
  /-- Nothing else that is written in the scope of the package is called like a method. -/
  not_written : ∀ f ∈ p.functions, f.head.receiver.isSome → f.functionName ∉ p.writtenNames
  /-- A method is bound, or it is refused and reported, and gives way to the initializer of a
      connector or to another method of the same name whose receiver is written alike. -/
  bound : ∀ f ∈ p.functions, ∀ r, f.head.receiver = some r → ∃ y, f.head.symbol = some y ∧
    s.store.symbolText y = f.functionName ∧ (s.store.bound? x f.functionName = some y ∨
      (f.functionOffer (some x)).complaint ∈ s.store.redeclarations ∧
      ∃ z ≠ y, s.store.bound? x f.functionName = some z ∧
        ((∃ d ∈ p.connectors, ∃ g, d.initializer = some g ∧ g.head.symbol = some z) ∨
          ∃ g ∈ p.functions, ∃ r', g.head.receiver = some r' ∧ g.head.symbol = some z ∧
            r'.type.shape = r.type.shape ∧ g.head.name.text = f.head.name.text))

section

variable {config : Config} {title : String} {p q : Package} {c : SymbolId}
  {before : List (Span × String)} {s : Session} (h : p.Filled config title q c before s)
include h

/-- A function or method that is offered has its symbol, which is called like it. -/
theorem Filled.exists_symbol {f : Callable} (hf : f.functionOffer (some c) ∈ p.scopeOffers c) :
    ∃ y, f.head.symbol = some y ∧ s.store.symbolText y = f.functionName := by
  have hkind : (f.functionOffer (some c)).kind ≠ .package :=
    (SymbolKind.of_isCallable f.isCallable_functionKind).1
  obtain ⟨y, sym, hy, hsym, _, _, _, _, htext, _⟩ := h.has _ List.mem_cons_self _ hf hkind
  refine ⟨y, hy, ?_⟩
  rw [Store.symbolText_of_symbol? hsym, Names.text, htext, Option.getD_some]
  rfl

/-- A function or method that is not bound is reported. -/
theorem Filled.bound_or_reported {f : Callable} {y : SymbolId}
    (hf : f.functionOffer (some c) ∈ p.scopeOffers c) (hy : f.head.symbol = some y) :
    s.store.bound? c f.functionName = some y ∨
      (f.functionOffer (some c)).complaint ∈ s.store.redeclarations := by
  have hcases : f.functionOffer (some c) ∈ firsts Offer.text (fun _ => false) (p.scopeOffers c) ∨
      f.functionOffer (some c) ∈ repeats Offer.text (fun _ => false) (p.scopeOffers c) :=
    mem_firsts_or_mem_repeats hf
  rcases hcases with hfirst | hrepeat
  · obtain ⟨y', hy', hbound⟩ := h.bound? hfirst
    cases hy.symm.trans hy'
    exact .inl hbound
  · refine .inr (h.redeclarations.mem_iff.2 (List.mem_append_left _ (List.mem_append_right _ ?_)))
    exact List.mem_flatMap.2 ⟨_, List.mem_cons_self, List.mem_map_of_mem hrepeat⟩

/-- In a package of words, methods give way to methods and initializers only. -/
theorem Filled.namesMethods_of_words (hwords : p.OfWords) : p.NamesMethods s c where
  name_eq_iff f g r r' hr hr' hwords hwords' := by
    rw [Callable.functionName_of_receiver hr, Callable.functionName_of_receiver hr']
    exact Callable.methodName_eq_iff hwords hwords'
  not_isWord f hf := by
    obtain ⟨r, hr⟩ := Option.isSome_iff_exists.1 hf
    rw [Callable.functionName_of_receiver hr]
    exact Callable.not_isWord_methodName r.type f.head.name
  not_written f _ hf hmem := by
    obtain ⟨r, hr⟩ := Option.isSome_iff_exists.1 hf
    rw [Callable.functionName_of_receiver hr] at hmem
    exact Callable.not_isWord_methodName r.type f.head.name (hwords.written _ hmem)
  bound f hf r hr := by
    have hoffer := functionOffer_mem_scopeOffers c hf
    obtain ⟨y, hy, hname⟩ := h.exists_symbol hoffer
    refine ⟨y, hy, hname, ?_⟩
    obtain ⟨o, ho, htext, hfind⟩ := find?_scopeOffers c hf
    obtain ⟨_, hc, hbindings⟩ := h.bindings _ List.mem_cons_self
    cases hc
    have hbound := Store.bound?_eq_find? hbindings f.functionName
    rw [hfind, Option.bind_some] at hbound
    -- Whatever has the name is a function, with a symbol of its own.
    have hother : ∀ g : Callable, o = g.functionOffer (some c) →
        ∃ z, g.head.symbol = some z ∧ s.store.bound? c f.functionName = some z := by
      rintro g rfl
      obtain ⟨z, hz, _⟩ := h.exists_symbol (List.mem_of_find?_eq_some hfind)
      exact ⟨z, hz, hbound.trans hz⟩
    by_cases hown : s.store.bound? c f.functionName = some y
    · exact .inl hown
    refine .inr ⟨(h.bound_or_reported hoffer hy).resolve_left hown, ?_⟩
    rcases cases_of_mem_earlyOffers ho with hwritten | ⟨g, hg, hreceiver, heq⟩ | ⟨d, hd, g, hg, heq⟩
    · rw [htext, Callable.functionName_of_receiver hr] at hwritten
      exact absurd (hwords.written _ hwritten) (Callable.not_isWord_methodName _ _)
    · obtain ⟨z, hz, hboundz⟩ := hother g heq
      obtain ⟨r', hr'⟩ := Option.isSome_iff_exists.1 hreceiver
      have hsame : g.functionName = f.functionName := by rw [← htext, heq]; rfl
      rw [Callable.functionName_of_receiver hr, Callable.functionName_of_receiver hr',
        Callable.methodName_eq_iff (hwords.receiver g hg r' hr') (hwords.receiver f hf r hr)]
        at hsame
      refine ⟨z, fun hzy => hown (hzy ▸ hboundz), hboundz, .inr ⟨g, hg, r', hr', hz, hsame⟩⟩
    · obtain ⟨z, hz, hboundz⟩ := hother g heq
      exact ⟨z, fun hzy => hown (hzy ▸ hboundz), hboundz, .inl ⟨d, hd, g, hg, hz⟩⟩

end

end Package

namespace Session

variable {s s' : Session} {path : Option PackageName} {p p' : Package} {depth : Nat} {x : SymbolId}

/-- In every package of words that is entered with success, a method can be told from all else by
    its name, and gives way to another one only if both are called and received alike. -/
theorem Enters.namesMethods (h : Enters depth path p s)
    (hp : p.enterWith (loadWithin depth) path s = ((p', .ok x), s')) (hwords : p.collect.OfWords) :
    p'.NamesMethods s' x := by
  obtain ⟨hs, hpath⟩ := h.sound
  have hbare := p.bare_enterWith (loadWithin depth) path s
  rw [hp] at hbare
  have ho : p.collect.opened path s = ((p.collect.opened path s).1,
    (p.collect.opened path s).2.1, (p.collect.opened path s).2.2) := rfl
  have hfilled := Package.filled_enterWith (loadWithin_sound depth) (loadWithin_settles depth) hs
    hpath ho hp
  exact hfilled.namesMethods_of_words (hwords.of_bare hbare)

/-- A method that is declared again, one of the same name for arrays, one for an imported type, and
    one that is called like the initializer of a connector. -/
theorem namesMethods_declared_again :
    let word (text : String) : Ident := ⟨text, .origin⟩
    let m (name : String) (type : TypeRef) : Callable := .mk
      { span := .origin, name := word name
        receiver := some { span := .origin, name := word "t", type } } []
    let T : Struct := { span := .origin, name := word "T" }
    let p : Package :=
      { imports := [{ span := .origin, path := [word "a"] }], structs := [T]
        connectors := [{ span := .origin, name := word "C" }]
        functions := [m "m" (.ofName T.name), m "m" (.ofName T.name),
          m "m" (.array (.ofName T.name) .origin none),
          m "m" (.named (some (word "a")) T.name .origin none), m "<init>" (.ofName (word "C"))] }
    let s := start {} {} (Library.insert {} "a" none { structs := [T] })
    let r := p.enterWith (loadWithin s.depthBound) none s
    Enters s.depthBound none p s ∧ p.collect.OfWords ∧ r.1.2 = .ok ⟨1⟩ ∧
      r.1.1.NamesMethods r.2 ⟨1⟩ ∧
      (r.1.1.functions.map fun f => (f.functionName, f.head.symbol)) =
        [("T.m", some ⟨9⟩), ("T.m", some ⟨11⟩), ("T[].m", some ⟨13⟩), ("a:T.m", some ⟨15⟩),
          ("C.<init>", some ⟨17⟩)] ∧
      (["T.m", "T[].m", "a:T.m", "C.<init>"].map fun text => r.2.store.bound? ⟨1⟩ text) =
        [some ⟨9⟩, some ⟨13⟩, some ⟨15⟩, some ⟨7⟩] := by
  intro word m T p s r
  have h : Enters s.depthBound none p s := .define p (.start {} {} _)
  have hwords : p.collect.OfWords := ⟨by decide +kernel, by decide +kernel⟩
  have hok : r.1.2 = .ok ⟨1⟩ := by decide +kernel
  have hp : r = ((r.1.1, .ok ⟨1⟩), r.2) := eq_of_outcome hok
  exact ⟨h, hwords, hok, h.namesMethods hp hwords, by decide +kernel, by decide +kernel⟩

end Session

end Binder
