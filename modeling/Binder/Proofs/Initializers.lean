import Mathlib.Data.List.Nodup
import Binder.Proofs.Contents

/-!
# Initializers and the names around them

The name of an initializer is made up: the name of what it initializes, a dot and the suffix of the
settings. It is bound in the scope of the package, among the names that are written there and those of
methods, which have a dot, too. If the written names have no dots and differ from one another, and no
method is called by the suffix, all connectors and services have their initializers bound. So has the
package, unless it is called like one of them.

* `Config.eq_initSuffix_of_methodName`: a method that is bound like an initializer.
* `Package.Plain`: packages in which the written names have no dots and differ.
* `Package.Plain.filter_scopeOffers`: what is offered under the names of initializers.
* `Package.Plain.filter_occurrences`: which of these offers come first, and which are repeated.
* `Package.InitializersBound`: which initializers are bound, and which are reported.
* `Session.Enters.initializersBound`: every plain package that is entered with success.
-/

namespace Binder

/-! ## Names with dots -/

/-- What comes before the first of some letter, and what comes after it. -/
theorem eq_of_append_cons {c : Char} {l m l' m' : List Char} (hl : c ∉ l) (hl' : c ∉ l')
    (h : l ++ c :: m = l' ++ c :: m') : l = l' ∧ m = m' := by
  rcases List.append_eq_append_iff.1 h with ⟨k, rfl, hk⟩ | ⟨k, rfl, hk⟩
  · cases k with
    | nil => exact ⟨(List.append_nil l).symm, (List.cons.inj hk).2⟩
    | cons d k =>
      rw [← (List.cons.inj hk).1] at hl'
      exact absurd (List.mem_append_right _ List.mem_cons_self) hl'
  · cases k with
    | nil => exact ⟨List.append_nil l', (List.cons.inj hk).2.symm⟩
    | cons d k =>
      rw [← (List.cons.inj hk).1] at hl
      exact absurd (List.mem_append_right _ List.mem_cons_self) hl

/-- What comes after the only dot of a text is what comes after any dot of it. -/
theorem eq_of_append_dot {l m l' m' : List Char} (hl : '.' ∉ l) (hm : '.' ∉ m)
    (h : l ++ '.' :: m = l' ++ '.' :: m') : m = m' := by
  rcases List.append_eq_append_iff.1 h with ⟨k, -, hk⟩ | ⟨k, rfl, hk⟩
  · cases k with
    | nil => exact (List.cons.inj hk).2
    | cons c k =>
      rw [(List.cons.inj hk).2] at hm
      exact absurd (List.mem_append_right _ List.mem_cons_self) hm
  · cases k with
    | nil => exact (List.cons.inj hk).2.symm
    | cons c k =>
      rw [← (List.cons.inj hk).1] at hl
      exact absurd (List.mem_append_right _ List.mem_cons_self) hl

theorem Callable.toList_methodName (receiver : TypeRef) (method : Ident) :
    (methodName receiver method).toList = receiver.text.toList ++ '.' :: method.text.toList := by
  simp only [methodName, String.toList_append, List.append_assoc]
  rfl

namespace Config

variable (config : Config)

theorem toList_initName (text : String) :
    (config.initName text).toList = text.toList ++ '.' :: config.initSuffix.toList := by
  rw [initName, String.toList_append, String.toList_append, List.append_assoc]
  rfl

theorem dot_mem_initName (text : String) : '.' ∈ (config.initName text).toList := by
  rw [toList_initName]
  exact List.mem_append_right _ List.mem_cons_self

/-- What is initialized can be told from the name of the initializer. -/
theorem initName_injective : Function.Injective config.initName := fun text text' h => by
  have hlist := congrArg String.toList h
  rw [toList_initName, toList_initName] at hlist
  exact String.toList_inj.1 (List.append_cancel_right hlist)

/-- A method is bound under the name of an initializer only if it is called by the suffix. -/
theorem eq_initSuffix_of_methodName {receiver : TypeRef} {method : Ident} {text : String}
    (hr : '.' ∉ receiver.text.toList) (hm : '.' ∉ method.text.toList)
    (h : Callable.methodName receiver method = config.initName text) :
    method.text = config.initSuffix := by
  have hlist := congrArg String.toList h
  rw [toList_initName, Callable.toList_methodName] at hlist
  exact String.toList_inj.1 (eq_of_append_dot hr hm hlist)

end Config

/-! ## Offers by their texts -/

/-- No offer is made under any of the names. -/
theorem Offer.filter_text_eq_nil {names : List String} {os : List Offer}
    (h : ∀ o ∈ os, o.text ∉ names) : os.filter (fun o => names.contains o.text) = [] :=
  List.filter_eq_nil_iff.2 fun o ho hmem => h o ho (List.contains_iff_mem.1 hmem)

theorem VarDecl.mem_offers {c : Option SymbolId} {v : VarDecl} {o : Offer} :
    o ∈ v.offers c ↔ v.name.text ≠ "" ∧ o = v.offer c := by
  unfold offers
  split
  · next h => exact ⟨fun ho => absurd ho List.not_mem_nil, fun ho => absurd h ho.1⟩
  · next h => exact ⟨fun ho => ⟨h, List.mem_singleton.1 ho⟩, fun ho => List.mem_singleton.2 ho.2⟩

/-! ## Plain packages -/

namespace Callable

/-- All functions are offered under some of the names. -/
theorem filter_functionOffers {names : List String} {c : Option SymbolId} {fs : List Callable}
    (h : ∀ f ∈ fs, f.functionName ∈ names) :
    (fs.map (·.functionOffer c)).filter (fun o => names.contains o.text) =
      fs.map (·.functionOffer c) :=
  List.filter_eq_self.2 fun o ho => by
    obtain ⟨f, hf, rfl⟩ := List.mem_map.1 ho
    exact List.contains_iff_mem.2 (h f hf)

theorem name_bare (f : Callable) : f.bare.head.name = f.head.name := by
  cases f
  rfl

theorem receiver_bare (f : Callable) : f.bare.head.receiver = f.head.receiver.map (·.bare) := by
  cases f
  rfl

/-- An initializer is called as it is made, whatever binding adds to it. -/
theorem functionName_toList {f? : Option Callable} {span : Span} {name : String}
    {params : List VarDecl} {defs : List VarDef}
    (h : ∃ f, f? = some f ∧ f.bare = (initializer span name params defs).bare) :
    f?.toList.map (·.functionName) = [name] := by
  obtain ⟨f, rfl, hbare⟩ := h
  exact congrArg (fun e : Heading => [e.1]) (functionHeading_of_bare hbare)

end Callable

namespace Package

/-- The names that are written in the scope of a package, other than those of methods. -/
def writtenNames (p : Package) : List String :=
  p.imports.map (·.localName) ++ p.structs.map (·.name.text) ++ p.connectors.map (·.name.text) ++
    p.services.map (·.name.text) ++
    (p.functions.filter (·.head.receiver.isNone)).map (·.head.name.text) ++
    (p.vars.filter (·.name.text ≠ "")).map (·.name.text)

/-- The written names of a package have no dots and differ from one another. Methods and their
    receivers have no dots either, and no method is called by the suffix of initializers. -/
structure Plain (config : Config) (p : Package) : Prop where
  nodup : p.writtenNames.Nodup
  dotless : ∀ text ∈ p.writtenNames, '.' ∉ text.toList
  method : ∀ f ∈ p.functions, ∀ receiver ∈ f.head.receiver,
    '.' ∉ receiver.type.text.toList ∧ '.' ∉ f.head.name.text.toList ∧
      f.head.name.text ≠ config.initSuffix

theorem mem_writtenNames {p : Package} {text : String} : text ∈ p.writtenNames ↔
    (∃ i ∈ p.imports, i.localName = text) ∨ (∃ d ∈ p.structs, d.name.text = text) ∨
      (∃ d ∈ p.connectors, d.name.text = text) ∨ (∃ d ∈ p.services, d.name.text = text) ∨
      (∃ f ∈ p.functions, f.head.receiver = none ∧ f.head.name.text = text) ∨
      ∃ v ∈ p.vars, v.name.text ≠ "" ∧ v.name.text = text := by
  simp only [writtenNames, List.mem_append, List.mem_map, List.mem_filter, or_assoc, and_assoc,
    Option.isNone_iff_eq_none, decide_eq_true_eq]

theorem writtenNames_bare (p : Package) : p.bare.writtenNames = p.writtenNames := by
  simp only [writtenNames, bare, List.map_map, List.filter_map, Function.comp_def,
    Callable.receiver_bare, Callable.name_bare, Option.isNone_map]
  rfl

/-- Packages that are written alike have methods that are written alike. -/
theorem exists_method_of_bare {p q : Package} (h : p.bare = q.bare) {f : Callable}
    (hf : f ∈ p.functions) {receiver : VarDecl} (hreceiver : f.head.receiver = some receiver) :
    ∃ g ∈ q.functions, ∃ r, g.head.receiver = some r ∧ g.head.name = f.head.name ∧
      r.type.bare = receiver.type.bare := by
  have hfunctions : p.functions.map (·.bare) = q.functions.map (·.bare) := congrArg functions h
  have hmem : f.bare ∈ q.functions.map (·.bare) := hfunctions ▸ List.mem_map_of_mem hf
  obtain ⟨g, hg, heq⟩ := List.mem_map.1 hmem
  have hname : g.head.name = f.head.name := by rw [← g.name_bare, heq, f.name_bare]
  have hreceivers : g.head.receiver.map (·.bare) = some receiver.bare := by
    rw [← g.receiver_bare, heq, f.receiver_bare, hreceiver, Option.map_some]
  obtain ⟨r, hr, hbare⟩ := Option.map_eq_some_iff.1 hreceivers
  exact ⟨g, hg, r, hr, hname, congrArg VarDecl.type hbare⟩

theorem writtenNames_of_bare {p q : Package} (h : p.bare = q.bare) :
    p.writtenNames = q.writtenNames := by
  rw [← writtenNames_bare, h, writtenNames_bare]

/-- Whether a package is plain does not depend on what binding finds out. -/
theorem Plain.of_bare {config : Config} {p q : Package} (h : p.bare = q.bare)
    (hq : q.Plain config) : p.Plain config := by
  have hnames := writtenNames_of_bare h
  refine ⟨hnames ▸ hq.nodup, hnames ▸ hq.dotless, fun f hf receiver hreceiver => ?_⟩
  obtain ⟨g, hg, r, hr, hname, hbare⟩ := exists_method_of_bare h hf hreceiver
  have htext : r.type.text = receiver.type.text := by
    rw [← r.type.text_bare, ← receiver.type.text_bare, hbare]
  rw [← hname, ← htext]
  exact hq.method g hg r hr

/-- The names of the connectors and services. -/
def initializedNames (p : Package) : List String :=
  p.connectors.map (·.name.text) ++ p.services.map (·.name.text)

/-- The initializers of the connectors and services. -/
def memberInitializers (p : Package) : List Callable :=
  p.connectors.flatMap (·.initializer.toList) ++ p.services.flatMap (·.initializer.toList)

theorem initializedNames_sublist (p : Package) : p.initializedNames.Sublist p.writtenNames := by
  have hmiddle := (List.sublist_append_right
    (p.imports.map (·.localName) ++ p.structs.map (·.name.text))
    (p.connectors.map (·.name.text))).append (List.Sublist.refl (p.services.map (·.name.text)))
  exact (hmiddle.trans (List.sublist_append_left _ _)).trans (List.sublist_append_left _ _)

/-- The names of all initializers of a package called `title`. -/
def initNames (config : Config) (title : String) (p : Package) : List String :=
  (p.initializedNames ++ [title]).map config.initName

/-- The offer is made under the name of an initializer. -/
def namesInitializer (config : Config) (title : String) (p : Package) (o : Offer) : Bool :=
  (p.initNames config title).contains o.text

namespace Initialized

variable {config : Config} {title : String} {p : Package} (h : p.Initialized config title)
include h

theorem map_functionName_memberInitializers :
    p.memberInitializers.map (·.functionName) = p.initializedNames.map config.initName := by
  have hconnectors : ∀ d ∈ p.connectors, d.initializer.toList.map (·.functionName) =
      [config.initName d.name.text] := fun d hd => Callable.functionName_toList (h.connector d hd)
  have hservices : ∀ d ∈ p.services, d.initializer.toList.map (·.functionName) =
      [config.initName d.name.text] := fun d hd => Callable.functionName_toList (h.service d hd)
  rw [memberInitializers, initializedNames, List.map_append, List.map_append, List.map_flatMap,
    List.map_flatMap, List.flatMap_congr hconnectors, List.flatMap_congr hservices]
  simp only [← List.map_eq_flatMap, List.map_map, Function.comp_def]

theorem exists_initializer : ∃ f, p.initializer = some f ∧
    f.functionHeading = (config.initName title, .function, p.span) := by
  obtain ⟨f, vars, hf, hbare⟩ := h.package
  exact ⟨f, hf, Callable.functionHeading_of_bare hbare⟩

/-- The initializers have the names of initializers. -/
theorem functionName_mem {f : Callable} (hf : f ∈ p.memberInitializers ++ p.initializer.toList) :
    f.functionName ∈ p.initNames config title := by
  rw [initNames, List.map_append]
  rcases List.mem_append.1 hf with hf | hf
  · rw [← h.map_functionName_memberInitializers]
    exact List.mem_append_left _ (List.mem_map_of_mem hf)
  · obtain ⟨g, hg, hheading⟩ := h.exists_initializer
    rw [hg] at hf
    cases List.mem_singleton.1 hf
    rw [show f.functionName = config.initName title from congrArg Prod.fst hheading]
    exact List.mem_append_right _ (List.mem_singleton_self _)

end Initialized

section

variable {config : Config} {title : String} {p : Package} (hplain : p.Plain config)
  (h : p.Initialized config title)
include hplain

theorem Plain.not_mem_initNames {text : String} (ht : text ∈ p.writtenNames) :
    text ∉ p.initNames config title := fun hmem => by
  obtain ⟨container, _, rfl⟩ := List.mem_map.1 hmem
  exact hplain.dotless _ ht (config.dot_mem_initName container)

/-- No function or method is bound like an initializer. -/
theorem Plain.functionName_not_mem {f : Callable} (hf : f ∈ p.functions) :
    f.functionName ∉ p.initNames config title := fun hmem => by
  unfold Callable.functionName at hmem
  cases hreceiver : f.head.receiver with
  | none =>
    rw [hreceiver] at hmem
    have hwritten := mem_writtenNames.2 (.inr (.inr (.inr (.inr (.inl ⟨f, hf, hreceiver, rfl⟩)))))
    exact hplain.not_mem_initNames hwritten hmem
  | some receiver =>
    rw [hreceiver] at hmem
    obtain ⟨hr, hm, hne⟩ := hplain.method f hf receiver hreceiver
    obtain ⟨container, _, heq⟩ := List.mem_map.1 hmem
    exact hne (config.eq_initSuffix_of_methodName hr hm heq.symm)

/-- What else is written in a plain package is not offered under the name of an initializer. -/
theorem Plain.filter_written (c : SymbolId) :
    let named := p.namesInitializer config title
    (Import.offers c p.imports).filter named = [] ∧
      (p.structs.map (·.offer (some c))).filter named = [] ∧
      (p.services.map (·.offer (some c))).filter named = [] ∧
      (p.functions.map (·.functionOffer (some c))).filter named = [] ∧
      (p.vars.flatMap (·.offers (some c))).filter named = [] := by
  have hnot : ∀ {text}, text ∈ p.writtenNames → text ∉ p.initNames config title :=
    hplain.not_mem_initNames
  refine ⟨Offer.filter_text_eq_nil fun o ho => ?_, Offer.filter_text_eq_nil fun o ho => ?_,
    Offer.filter_text_eq_nil fun o ho => ?_, Offer.filter_text_eq_nil fun o ho => ?_,
    Offer.filter_text_eq_nil fun o ho => ?_⟩
  · obtain ⟨i, hi, rfl⟩ := List.mem_map.1 ho
    exact hnot (mem_writtenNames.2 (.inl ⟨i, hi, rfl⟩))
  · obtain ⟨d, hd, rfl⟩ := List.mem_map.1 ho
    exact hnot (mem_writtenNames.2 (.inr (.inl ⟨d, hd, rfl⟩)))
  · obtain ⟨d, hd, rfl⟩ := List.mem_map.1 ho
    exact hnot (mem_writtenNames.2 (.inr (.inr (.inr (.inl ⟨d, hd, rfl⟩)))))
  · obtain ⟨f, hf, rfl⟩ := List.mem_map.1 ho
    exact hplain.functionName_not_mem hf
  · obtain ⟨v, hv, ho⟩ := List.mem_flatMap.1 ho
    obtain ⟨hne, rfl⟩ := VarDecl.mem_offers.1 ho
    exact hnot (mem_writtenNames.2 (.inr (.inr (.inr (.inr (.inr ⟨v, hv, hne, rfl⟩))))))

include h

/-- Under the names of initializers, only initializers are offered to the scope of a plain
    package. -/
theorem Plain.filter_scopeOffers (c : SymbolId) :
    (p.scopeOffers c).filter (p.namesInitializer config title) =
      (p.memberInitializers ++ p.initializer.toList).map (·.functionOffer (some c)) := by
  obtain ⟨himports, hstructs, hservices, hfunctions, hvars⟩ :=
    @Plain.filter_written config title p hplain c
  have hinitializers : ∀ fs ⊆ p.memberInitializers ++ p.initializer.toList,
      (fs.map (·.functionOffer (some c))).filter (p.namesInitializer config title) =
        fs.map (·.functionOffer (some c)) := fun fs hfs =>
    Callable.filter_functionOffers fun f hf => h.functionName_mem (hfs hf)
  have hconnectors : ∀ d ∈ p.connectors, (d.offer (some c) ::
      d.initializer.toList.map (·.functionOffer (some c))).filter (p.namesInitializer config title) =
        d.initializer.toList.map (·.functionOffer (some c)) := fun d hd => by
    have hname : ¬p.namesInitializer config title (d.offer (some c)) = true := fun hmem =>
      hplain.not_mem_initNames (mem_writtenNames.2 (.inr (.inr (.inl ⟨d, hd, rfl⟩))))
        (List.contains_iff_mem.1 hmem)
    rw [List.filter_cons_of_neg hname]
    exact hinitializers _ fun f hf => List.mem_append_left _
      (List.mem_append_left _ (List.mem_flatMap.2 ⟨d, hd, hf⟩))
  have hserviceInitializers : ∀ d ∈ p.services,
      (d.initializer.toList.map (·.functionOffer (some c))).filter (p.namesInitializer config title) =
        d.initializer.toList.map (·.functionOffer (some c)) := fun d hd =>
    hinitializers _ fun f hf => List.mem_append_left _
      (List.mem_append_right _ (List.mem_flatMap.2 ⟨d, hd, hf⟩))
  simp only [scopeOffers, List.filter_append, List.filter_flatMap, himports, hstructs, hservices,
    hfunctions, List.flatMap_congr hconnectors, List.flatMap_congr hserviceInitializers, hvars,
    hinitializers _ (List.subset_append_right _ _), List.nil_append, List.append_nil,
    memberInitializers, List.map_append, List.map_flatMap]

/-- Of what is offered under the names of initializers, all is taken but the initializer of a package
    that is called like one of its connectors or services. -/
theorem Plain.filter_occurrences (c : SymbolId) {f : Callable} (hf : p.initializer = some f) :
    let named := p.namesInitializer config title
    let members := p.memberInitializers.map (·.functionOffer (some c))
    (firsts Offer.text (fun _ => false) (p.scopeOffers c)).filter named =
        members ++ (if title ∈ p.initializedNames then [] else [f.functionOffer (some c)]) ∧
      (repeats Offer.text (fun _ => false) (p.scopeOffers c)).filter named =
        if title ∈ p.initializedNames then [f.functionOffer (some c)] else [] := by
  intro named members
  have htexts : members.map Offer.text = p.initializedNames.map config.initName :=
    List.map_map.trans h.map_functionName_memberInitializers
  have hnodup : (members.map Offer.text).Nodup := by
    rw [htexts]
    exact List.Nodup.map config.initName_injective
      (p.initializedNames_sublist.nodup hplain.nodup)
  have hfilter : (p.scopeOffers c).filter named = members ++ [f.functionOffer (some c)] := by
    rw [hplain.filter_scopeOffers h c, hf, List.map_append]
    rfl
  have htaken : ((members.map Offer.text).contains (f.functionOffer (some c)).text || false) = true ↔
      title ∈ p.initializedNames := by
    obtain ⟨g, hg, hheading⟩ := h.exists_initializer
    cases hf.symm.trans hg
    have htext : (f.functionOffer (some c)).text = config.initName title :=
      congrArg Prod.fst hheading
    rw [Bool.or_false, List.contains_iff_mem, htexts, htext,
      List.mem_map_of_injective config.initName_injective]
  have hfirsts : (firsts Offer.text (fun _ => false) (p.scopeOffers c)).filter named =
      firsts Offer.text (fun _ => false) ((p.scopeOffers c).filter named) :=
    filter_firsts (p.initNames config title).contains (p.scopeOffers c)
  have hrepeats : (repeats Offer.text (fun _ => false) (p.scopeOffers c)).filter named =
      repeats Offer.text (fun _ => false) ((p.scopeOffers c).filter named) :=
    filter_repeats (p.initNames config title).contains (p.scopeOffers c)
  refine ⟨hfirsts.trans ?_, hrepeats.trans ?_⟩
  · rw [hfilter, firsts_append, firsts_of_nodup hnodup fun _ _ => rfl, firsts_singleton]
    simp only [htaken]
  · rw [hfilter, repeats_append, repeats_of_nodup hnodup fun _ _ => rfl, repeats_singleton]
    simp only [htaken, List.nil_append]

end

end Package

/-! ## Reports -/

theorem VarDecl.kind_of_mem_offers {c : Option SymbolId} {v : VarDecl} {o : Offer}
    (h : o ∈ v.offers c) : o.kind = .var := by
  obtain ⟨_, rfl⟩ := mem_offers.1 h
  rfl

/-- What is said of an initializer that is refused. -/
def initializerMessage (name : String) : String :=
  (Problem.redeclared SymbolKind.function.word name default).message

/-- What is refused can be told from what is said of it, if it is an initializer. -/
theorem Offer.complaint_eq_initializerMessage_iff {o : Offer} {name : String} :
    o.complaint.2 = initializerMessage name ↔ o.kind = .function ∧ o.text = name := by
  refine ⟨fun h => ?_, fun ⟨hkind, htext⟩ => ?_⟩
  · have hlist : ("redeclared " ++ o.kind.word ++ " " ++ ("'" ++ o.text ++ "'")).toList =
        ("redeclared " ++ "function" ++ " " ++ ("'" ++ name ++ "'")).toList :=
      congrArg String.toList h
    simp only [String.toList_append, List.append_assoc] at hlist
    have hrest := List.append_cancel_left hlist
    generalize o.kind = kind at hrest
    cases kind with
    | function =>
      have hquoted := List.append_cancel_left (List.append_cancel_left hrest)
      exact ⟨rfl, String.toList_inj.1
        (List.append_cancel_right (List.append_cancel_left hquoted))⟩
    | _ =>
      -- No other kind of symbol has a word that begins like that of functions.
      exact absurd (congrArg List.head? hrest) (by simp [SymbolKind.word])
  · rw [Offer.complaint, hkind, htext]
    rfl

/-- What is said of offers that are refused, as far as it is about initializers. -/
theorem Offer.contains_complaint (names : List String) (o : Offer) :
    (names.map initializerMessage).contains o.complaint.2 =
      (decide (o.kind = .function) && names.contains o.text) := by
  rw [Bool.eq_iff_iff, Bool.and_eq_true, decide_eq_true_eq, List.contains_iff_mem,
    List.contains_iff_mem, List.mem_map]
  constructor
  · rintro ⟨name, hname, heq⟩
    obtain ⟨hkind, rfl⟩ := complaint_eq_initializerMessage_iff.1 heq.symm
    exact ⟨hkind, hname⟩
  · rintro ⟨hkind, hname⟩
    exact ⟨o.text, hname, (complaint_eq_initializerMessage_iff.2 ⟨hkind, rfl⟩).symm⟩

/-- Nothing is said about initializers when no function is refused. -/
theorem Offer.filter_complaints_eq_nil {names : List String} {os : List Offer}
    (h : ∀ o ∈ os, o.kind ≠ .function) : (os.map complaint).filter
      (fun r => (names.map initializerMessage).contains r.2) = [] :=
  List.filter_eq_nil_iff.2 fun r hr => by
    obtain ⟨o, ho, rfl⟩ := List.mem_map.1 hr
    rw [contains_complaint, decide_eq_false (h o ho)]
    nofun

namespace Callable

mutual

/-- What is in a callable are variables and workers. -/
theorem kind_of_mem_innerOffers (kind : SymbolKind) : ∀ (f : Callable) (o : Offer),
    o ∈ f.innerOffers kind → o.kind = .var ∨ o.kind = .worker
  | mk head workers, o, ho => by
    rcases List.mem_append.1 ho with ho | ho
    · obtain ⟨v, _, ho⟩ := List.mem_flatMap.1 ho
      exact .inl (VarDecl.kind_of_mem_offers ho)
    · exact kind_of_mem_workerOffers head.symbol workers o ho

theorem kind_of_mem_workerOffers (c : Option SymbolId) : ∀ (workers : List Callable) (o : Offer),
    o ∈ workerOffers c workers → o.kind = .var ∨ o.kind = .worker
  | [], o, ho => absurd ho List.not_mem_nil
  | worker :: rest, o, ho => by
    rw [workerOffers, offers_eq, List.cons_append] at ho
    rcases List.mem_cons.1 ho with rfl | ho
    · exact .inr rfl
    · rcases List.mem_append.1 ho with ho | ho
      · exact kind_of_mem_innerOffers .worker worker o ho
      · exact kind_of_mem_workerOffers c rest o ho

end

end Callable

namespace Package

/-- The initializer of a connector, service or package is bound under its name in the scope of
    `c`. -/
def BindsInitializer (c : SymbolId) (name : String) (s : Store) (f? : Option Callable) : Prop :=
  ∃ f x, f? = some f ∧ f.head.symbol = some x ∧ s.bound? c name = some x

/-- In the package `p`, which is called `title` and has the symbol `c`, the connectors and services
    have their initializers bound, and so has the package, unless it is called like one of them: just
    then its initializer is reported as redeclared. Before anything of its own is reported, `before`
    is. -/
structure InitializersBound (config : Config) (title : String) (p : Package) (c : SymbolId)
    (before : List (Span × String)) (s : Store) : Prop where
  connector : ∀ d ∈ p.connectors, BindsInitializer c (config.initName d.name.text) s d.initializer
  service : ∀ d ∈ p.services, BindsInitializer c (config.initName d.name.text) s d.initializer
  package : title ∉ p.initializedNames →
    BindsInitializer c (config.initName title) s p.initializer
  reported : ∃ own, s.redeclarations.Perm (before ++ own) ∧
    own.filter (fun r => ((p.initNames config title).map initializerMessage).contains r.2) =
      if title ∈ p.initializedNames then [(p.span, initializerMessage (config.initName title))]
      else []

/-- What is offered to the scope of a container is no function. -/
theorem kind_of_mem_containers {p : Package} {e : Option SymbolId × List Offer}
    (he : e ∈ p.containers) {o : Offer} (ho : o ∈ e.2) : o.kind ≠ .function := by
  simp only [containers, List.mem_append, List.mem_map] at he
  rcases he with (⟨d, _, rfl⟩ | ⟨d, _, rfl⟩) | ⟨d, _, rfl⟩
  · obtain ⟨v, _, ho⟩ := List.mem_flatMap.1 ho
    rw [VarDecl.kind_of_mem_offers ho]
    decide
  · obtain ⟨f, _, rfl⟩ := List.mem_map.1 ho
    exact (by decide : SymbolKind.action ≠ .function)
  · obtain ⟨f, _, rfl⟩ := List.mem_map.1 ho
    exact (by decide : SymbolKind.resource ≠ .function)

theorem kind_of_mem_innerOffers {p : Package} {o : Offer} (ho : o ∈ p.innerOffers) :
    o.kind ≠ .function := by
  obtain ⟨e, _, ho⟩ := List.mem_flatMap.1 ho
  rcases e.2.kind_of_mem_innerOffers e.1 o ho with hk | hk
  all_goals
    rw [hk]
    decide

section

variable {config : Config} {title : String} {p q : Package} {c : SymbolId}
  {before : List (Span × String)} {s : Session} (h : p.Filled config title q c before s)
include h

/-- A function whose offer is taken is bound. -/
theorem Filled.bound? {f : Callable}
    (hf : f.functionOffer (some c) ∈ firsts Offer.text (fun _ => false) (p.scopeOffers c)) :
    ∃ x, f.head.symbol = some x ∧ s.store.bound? c f.functionName = some x := by
  have hscope : (some c, p.scopeOffers c) ∈ p.scopes c := List.mem_cons_self
  have hkind : (f.functionOffer (some c)).kind ≠ .package :=
    (SymbolKind.of_isCallable f.isCallable_functionKind).1
  obtain ⟨x, _, hx, _⟩ := h.has _ hscope _ (mem_of_mem_firsts hf) hkind
  obtain ⟨c', hc', hbindings⟩ := h.bindings _ hscope
  cases hc'
  have hlookup := lookup_firsts Offer.symbol hf
  refine ⟨x, hx, ?_⟩
  rw [Store.bound?, hbindings]
  exact (congrArg Option.join hlookup).trans ((Option.join_some).trans hx)

/-- An initializer whose offer is taken is bound under its name. -/
theorem Filled.bindsInitializer {f? : Option Callable} {f : Callable} {name : String}
    {span : Span} {params : List VarDecl} {defs : List VarDef} (hf : f? = some f)
    (hbare : f.bare = (Callable.initializer span name params defs).bare)
    (hmem : f.functionOffer (some c) ∈ firsts Offer.text (fun _ => false) (p.scopeOffers c)) :
    BindsInitializer c name s.store f? := by
  obtain ⟨x, hx, hbound⟩ := h.bound? hmem
  rw [show f.functionName = name from
    congrArg Prod.fst (Callable.functionHeading_of_bare hbare)] at hbound
  exact ⟨f, x, hf, hx, hbound⟩

variable (hplain : p.Plain config) (hinit : p.Initialized config title)
include hplain hinit

/-- In a plain package, what is reported of initializers is that of the package, if it is called like
    one of the connectors and services. -/
theorem Filled.reported : ∃ own, s.store.redeclarations.Perm (before ++ own) ∧
    own.filter (fun r => ((p.initNames config title).map initializerMessage).contains r.2) =
      if title ∈ p.initializedNames then [(p.span, initializerMessage (config.initName title))]
      else [] := by
  obtain ⟨f, hf, hheading⟩ := hinit.exists_initializer
  obtain ⟨hname, hkindSpan⟩ := Prod.mk.inj hheading
  obtain ⟨hkind, hspan⟩ := Prod.mk.inj hkindSpan
  obtain ⟨_, hrepeats⟩ := hplain.filter_occurrences hinit c hf
  let said : Span × String → Bool := fun r =>
    ((p.initNames config title).map initializerMessage).contains r.2
  refine ⟨_, List.append_assoc _ _ _ ▸ h.redeclarations, ?_⟩
  have hcontainers : (p.containers.flatMap fun e =>
      (repeats Offer.text (fun _ => false) e.2).map Offer.complaint).filter said = [] := by
    rw [List.filter_flatMap, List.flatMap_eq_nil_iff]
    exact fun e he => Offer.filter_complaints_eq_nil fun o ho =>
      kind_of_mem_containers he (mem_of_mem_repeats ho)
  have hinner : ((repeats Offer.place (fun _ => false) p.innerOffers).map Offer.complaint).filter
      said = [] :=
    Offer.filter_complaints_eq_nil fun o ho => kind_of_mem_innerOffers (mem_of_mem_repeats ho)
  have hown : ((repeats Offer.text (fun _ => false) (p.scopeOffers c)).map Offer.complaint).filter
      said = if title ∈ p.initializedNames then [(f.functionOffer (some c)).complaint] else [] := by
    have hsaid : said ∘ Offer.complaint =
        fun o => decide (o.kind = .function) && p.namesInitializer config title o :=
      funext (Offer.contains_complaint (p.initNames config title))
    rw [List.filter_map, hsaid, ← List.filter_filter, hrepeats]
    split
    · rw [List.filter_eq_self.2 fun o ho => by
        rw [List.mem_singleton.1 ho]
        exact decide_eq_true hkind]
      rfl
    · rfl
  have hcomplaint : (f.functionOffer (some c)).complaint =
      (p.span, initializerMessage (config.initName title)) := by
    refine Prod.ext hspan ?_
    exact Offer.complaint_eq_initializerMessage_iff.2 ⟨hkind, hname⟩
  rw [← hcomplaint, ← hown]
  change List.filter said _ = _
  rw [List.filter_append, scopes, List.flatMap_cons, List.filter_append, hcontainers, hinner,
    List.append_nil, List.append_nil]

/-- In a plain package, the initializers are bound that are not reported. -/
theorem Filled.bindsInitializers : p.InitializersBound config title c before s.store := by
  obtain ⟨f, hf, hheading⟩ := hinit.exists_initializer
  obtain ⟨hfirsts, _⟩ := hplain.filter_occurrences hinit c hf
  have hmember : ∀ g ∈ p.memberInitializers,
      g.functionOffer (some c) ∈ firsts Offer.text (fun _ => false) (p.scopeOffers c) := fun g hg =>
    List.mem_of_mem_filter (hfirsts ▸ List.mem_append_left _ (List.mem_map_of_mem hg))
  refine ⟨fun d hd => ?_, fun d hd => ?_, fun ht => ?_, h.reported hplain hinit⟩
  · obtain ⟨g, hg, hbare⟩ := hinit.connector d hd
    refine h.bindsInitializer hg hbare (hmember g (List.mem_append_left _ ?_))
    exact List.mem_flatMap.2 ⟨d, hd, Option.mem_toList.2 hg⟩
  · obtain ⟨g, hg, hbare⟩ := hinit.service d hd
    refine h.bindsInitializer hg hbare (hmember g (List.mem_append_right _ ?_))
    exact List.mem_flatMap.2 ⟨d, hd, Option.mem_toList.2 hg⟩
  · obtain ⟨g, vars, hg, hbare⟩ := hinit.package
    cases hf.symm.trans hg
    rw [if_neg ht] at hfirsts
    have hmem := List.mem_append_right (p.memberInitializers.map (·.functionOffer (some c)))
      (List.mem_singleton_self (f.functionOffer (some c)))
    rw [← hfirsts] at hmem
    exact h.bindsInitializer hf hbare (List.mem_of_mem_filter hmem)

end

end Package

namespace Session

variable {s s₁ s' : Session} {path : Option PackageName} {key : PackageName} {site : Site}
  {p p' : Package} {depth : Nat} {x : SymbolId}

/-- Every package that is entered with success has its initializers. -/
theorem Enters.initialized (h : Enters depth path p s)
    (hp : p.enterWith (loadWithin depth) path s = ((p', .ok x), s')) :
    let title := p.collect.title s.config (path.map (·.key s.store.names))
    p'.Initialized s.config (PackageName.render title.1 title.2) := by
  obtain ⟨hs, hpath⟩ := h.sound
  obtain ⟨hopened, _⟩ := p.collect.opened_spec hs hpath
  obtain ⟨_, hok⟩ := Package.enterWith_spec (loadWithin_sound depth) p hs hpath
  rw [hp] at hok
  obtain ⟨_, _, hentered⟩ := hok x rfl
  have hinitialized := hentered.initialized
  rw [hopened.text] at hinitialized
  exact hinitialized

/-- In every plain package that is entered with success, whatever it is called, the connectors and
    services have their initializers bound, and none of these is reported as redeclared. The
    initializer of the package itself is bound, unless the package is called like one of them. -/
theorem Enters.initializersBound (h : Enters depth path p s)
    (ho : p.collect.opened path s = (key, site, s₁))
    (hp : p.enterWith (loadWithin depth) path s = ((p', .ok x), s'))
    (hplain : p.collect.Plain s.config) :
    let title := p.collect.title s.config (path.map (·.key s.store.names))
    p'.InitializersBound s.config (PackageName.render title.1 title.2) x (s.store.redeclarations ++
      (Import.loadLog (loadWithin depth) site p.collect.imports s₁).redeclarations) s'.store := by
  have hbare := p.bare_enterWith (loadWithin depth) path s
  rw [hp] at hbare
  obtain ⟨hs, hpath⟩ := h.sound
  have hfilled := Package.filled_enterWith (loadWithin_sound depth) (loadWithin_settles depth) hs
    hpath ho hp
  exact hfilled.bindsInitializers (hplain.of_bare hbare) (h.initialized hp)

/-- A connector, a service and a method among other things, in a package with a dot in its name. -/
theorem initializersBound_dotted :
    let word (text : String) : Ident := ⟨text, .origin⟩
    let T : VarDecl := { span := .origin, name := word "t", type := .ofName (word "T") }
    let p : Package :=
      { clause := some { span := .origin, path := [word "lang", word "net"] }
        structs := [{ span := .origin, name := word "T" }]
        connectors := [{ span := .origin, name := word "Http" }]
        services := [{ span := .origin, name := word "echo" }]
        functions := [.mk { span := .origin, name := word "m", receiver := some T } []] }
    let s := start {} {} {}
    let o := p.collect.opened none s
    let r := p.enterWith (loadWithin s.depthBound) none s
    Enters s.depthBound none p s ∧ p.collect.Plain s.config ∧ r.1.2 = .ok ⟨1⟩ ∧
      (r.2.store.bindings ⟨1⟩).map (·.1) =
        ["T", "Http", "Http.<init>", "echo", "T.m", "echo.<init>", "lang.net.<init>"] ∧
      r.1.1.InitializersBound {} "lang.net" ⟨1⟩ (s.store.redeclarations ++
        (Import.loadLog (loadWithin s.depthBound) o.2.1 p.collect.imports o.2.2).redeclarations)
        r.2.store := by
  intro word T p s o r
  have h : Enters s.depthBound none p s := .define p (.start {} {} _)
  have hplain : p.collect.Plain s.config :=
    ⟨by decide +kernel, by decide +kernel, by decide +kernel⟩
  have hok : r.1.2 = .ok ⟨1⟩ := by decide +kernel
  have hnames : (r.2.store.bindings ⟨1⟩).map (·.1) =
      ["T", "Http", "Http.<init>", "echo", "T.m", "echo.<init>", "lang.net.<init>"] := by
    decide +kernel
  have hp : r = ((r.1.1, .ok ⟨1⟩), r.2) := eq_of_outcome hok
  have ho : o = (o.1, o.2.1, o.2.2) := rfl
  exact ⟨h, hplain, hok, hnames, h.initializersBound ho hp hplain⟩

/-- A plain package that is called like its connector, the initializer of which is bound instead of
    its own. -/
theorem not_initializersBound_named_alike :
    let Http : Ident := ⟨"Http", .origin⟩
    let p : Package :=
      { clause := some { span := .origin, path := [Http] }
        connectors := [{ span := .origin, name := Http }] }
    let s := start {} {} {}
    let r := p.enterWith (loadWithin s.depthBound) none s
    Enters s.depthBound none p s ∧ p.collect.Plain s.config ∧ r.1.2 = .ok ⟨1⟩ ∧
      r.1.1.initializer.map (·.head.symbol) = some (some ⟨5⟩) ∧
      r.2.store.bound? ⟨1⟩ "Http.<init>" = some ⟨3⟩ ∧
      r.2.store.redeclarations = [(.origin, "redeclared function 'Http.<init>'")] := by
  intro Http p s r
  exact ⟨.define p (.start {} {} _), ⟨by decide +kernel, by decide +kernel, by decide +kernel⟩,
    by decide +kernel, by decide +kernel, by decide +kernel, by decide +kernel⟩

end Session

end Binder
