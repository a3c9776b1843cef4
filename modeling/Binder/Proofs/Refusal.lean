import Binder.Proofs.Contents
import Binder.Proofs.Meaning

/-!
# Refused offers

An offer is refused if its name is taken in the scope, and the report points at the symbol that has
the name. What is bound stays bound, so this can be looked up at the end as well. A symbol stands
where it was declared, and that of an import is the imported package, which stands elsewhere.

* `Offer.refusal`: the report of an offer that is refused.
* `Store.Run.refusals`: the redeclarations that a run reports.
* `Heading.clashes`, `Signpost.clashes`: the redeclarations in a scope, by what is declared there and
  where it is pointed at.
-/

namespace Binder

/-- The redeclarations in a log, as they are reported. -/
def Log.refusals (l : Log) : Log := l.withCode "E0004"

theorem Log.refusals_append (l l' : Log) : refusals (l ++ l') = refusals l ++ refusals l' :=
  List.filter_append ..

namespace Store

def refusals (s : Store) : Log := s.log.refusals

/-- Where the symbol stands that is bound at a place. -/
def spanAt? (s : Store) (place : Option SymbolId × String) : Option Span :=
  ((place.1.bind fun c => s.bound? c place.2).bind s.table.symbol?).map (·.span)

end Store

/-- The report of an offer that is refused, as its place is taken. -/
def Offer.refusal (s : Store) (o : Offer) : Diagnostic :=
  (Problem.redeclared o.kind.word o.text ((s.spanAt? o.place).getD default)).diagnostic o.span

namespace Store

variable {s s₁ s' : Store} {o : Offer} {os : List Offer} {scope : ScopeId} {name : Name}

/-! ## One offer -/

/-- A symbol that is offered where the name is taken is refused. -/
theorem Offering.clash_eq {x : SymbolId} (h : s.Offering o scope name x) (hs : s.Sound) :
    s.clash o.span scope name o.kind = if s.taken o.place then [o.refusal s] else [] := by
  obtain ⟨c, hcontainer, hscope⟩ := h.scopeOf
  obtain ⟨sc, hsc, _⟩ := hs.linked.scope?_of_scopeOf hscope
  have hbound : s.bound? c o.text = sc.get? name := hs.bound?_eq_get? hscope hsc h.text
  have htaken : s.taken o.place = (sc.get? name).isSome := by
    rw [taken, Offer.place, hcontainer, Option.any_some, ← hbound, Bool.eq_iff_iff,
      isSome_bound?_iff]
  have htext : s.names.text name = o.text := by rw [Names.text, h.text, Option.getD_some]
  rw [htaken, clash, Table.bound?, hsc, Option.bind_some]
  cases hget : sc.get? name with
  | none => rfl
  | some y =>
    have hmem : (name, y) ∈ sc.entries := mem_of_lookup hget
    obtain ⟨previous, hprevious, _⟩ := (hs.linked.scope scope sc hsc).entry (name, y) hmem
    have hspan : s.spanAt? o.place = some previous.span := by
      rw [spanAt?, Offer.place, hcontainer, Option.bind_some, hbound, hget, Option.bind_some,
        hprevious, Option.map_some]
    rw [Option.bind_some, hprevious, Option.isSome_some, if_pos rfl, Offer.refusal, hspan, htext]
    rfl

/-- What is bound in a scope is bound there still when there is more. -/
theorem spanAt?_eq_of_prefix {c : SymbolId} (hs : s.Sound) (g : s.Grows s')
    (hb : s.bindings c <+: s'.bindings c) {text : String} (ht : s.taken (some c, text)) :
    s'.spanAt? (some c, text) = s.spanAt? (some c, text) := by
  obtain ⟨more, hmore⟩ := hb
  obtain ⟨x, hx⟩ := Option.isSome_iff_exists.1 (isSome_bound?_iff.2 ht)
  obtain ⟨sym, hsym⟩ := hs.symbol?_of_bound? hx
  obtain ⟨sym', hsym', hcore, _⟩ := g.table.symbol hsym
  have hx' : s'.bound? c text = some x := by
    rw [bound?, Option.join_eq_some_iff] at hx ⊢
    rw [← hmore, List.lookup_append, hx, Option.some_or]
  rw [spanAt?, spanAt?, Option.bind_some, Option.bind_some, hx, hx', Option.bind_some,
    Option.bind_some, hsym, hsym', Option.map_some, Option.map_some,
    Symbol.eq_of_core Symbol.span (fun _ => rfl) hcore]

/-- What is bound at a place that is taken is bound there still. -/
theorem Effect.spanAt?_eq (h : s.Effect os s') (g : s.Grows s') (hs : s.Sound)
    {place : Option SymbolId × String} (ht : s.taken place) : s'.spanAt? place = s.spanAt? place := by
  obtain ⟨c, text⟩ := place
  cases c with
  | none => cases ht
  | some c => exact spanAt?_eq_of_prefix hs g (h.bindings c ▸ List.prefix_append _ _) ht

theorem Effect.map_refusal_eq (h : s.Effect os s') (g : s.Grows s') (hs : s.Sound)
    {os' : List Offer} (ht : ∀ o ∈ os', s.taken o.place) :
    os'.map (·.refusal s') = os'.map (·.refusal s) :=
  List.map_congr_left fun o ho => by
    rw [Offer.refusal, Offer.refusal, h.spanAt?_eq g hs (ht o ho)]

/-- What offers have been refused, as their places are taken. -/
theorem Effect.taken_of_mem_repeats (h : s.Effect os s') {free : Option SymbolId × String → Bool} :
    ∀ o ∈ repeats Offer.place free os, s'.taken o.place := fun o ho => by
  rw [h.taken, Bool.or_eq_true, List.contains_iff_mem]
  exact .inl (List.mem_map_of_mem (mem_of_mem_repeats ho))

/-- A redeclaration is reported when a symbol is offered that is refused. -/
theorem Made.refusals_offerNext {m : Mark} {c : SymbolId} {pkg : PackageId} {table : Table}
    {sym : Symbol} (h : s.Made o name pkg table sym) (hs : s.Sound)
    (ha : s.Admits m o c scope name pkg)
    (hf : s.Follows [o] (s.offerNext (o.toSymbol name pkg) scope table)) :
    (s.offerNext (o.toSymbol name pkg) scope table).refusals =
      s.refusals ++ (repeats Offer.place s.taken [o]).map
        (·.refusal (s.offerNext (o.toSymbol name pkg) scope table)) := by
  have hkind : sym.kind = o.kind := congrArg Symbol.kind h.core
  have hoffering : Offering { s with table } o scope name s.table.nextSymbol :=
    ⟨⟨c, ha.container, h.grows.table.scopeOf ha.scopeOf⟩, ha.text, ha.symbol, by
      rw [Table.kindOf, h.symbol?_next, Option.map_some]
      exact congrArg some hkind⟩
  have hmade := h.effect hs
  have htaken : taken { s with table } o.place = s.taken o.place := hmade.taken o.place
  have hlog : (s.offerNext (o.toSymbol name pkg) scope table).log = s.log ++
      clash { s with table } o.span scope name o.kind := by
    rw [offerNext_eq h.symbol?_next, hkind]
    rfl
  rw [refusals, hlog, Log.refusals_append, hoffering.clash_eq h.sound, htaken, repeats_singleton]
  refine congrArg (s.refusals ++ ·) ?_
  by_cases ht : s.taken o.place
  · rw [if_pos ht, if_pos ht, hf.effect.map_refusal_eq hf.grows hs fun o' ho' =>
      List.mem_singleton.1 ho' ▸ ht, ← hmade.map_refusal_eq h.grows hs fun o' ho' =>
      List.mem_singleton.1 ho' ▸ ht]
    rfl
  · rw [if_neg ht, if_neg ht]
    rfl

/-! ## Runs -/

/-- What is refused later is reported later. -/
theorem Follows.refusals_trans {os' : List Offer} (hf : s.Follows os s₁) (hf' : s₁.Follows os' s')
    (h : s₁.refusals = s.refusals ++ (repeats Offer.place s.taken os).map (·.refusal s₁))
    (h' : s'.refusals = s₁.refusals ++ (repeats Offer.place s₁.taken os').map (·.refusal s')) :
    s'.refusals = s.refusals ++ (repeats Offer.place s.taken (os ++ os')).map (·.refusal s') := by
  rw [h', h, repeats_append, List.map_append, funext hf.effect.taken,
    hf'.effect.map_refusal_eq hf'.grows hf.sound hf.effect.taken_of_mem_repeats,
    List.append_assoc]

/-- The offers of a run that are refused are reported, in order. -/
theorem Run.refusals {m : Mark} (h : Run m s os s') (hs : s.Sound) :
    s'.refusals = s.refusals ++ (repeats Offer.place s.taken os).map (·.refusal s') := by
  induction h with
  | refl => exact (List.append_nil _).symm
  | trans h h' ih ih' =>
    have hf := h.follows hs
    exact hf.refusals_trans (h'.follows hf.sound) (ih hs) (ih' hf.sound)
  | intern => exact (List.append_nil _).symm
  | report s p span hp =>
    -- The problem is no redeclaration.
    have hcode : (p.diagnostic span).code ≠ "E0004" := by
      cases p with
      | redeclared => cases hp
      | _ => exact of_decide_eq_true rfl
    rw [Store.refusals, Store.report, Log.refusals_append, Log.refusals, Log.refusals, Log.withCode,
      Log.withCode, List.filter_cons_of_neg (by simpa using hcode), List.filter_nil]
    rfl
  | array => exact (List.append_nil _).symm
  | setFields =>
    simp only [Store.setFields]
    split <;> exact (List.append_nil _).symm
  | var h hk hty hu =>
    have hmade := h.made_var hs hk hty hu
    exact hmade.refusals_offerNext hs h
      (hmade.follows_offerNext hs h (by rw [hk]; decide) fun _ => id)
  | container h hk hty hc =>
    have hmade := h.made_container hs hk hty hc
    exact hmade.refusals_offerNext hs h (hmade.follows_offerNext hs h (SymbolKind.of_isType hk).1
      fun ty h => by rw [hty] at h; cases h)
  | callable h hk hty hrun _ _ ih =>
    have hmade := h.made_callable hs hk hty
    have hf := h.follows_callable hs hk hty
    have hf₁ := hrun.follows hf.sound
    have hrefusals := hf.refusals_trans hf₁ (hmade.refusals_offerNext hs h hf) (ih hf.sound)
    -- Completing the callable leaves alone what is bound.
    have hx := hrun.symbol? hf.sound ((hmade.symbol?_offerNext _).trans hmade.symbol?_next)
    have hcomplete := hf₁.sound.follows_complete hx hty
    have hg := hcomplete ‹Signature› ‹Links›
    refine hrefusals.trans (congrArg _ ?_)
    exact (hg.effect.map_refusal_eq hg.grows hf₁.sound
      (hf.trans hf₁).effect.taken_of_mem_repeats).symm

end Store

/-! ## One scope -/

section

variable {α β κ ν : Type} [BEq κ] {key : α → κ} {taken : κ → Bool} {xs : List α}

theorem repeats_map (g : β → α) (xs : List β) :
    repeats key taken (xs.map g) = (repeats (fun x => key (g x)) taken xs).map g := by
  induction xs generalizing taken with
  | nil => rfl
  | cons x xs ih =>
    rw [List.map_cons, repeats_cons, repeats_cons, ih, List.map_append]
    cases taken (key (g x)) <;> rfl

/-- What is looked up under a key is what the first element with the key has. -/
theorem lookup_map (key : α → κ) (v : α → ν) (k : κ) (xs : List α) :
    (xs.map fun x => (key x, v x)).lookup k = (xs.find? (k == key ·)).map v := by
  induction xs with
  | nil => rfl
  | cons x xs ih =>
    rw [List.map_cons, List.lookup_cons, List.find?_cons, ih]
    cases k == key x <;> rfl

/-- The first element with a free key gets it. -/
theorem find?_firsts [LawfulBEq κ] {k : κ} (hk : taken k = false) :
    (firsts key taken xs).find? (k == key ·) = xs.find? (k == key ·) := by
  induction xs generalizing taken with
  | nil => rfl
  | cons x xs ih =>
    rw [firsts_cons, List.find?_append, List.find?_cons]
    by_cases hx : k = key x
    · subst hx
      simp [hk]
    · have hne : (k == key x) = false := beq_eq_false_iff_ne.2 hx
      rw [ih (by rw [hne, hk]; rfl), hne]
      cases taken (key x) <;> simp [hne]

end

/-- What is reported of declarations in one scope, by their headings: all but the first ones of their
    names are refused. -/
def Heading.clashes (hs : List Heading) : Log :=
  (repeats Prod.fst (fun _ => false) hs).map fun h =>
    (Problem.redeclared h.2.1.word h.1
      (((hs.find? (h.1 == ·.1)).map (·.2.2)).getD default)).diagnostic h.2.2

/-- A heading, with the place that is pointed at when the name is declared again. -/
abbrev Signpost := Heading × Span

/-- A declaration that is pointed at where it is. -/
def Heading.signpost (h : Heading) : Signpost := (h, h.2.2)

/-- What is reported of declarations in one scope: all but the first ones of their names are refused,
    and it is pointed where the first one's signpost says. -/
def Signpost.clashes (ps : List Signpost) : Log :=
  (repeats (·.1.1) (fun _ => false) ps).map fun p =>
    (Problem.redeclared p.1.2.1.word p.1.1
      (((ps.find? (p.1.1 == ·.1.1)).map (·.2)).getD default)).diagnostic p.1.2.2

/-- What is declared again where everything is pointed at where it is. -/
theorem Heading.clashes_signpost (hs : List Heading) :
    Signpost.clashes (hs.map signpost) = clashes hs := by
  rw [Signpost.clashes, clashes, repeats_map, List.map_map]
  refine List.map_congr_left fun h _ => ?_
  rw [Function.comp_apply, List.find?_map, Option.map_map]
  rfl

/-- The signpost of what is offered points at the symbol that it is offered with. -/
def Offer.signpost (s : Store) (o : Offer) : Signpost :=
  (o.heading, ((o.symbol.bind s.table.symbol?).map (·.span)).getD default)

namespace Store

variable {s : Store} {x : SymbolId} {os : List Offer}

/-- If the first offers of their names are bound in a scope, a name is bound to what was offered first
    under it. -/
theorem bound?_eq_find?
    (hb : s.bindings x = (firsts Offer.text (fun _ => false) os).map Offer.binding) (text : String) :
    s.bound? x text = (os.find? (text == Offer.text ·)).bind Offer.symbol := by
  have hlookup := lookup_map Offer.text Offer.symbol text (firsts Offer.text (fun _ => false) os)
  rw [find?_firsts rfl] at hlookup
  rw [bound?, hb, show ((firsts Offer.text (fun _ => false) os).map Offer.binding).lookup text = _
    from hlookup]
  cases os.find? (text == Offer.text ·) <;> rfl

/-- The offers that are refused in one scope are those that their signposts tell. -/
theorem map_refusal_eq_clashes (hcontainer : ∀ o ∈ os, o.container = some x)
    (hb : s.bindings x = (firsts Offer.text (fun _ => false) os).map Offer.binding) :
    (repeats Offer.text (fun _ => false) os).map (·.refusal s) =
      Signpost.clashes (os.map (·.signpost s)) := by
  rw [Signpost.clashes, repeats_map, List.map_map]
  refine List.map_congr_left fun o ho => ?_
  have hmem := mem_of_mem_repeats ho
  have hsome : (os.find? (o.text == Offer.text ·)).isSome :=
    List.find?_isSome.2 ⟨o, hmem, beq_self_eq_true o.text⟩
  obtain ⟨first, hfirst⟩ := Option.isSome_iff_exists.1 hsome
  have hpost : (os.map (·.signpost s)).find? (o.text == ·.1.1) = some (first.signpost s) := by
    rw [List.find?_map]
    exact congrArg (Option.map (·.signpost s)) hfirst
  rw [Function.comp_apply, Offer.refusal, spanAt?, Offer.place, hcontainer o hmem, Option.bind_some,
    bound?_eq_find? hb, hfirst, Option.bind_some, show (o.signpost s).1.1 = o.text from rfl, hpost]
  rfl

/-- What has got its symbol is pointed at where it is. -/
theorem signpost_of_has {o : Offer} (h : s.Has o) : o.signpost s = o.heading.signpost := by
  obtain ⟨y, sym, hy, hsym, _, _, _, hspan, _⟩ := h
  rw [Offer.signpost, hy, Option.bind_some, hsym, Option.map_some, Option.getD_some, hspan]
  rfl

/-- The offers that are refused in one scope are those that their headings tell. -/
theorem map_refusal (hcontainer : ∀ o ∈ os, o.container = some x) (hhas : ∀ o ∈ os, s.Has o)
    (hb : s.bindings x = (firsts Offer.text (fun _ => false) os).map Offer.binding) :
    (repeats Offer.text (fun _ => false) os).map (·.refusal s) =
      Heading.clashes (os.map Offer.heading) := by
  rw [map_refusal_eq_clashes hcontainer hb, ← Heading.clashes_signpost, List.map_map]
  exact congrArg _ (List.map_congr_left fun o ho => signpost_of_has (hhas o ho))

end Store

end Binder
