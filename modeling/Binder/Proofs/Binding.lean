import Binder.Proofs.Occurrence
import Binder.Proofs.Sound

/-!
# Bindings

A scope binds the first symbol that is offered under a name and refuses all later ones, each with a
report. What offers add to the scopes and to the redeclarations in the log follows from the offers
alone.

* `Store.bindings`: what is bound in the scope of a symbol, by text.
* `Store.redeclarations`: the redeclarations in the log.
* `Store.Effect`: the first offers of a name are bound, and the others are reported, in order.
* `Store.Offering.effect`: the effect of one offer.
-/

namespace Binder

/-- The redeclarations in a log: where each is, and what it says. -/
def Log.redeclarations (l : Log) : List (Span × String) :=
  (l.withCode "E0004").map fun d => (d.span, d.message)

theorem Log.redeclarations_append (l l' : Log) :
    redeclarations (l ++ l') = redeclarations l ++ redeclarations l' := by
  rw [redeclarations, withCode, List.filter_append, List.map_append]
  rfl

namespace Store

/-- The entries of the scope of a symbol; none if there is no scope. -/
def entries (s : Store) (c : SymbolId) : List (Name × SymbolId) :=
  (((s.table.scopeOf c).bind s.table.scope?).map (·.entries)).getD []

/-- What is bound in the scope of a symbol, by the texts of the names, in the order of definition. -/
def bindings (s : Store) (c : SymbolId) : List (String × Option SymbolId) :=
  (s.entries c).map fun e => (s.names.text e.1, some e.2)

/-- Whether `text` is bound in the scope of `c`. -/
def binds (s : Store) (c : SymbolId) (text : String) : Bool :=
  ((s.bindings c).map (·.1)).contains text

/-- Whether a place is taken. -/
def taken (s : Store) (place : Option SymbolId × String) : Bool :=
  place.1.any fun c => s.binds c place.2

/-- The redeclarations in the log. -/
def redeclarations (s : Store) : List (Span × String) := s.log.redeclarations

variable {s s' : Store} {c : SymbolId}

/-! ## Entries and texts -/

theorem entries_of_scopeOf {i : ScopeId} {sc : Scope} (h : s.table.scopeOf c = some i)
    (hi : s.table.scope? i = some sc) : s.entries c = sc.entries := by
  rw [entries, h, Option.bind_some, hi]
  rfl

theorem entries_eq_nil (h : s.table.scopeOf c = none) : s.entries c = [] := by
  rw [entries, h]
  rfl

theorem Sound.text?_of_mem_entries (hs : s.Sound) {e : Name × SymbolId} (he : e ∈ s.entries c) :
    s.names.text? e.1 = some (s.names.text e.1) := by
  have hsome : (s.names.text? e.1).isSome := by
    unfold entries at he
    cases hsc : (s.table.scopeOf c).bind s.table.scope? with
    | none =>
      rw [hsc] at he
      cases he
    | some sc =>
      obtain ⟨i, _, hi⟩ := Option.bind_eq_some_iff.1 hsc
      rw [hsc] at he
      exact hs.entryText i sc hi e he
  obtain ⟨u, hu⟩ := Option.isSome_iff_exists.1 hsome
  rw [Names.text, hu, Option.getD_some]

/-- The bindings are the same if the entries are, and the names keep their texts. -/
theorem Sound.bindings_eq (hs : s.Sound) (g : s.names.texts <+: s'.names.texts)
    (h : s'.entries c = s.entries c) : s'.bindings c = s.bindings c := by
  rw [bindings, bindings, h]
  refine List.map_congr_left fun e he => ?_
  have htext : s'.names.text? e.1 = some (s.names.text e.1) :=
    Names.text?_mono g (hs.text?_of_mem_entries he)
  rw [Names.text, htext, Option.getD_some]

/-- A name is bound in the scope of a symbol exactly if its text is. -/
theorem Sound.binds_iff (hs : s.Sound) {i : ScopeId} {sc : Scope} (h : s.table.scopeOf c = some i)
    (hi : s.table.scope? i = some sc) {name : Name} {text : String}
    (hname : s.names.text? name = some text) :
    s.binds c text = true ↔ (sc.get? name).isSome := by
  rw [binds, List.contains_iff_mem, bindings, List.map_map, List.mem_map,
    entries_of_scopeOf h hi, Scope.get?, List.lookup_isSome_iff]
  constructor
  · rintro ⟨e, he, rfl⟩
    have htext := hs.text?_of_mem_entries (entries_of_scopeOf h hi ▸ he)
    exact ⟨e, he, beq_iff_eq.2 (s.names.text?_inj hname htext)⟩
  · rintro ⟨e, he, hne⟩
    refine ⟨e, he, ?_⟩
    have hname' : s.names.text? e.1 = some text := beq_iff_eq.1 hne ▸ hname
    rw [Function.comp_apply, Names.text, hname', Option.getD_some]

/-- The entries after a name was bound, if it was free, in the scope of `c`. -/
theorem Sound.entries_bind (hs : s.Sound) {i : ScopeId} {sc : Scope}
    (h : s.table.scopeOf c = some i) (hi : s.table.scope? i = some sc) (name : Name) (x : SymbolId)
    (log : Log) (c' : SymbolId) :
    entries { s with table := s.table.bind i name x, log } c' =
      s.entries c' ++ if c' = c ∧ sc.get? name = none then [(name, x)] else [] := by
  by_cases hc : c' = c
  · subst hc
    have hi' : (s.table.bind i name x).scope? i = some ((sc.define? name x).getD sc) := by
      rw [Table.scope?_bind, if_pos rfl, hi, Option.map_some]
    rw [entries_of_scopeOf (s := { s with table := s.table.bind i name x, log }) h hi',
      entries_of_scopeOf h hi]
    unfold Scope.define?
    cases hget : sc.get? name <;> simp
  · rw [if_neg fun h => hc h.1, List.append_nil]
    cases hc' : s.table.scopeOf c' with
    | none =>
      rw [entries_eq_nil hc',
        entries_eq_nil (s := { s with table := s.table.bind i name x, log }) hc']
    | some j =>
      -- Another symbol has another scope.
      have hji : j ≠ i := fun hji => hc (Option.some.inj
        ((hs.linked.ownerOf_of_scopeOf (hji ▸ hc')).symm.trans (hs.linked.ownerOf_of_scopeOf h)))
      obtain ⟨sc', hsc', _⟩ := hs.linked.scope?_of_scopeOf hc'
      have hj : (s.table.bind i name x).scope? j = some sc' := by
        rw [Table.scope?_bind, if_neg hji, hsc']
      rw [entries_of_scopeOf hc' hsc',
        entries_of_scopeOf (s := { s with table := s.table.bind i name x, log }) hc' hj]

/-! ## One offer -/

/-- The symbol `x` can be offered to `scope` under `name`, which is what the offer `o` says. -/
structure Offering (s : Store) (o : Offer) (scope : ScopeId) (name : Name) (x : SymbolId) :
    Prop where
  scopeOf : ∃ c, o.container = some c ∧ s.table.scopeOf c = some scope
  text : s.names.text? name = some o.text
  symbol : o.symbol = some x
  kind : s.table.kindOf x = some o.kind

/-- What the offers `os` do to the bindings and redeclarations of a store. -/
structure Effect (s : Store) (os : List Offer) (s' : Store) : Prop where
  container : ∀ o ∈ os, o.container.isSome
  bindings : ∀ c, s'.bindings c = s.bindings c ++
    ((firsts Offer.place s.taken os).filter (·.container == some c)).map Offer.binding
  redeclarations : s'.redeclarations =
    s.redeclarations ++ (repeats Offer.place s.taken os).map Offer.complaint

theorem Offering.effect {o : Offer} {scope : ScopeId} {name : Name} {x : SymbolId}
    (h : s.Offering o scope name x) (hs : s.Sound) :
    s.Effect [o] (define o.span scope name x s).2 := by
  obtain ⟨c, hcontainer, hscope⟩ := h.scopeOf
  obtain ⟨sym, hx, hkind⟩ := Option.map_eq_some_iff.1 h.kind
  obtain ⟨sc, hsc, _⟩ := hs.linked.scope?_of_scopeOf hscope
  have htaken : s.taken o.place = s.binds c o.text := by
    rw [taken, Offer.place, hcontainer, Option.any_some]
  have hbinds := hs.binds_iff hscope hsc h.text
  rw [← htaken] at hbinds
  rw [define_eq hx]
  refine ⟨fun o' ho' => ?_, fun c' => ?_, ?_⟩
  · rw [List.mem_singleton.1 ho', hcontainer]
    rfl
  · rw [bindings, hs.entries_bind hscope hsc, List.map_append, firsts_singleton]
    congr 1
    by_cases ht : s.taken o.place
    · rw [if_pos ht, if_neg fun h => by rw [h.2] at hbinds; exact absurd (hbinds.1 ht) nofun]
      rfl
    · have hfree : sc.get? name = none := by
        rw [← Option.not_isSome_iff_eq_none, ← hbinds]
        exact ht
      rw [if_neg ht]
      by_cases hc : c' = c
      · rw [if_pos ⟨hc, hfree⟩,
          List.filter_cons_of_pos (by rw [hcontainer, hc]; exact beq_self_eq_true _)]
        rw [List.map_singleton, Names.text, h.text, List.filter_nil, List.map_singleton,
          Offer.binding, h.symbol]
        rfl
      · rw [if_neg fun h => hc h.1, List.filter_cons_of_neg]
        · rfl
        · rw [hcontainer, beq_iff_eq]
          exact fun h => hc (Option.some.inj h).symm
  · rw [redeclarations, Log.redeclarations_append, repeats_singleton]
    congr 1
    unfold clash
    by_cases ht : s.taken o.place
    · obtain ⟨y, hy⟩ := Option.isSome_iff_exists.1 (hbinds.1 ht)
      have hmem : (name, y) ∈ sc.entries := mem_of_lookup hy
      obtain ⟨previous, hprevious, _⟩ := (hs.linked.scope scope sc hsc).entry (name, y) hmem
      have hbound : s.table.bound? scope name = some previous := by
        rw [Table.bound?, hsc, Option.bind_some, hy, Option.bind_some, hprevious]
      have htext : s.names.text name = o.text := by rw [Names.text, h.text, Option.getD_some]
      rw [if_pos ht, hbound, hkind, htext]
      rfl
    · have hfree : sc.get? name = none := by
        rw [← Option.not_isSome_iff_eq_none, ← hbinds]
        exact ht
      have hbound : s.table.bound? scope name = none := by
        rw [Table.bound?, hsc, Option.bind_some, hfree]
        rfl
      rw [if_neg ht, hbound]
      rfl

/-! ## Effects -/

namespace Effect

variable {s₁ : Store} {os os' : List Offer}

/-- Without offers, nothing is bound and nothing is redeclared. -/
theorem of_eq (hbindings : ∀ c, s'.bindings c = s.bindings c)
    (hlog : s'.redeclarations = s.redeclarations) : s.Effect [] s' where
  container _ ho := absurd ho List.not_mem_nil
  bindings c := (hbindings c).trans (List.append_nil _).symm
  redeclarations := hlog.trans (List.append_nil _).symm

theorem bindings_nil (h : s.Effect [] s') (c : SymbolId) : s'.bindings c = s.bindings c :=
  (h.bindings c).trans (List.append_nil _)

/-- The places taken afterwards are those taken before and those of the offers. -/
theorem taken (h : s.Effect os s') (place : Option SymbolId × String) :
    s'.taken place = ((os.map Offer.place).contains place || s.taken place) := by
  obtain ⟨c, text⟩ := place
  rw [Bool.eq_iff_iff, Bool.or_eq_true, List.contains_iff_mem]
  cases c with
  | none =>
    refine ⟨fun h => absurd h nofun, fun h' => h'.elim (fun hmem => ?_) fun h => absurd h nofun⟩
    obtain ⟨o, ho, hplace⟩ := List.mem_map.1 hmem
    have hcontainer := h.container o ho
    rw [show o.container = none from congrArg Prod.fst hplace] at hcontainer
    cases hcontainer
  | some c =>
    rw [← mem_keys_firsts_or]
    simp only [Store.taken, Option.any_some, binds, h.bindings, List.map_append, List.map_map,
      List.contains_iff_mem, List.mem_append, List.mem_map, List.mem_filter, beq_iff_eq]
    rw [or_comm]
    refine or_congr_left ⟨?_, ?_⟩
    · rintro ⟨o, ⟨ho, hc⟩, htext⟩
      exact ⟨o, ho, Prod.ext hc htext⟩
    · rintro ⟨o, ho, hplace⟩
      exact ⟨o, ⟨ho, congrArg Prod.fst hplace⟩, congrArg Prod.snd hplace⟩

theorem trans (h : s.Effect os s₁) (h' : s₁.Effect os' s') : s.Effect (os ++ os') s' where
  container o ho := (List.mem_append.1 ho).elim (h.container o) (h'.container o)
  bindings c := by
    rw [firsts_append, List.filter_append, List.map_append, ← List.append_assoc, ← h.bindings,
      h'.bindings, funext h.taken]
  redeclarations := by
    rw [repeats_append, List.map_append, ← List.append_assoc, ← h.redeclarations,
      h'.redeclarations, funext h.taken]

end Effect

/-! ## Making a symbol -/

section

variable {m : Mark} {o : Offer} {scope : ScopeId} {name : Name} {pkg : PackageId} {table : Table}
  {sym : Symbol}

/-- A symbol that is made has no effect before it is offered. -/
theorem Made.effect (h : s.Made o name pkg table sym) (hs : s.Sound) :
    s.Effect [] { s with table } := by
  refine .of_eq (fun c' => hs.bindings_eq List.prefix_rfl ?_) rfl
  cases hold : s.table.symbol? c' with
  | some y =>
    have hnew : table.symbol? c' = some y := by
      rw [h.symbol, if_neg (s.table.ne_nextSymbol hold), hold]
    cases hscope : y.scope with
    | none =>
      have hi : s.table.scopeOf c' = none := by rw [Table.scopeOf, hold, Option.bind_some, hscope]
      have hi' : table.scopeOf c' = none := by rw [Table.scopeOf, hnew, Option.bind_some, hscope]
      exact (entries_eq_nil (s := { s with table }) hi').trans (entries_eq_nil hi).symm
    | some i =>
      have hi : s.table.scopeOf c' = some i := by
        rw [Table.scopeOf, hold, Option.bind_some, hscope]
      have hi' : table.scopeOf c' = some i := h.grows.table.scopeOf hi
      obtain ⟨sc, hsc, _⟩ := hs.linked.scope?_of_scopeOf hi
      obtain ⟨sc', hsc', _⟩ := h.grows.table.scope hsc
      rw [entries_of_scopeOf hi hsc, entries_of_scopeOf (s := { s with table }) hi' hsc']
      rcases h.scope i sc' hsc' with hsame | ⟨hnone, _⟩
      · rw [Option.some.inj (hsc.symm.trans hsame)]
      · rw [hsc] at hnone
        cases hnone
  | none =>
    -- A new scope is empty.
    have hnone : s.entries c' = [] :=
      entries_eq_nil (by rw [Table.scopeOf, hold, Option.bind_none])
    rw [hnone]
    cases hi : table.scopeOf c' with
    | none => exact entries_eq_nil hi
    | some i =>
      obtain ⟨sc, hsc, howner⟩ := h.sound.linked.scope?_of_scopeOf hi
      rw [entries_of_scopeOf (s := { s with table }) hi hsc]
      rcases h.scope i sc hsc with hsame | ⟨_, hempty⟩
      · have hi' := (hs.linked.scope i sc hsame).owner
        rw [howner, Table.scopeOf, hold] at hi'
        cases hi'
      · exact hempty

/-- A symbol is made and offered. -/
theorem Made.effect_offerNext (h : s.Made o name pkg table sym) (hs : s.Sound) {c : SymbolId}
    (ha : s.Admits m o c scope name pkg) :
    s.Effect [o] (s.offerNext (o.toSymbol name pkg) scope table) := by
  have hoffering : Offering { s with table } o scope name s.table.nextSymbol :=
    ⟨⟨c, ha.container, h.grows.table.scopeOf ha.scopeOf⟩, ha.text, ha.symbol, by
      rw [Table.kindOf, h.symbol?_next, Option.map_some]
      exact congrArg some (congrArg Symbol.kind h.core)⟩
  exact (h.effect hs).trans (hoffering.effect h.sound)

end

end Store

end Binder
