import Binder.Proofs.Lookup
import Binder.Proofs.Scopes

/-!
# Turns of imports

The imports of a package have their turns one after another, whatever has become of those before. In
its turn, the package that an import asks for is loaded, which may enter other packages on the way.
What is left to do for the import itself is little: it gets its symbol and is offered to the scope of
the importing package, or it is reported. So a turn is the session in which it begins with the answer
and the session that the load comes to, and all else follows from that.

* `Import.turns`: the turns of imports, in order.
* `Import.Tried`: what turns come to for the importing package, all in all.
* `Import.enterAll_turns`: imports are entered turn by turn.
-/

namespace Binder

/-! ## Names that are bound already -/

namespace Store

variable {s s' : Store} {c : SymbolId}

/-- The report of a name that is bound already, by its text. -/
theorem Sound.clash_eq (hs : s.Sound) {scope : ScopeId} (hscope : s.table.scopeOf c = some scope)
    {name : Name} {text : String} (hname : s.names.text? name = some text) (span : Span)
    (kind : SymbolKind) : s.clash span scope name kind =
      (((s.bound? c text).bind s.table.symbol?).map fun previous =>
        (Problem.redeclared kind.word text previous.span).diagnostic span).toList := by
  obtain ⟨sc, hsc, _⟩ := hs.linked.scope?_of_scopeOf hscope
  have htext : s.names.text name = text := by rw [Names.text, hname, Option.getD_some]
  rw [clash, Table.bound?, hsc, Option.bind_some, hs.bound?_eq_get? hscope hsc hname, htext]
  cases (sc.get? name).bind s.table.symbol? <;> rfl

/-- A symbol is offered under a text: nothing is made for it, and a clash is reported. -/
theorem Sound.define_intern (hs : s.Sound) {scope : ScopeId} (hscope : s.table.scopeOf c = some scope)
    {x : SymbolId} {sym : Symbol} (hx : s.table.symbol? x = some sym) (text : String) (span : Span) :
    let s' : Store := (Store.define span scope (intern text s).1 x (intern text s).2).2
    s'.log = s.log ++ (((s.bound? c text).bind s.table.symbol?).map fun previous =>
        (Problem.redeclared sym.kind.word text previous.span).diagnostic span).toList ∧
      (∀ y, s'.table.symbol? y = s.table.symbol? y) ∧
      ∀ j, (s'.table.scope? j).isSome = (s.table.scope? j).isSome := by
  intro s'
  have hintern : Run s.mark s [] (intern text s).2 := .intern _ _
  have hbindings := (hintern.follows hs).effect.bindings_nil c
  have hclash := (hintern.sound hs).clash_eq (c := c) hscope (s.names.text?_intern text) span sym.kind
  have hbound : (intern text s).2.bound? c text = s.bound? c text := by
    rw [bound?, hbindings, bound?]
  rw [hbound] at hclash
  rw [show s' = _ from define_eq (s := (intern text s).2) hx]
  refine ⟨congrArg (s.log ++ ·) hclash, fun _ => rfl, fun j => ?_⟩
  rw [Table.scope?_bind]
  split
  · exact Option.isSome_map
  · rfl

/-- The first offers of a name in one scope are bound there. -/
theorem Effect.bindings_of_container {os : List Offer} (h : s.Effect os s')
    (hos : ∀ o ∈ os, o.container = some c) : s'.bindings c = s.bindings c ++
      (firsts Offer.text (s.binds c) os).map Offer.binding := by
  have hfirsts : firsts Offer.place s.taken os = firsts Offer.text (s.binds c) os :=
    Offer.firsts_place hos s.taken
  rw [h.bindings, hfirsts, List.filter_eq_self.2 fun o ho => by
    rw [hos o (mem_of_mem_firsts ho)]
    exact beq_self_eq_true _]

/-- The names bound after offers to the scope are those bound before and those of the offers. -/
theorem binds_of_bindings {os : List Offer} (h : s'.bindings c = s.bindings c ++
    (firsts Offer.text (s.binds c) os).map Offer.binding) (text : String) :
    s'.binds c text = ((os.map Offer.text).contains text || s.binds c text) := by
  have hkeys : text ∈ (firsts Offer.text (s.binds c) os).map Offer.text ∨ s.binds c text ↔
      text ∈ os.map Offer.text ∨ s.binds c text := mem_keys_firsts_or text
  have hmap : ((firsts Offer.text (s.binds c) os).map Offer.binding).map (·.1) =
      (firsts Offer.text (s.binds c) os).map Offer.text := List.map_map
  rw [Bool.eq_iff_iff, Bool.or_eq_true, List.contains_iff_mem, ← hkeys, binds, h, List.map_append,
    hmap, List.contains_iff_mem, List.mem_append, or_comm, binds, List.contains_iff_mem]

end Store

namespace Import

/-! ## Turns -/

/-- The turn of an import: the session in which it is asked for, and what loading comes to. -/
structure Turn where
  written : Import
  before : Session
  answer : Except LoadError SymbolId
  loaded : Session

/-- The turn that an import has in a session. -/
def turn (load : Loader) (i : Import) (s : Session) : Turn :=
  ⟨i, s, (i.loaded load s).1, (i.loaded load s).2⟩

/-- The turns of imports, in order. -/
def turns (load : Loader) (site : Site) : List Import → Session → List Turn
  | [], _ => []
  | i :: rest, s => i.turn load s :: turns load site rest (i.enter load site s).2

namespace Turn

variable (t : Turn)

/-- The name of the package that is asked for, made in the session where the turn begins. -/
def asked : PackageName × Session := t.written.targetName t.before

/-- What the load comes to. -/
def answered : Except LoadError SymbolId × Session := (t.answer, t.loaded)

/-- The package that is asked for. -/
def package : String := PackageName.render t.written.target.1 t.written.target.2

/-- The import as it comes out: with its symbol if it is had, else as it was written. -/
def entered : Import :=
  match t.answer with
  | .ok x => { t.written with symbol := some x }
  | .error _ => t.written

/-- Why the importing package cannot be entered, if the import is not had. -/
def failure? : Option EnterError :=
  match t.answer with
  | .ok _ => none
  | .error e => some ⟨t.package, e⟩

/-- What is offered to the scope of the importing package. -/
def offers (c : SymbolId) : List Offer :=
  match t.answer with
  | .ok x => [{ t.written with symbol := some x }.offer (some c)]
  | .error _ => []

/-- What the load reports. -/
def loadLog : Log := t.loaded.store.log.drop t.before.store.log.length

/-- What is reported of the import itself: that it is not had, or that its local name is bound in
    the scope of the importing package already. -/
def ownLog (c : SymbolId) : Log :=
  match t.answer with
  | .ok _ =>
    let s := t.loaded.store
    (((s.bound? c t.written.localName).bind s.table.symbol?).map fun previous =>
      (Problem.redeclared SymbolKind.package.word t.written.localName previous.span).diagnostic
        t.written.span).toList
  | .error e => [(e.problem t.package).diagnostic t.written.span]

/-- The load makes the symbol. -/
def MakesSymbol (x : SymbolId) : Prop :=
  t.before.store.table.symbol? x = none ∧ (t.loaded.store.table.symbol? x).isSome

/-- The load makes the scope. -/
def MakesScope (i : ScopeId) : Prop :=
  t.before.store.table.scope? i = none ∧ (t.loaded.store.table.scope? i).isSome

end Turn

theorem map_written_turns (load : Loader) (site : Site) (imports : List Import) (s : Session) :
    (turns load site imports s).map (·.written) = imports := by
  induction imports generalizing s with
  | nil => rfl
  | cons i rest ih => exact congrArg (i :: ·) (ih _)

/-! ## What turns come to -/

/-- What turns come to for the importing package, whose symbol is `c`. What the loads make is kept
    apart. -/
structure Tried (c : SymbolId) (s : Session) (turns : List Turn) (s' : Session) : Prop where
  log : s'.store.log = s.store.log ++ turns.flatMap fun t => t.loadLog ++ t.ownLog c
  bindings : s'.store.bindings c = s.store.bindings c ++
    (firsts Offer.text (s.store.binds c) (turns.flatMap (·.offers c))).map Offer.binding
  symbol : ∀ x, (s'.store.table.symbol? x).isSome ↔
    (s.store.table.symbol? x).isSome ∨ ∃ t ∈ turns, t.MakesSymbol x
  scope : ∀ i, (s'.store.table.scope? i).isSome ↔
    (s.store.table.scope? i).isSome ∨ ∃ t ∈ turns, t.MakesScope i

namespace Tried

variable {c : SymbolId} {s s₁ s' : Session} {turns turns' : List Turn}

theorem nil (c : SymbolId) (s : Session) : Tried c s [] s where
  log := (List.append_nil _).symm
  bindings := (List.append_nil _).symm
  symbol _ := by simp only [List.not_mem_nil, false_and, exists_false, or_false]
  scope _ := by simp only [List.not_mem_nil, false_and, exists_false, or_false]

theorem append (h : Tried c s turns s₁) (h' : Tried c s₁ turns' s') :
    Tried c s (turns ++ turns') s' where
  log := by rw [h'.log, h.log, List.flatMap_append, List.append_assoc]
  bindings := by
    -- What the first turns have bound is not free for the others.
    rw [h'.bindings, funext (Store.binds_of_bindings h.bindings), h.bindings, List.flatMap_append,
      firsts_append, List.map_append, List.append_assoc]
  symbol x := by simp only [h'.symbol, h.symbol, List.mem_append, or_and_right, exists_or, or_assoc]
  scope i := by simp only [h'.scope, h.scope, List.mem_append, or_and_right, exists_or, or_assoc]

end Tried

/-! ## Entering imports -/

section

variable {load : Loader} {site : Site} {s₀ s : Session}

/-- The package that is asked for keeps its name during the load. -/
theorem text_targetName (hload : load.Sound) (i : Import) (hs : s.Sound) :
    (i.targetName s).1.text (i.loaded load s).2.store.names = (i.turn load s).package := by
  obtain ⟨hs₁, _, hknown⟩ := hs.internPackage i.target.1 i.target.2
  obtain ⟨_, hl, _⟩ := hload _ _ hs₁ hknown
  have hkey := (Store.internPackage_spec i.target.1 i.target.2 s.store).2
  rw [PackageName.text_eq_render,
    show (i.targetName s).1.key (i.loaded load s).2.store.names = i.target from
      (hknown.key_eq hl.keeps.names).trans hkey]
  rfl

/-- What is there after a load was there before or is made by the load. -/
theorem made_turn (hload : load.Sound) (i : Import) (hs : s.Sound) :
    (∀ x, ((i.loaded load s).2.store.table.symbol? x).isSome ↔
      (s.store.table.symbol? x).isSome ∨ (i.turn load s).MakesSymbol x) ∧
    ∀ j, ((i.loaded load s).2.store.table.scope? j).isSome ↔
      (s.store.table.scope? j).isSome ∨ (i.turn load s).MakesScope j := by
  obtain ⟨_, hl, _⟩ := i.loaded_spec hload hs
  refine ⟨fun x => ?_, fun j => ?_⟩
  · cases hx : s.store.table.symbol? x with
    | none => exact ⟨fun h => .inr ⟨hx, h⟩, fun h => h.elim nofun And.right⟩
    | some sym =>
      rw [hl.keeps.symbol hx]
      exact ⟨fun _ => .inl rfl, fun _ => rfl⟩
  · cases hj : s.store.table.scope? j with
    | none => exact ⟨fun h => .inr ⟨hj, h⟩, fun h => h.elim nofun And.right⟩
    | some sc =>
      rw [hl.keeps.scope hj]
      exact ⟨fun _ => .inl rfl, fun _ => rfl⟩

/-- What a turn comes to, by what happens after the load. -/
theorem tried_turn (hload : load.Sound) (i : Import) (h : site.Opens s₀ s) {s' : Session}
    (hlog : s'.store.log =
      (i.loaded load s).2.store.log ++ (i.turn load s).ownLog site.package)
    (hbindings : s'.store.bindings site.package = (i.loaded load s).2.store.bindings site.package ++
      (firsts Offer.text ((i.loaded load s).2.store.binds site.package)
        ((i.turn load s).offers site.package)).map Offer.binding)
    (hsymbol : ∀ x, (s'.store.table.symbol? x).isSome =
      ((i.loaded load s).2.store.table.symbol? x).isSome)
    (hscope : ∀ j, (s'.store.table.scope? j).isSome =
      ((i.loaded load s).2.store.table.scope? j).isSome) :
    Tried site.package s [i.turn load s] s' := by
  obtain ⟨_, hl, _⟩ := i.loaded_spec hload h.sound
  obtain ⟨hmade, hmadeScope⟩ := i.made_turn hload h.sound
  obtain ⟨sym, hsym⟩ := h.exists_symbol
  -- The load changes nothing in the scope of the importing package.
  have hkept := hl.keeps.bindings_eq h.sound.store hsym
  have hbinds : (i.loaded load s).2.store.binds site.package = s.store.binds site.package := by
    funext text
    rw [Store.binds, hkept, Store.binds]
  obtain ⟨log, hloads⟩ := hl.keeps.log
  have hloadLog : (i.turn load s).loadLog = log := by
    rw [Turn.loadLog, turn, ← hloads, List.drop_left]
  refine ⟨?_, ?_, fun x => ?_, fun j => ?_⟩
  · rw [hlog, ← hloads, List.flatMap_singleton, hloadLog, List.append_assoc]
  · rw [hbindings, hkept, hbinds, List.flatMap_singleton]
  · simp only [hsymbol, hmade, List.mem_singleton, exists_eq_left]
  · simp only [hscope, hmadeScope, List.mem_singleton, exists_eq_left]

/-- An import is entered in its turn. -/
theorem enter_turn (hload : load.Sound) (i : Import) (h : site.Opens s₀ s) :
    (i.enter load site s).1 = ((i.turn load s).entered, (i.turn load s).failure?) ∧
      Tried site.package s [i.turn load s] (i.enter load site s).2 := by
  obtain ⟨hs₁, hl, hx⟩ := i.loaded_spec hload h.sound
  have htext := i.text_targetName hload h.sound
  have htried := @tried_turn load site s₀ s hload i h
  cases hi : i.loaded load s with
  | mk answer s₁ =>
    have hturn : i.turn load s = ⟨i, s, answer, s₁⟩ := by rw [turn, hi]
    rw [hi] at hs₁ hl hx htext htried
    rw [hturn] at htext htried ⊢
    cases answer with
    | error e =>
      -- Only the log is concerned.
      rw [enter_of_error hi, htext]
      exact ⟨rfl, htried rfl (List.append_nil _).symm (fun _ => rfl) fun _ => rfl⟩
    | ok x =>
      obtain ⟨sym, hsym, hkind⟩ := Option.map_eq_some_iff.1 (hx x rfl)
      have hscope := hl.keeps.grows.table.scopeOf h.scopeOf
      obtain ⟨_, _, _, heffect⟩ := enter_spec_of_ok hload h hi
      rw [enter_of_ok hi] at heffect ⊢
      obtain ⟨hlog, hsymbol, hscopes⟩ := hs₁.store.define_intern hscope hsym i.localName i.span
      rw [hkind] at hlog
      refine ⟨rfl, htried hlog ?_ (fun y => congrArg _ (hsymbol y)) hscopes⟩
      exact heffect.bindings_of_container fun o ho => congrArg _ (List.mem_singleton.1 ho)

theorem enterAll_turns (hload : load.Sound) (imports : List Import) (h : site.Opens s₀ s) :
    (enterAll load site imports s).1 = ((turns load site imports s).map Turn.entered,
        (turns load site imports s).findSome? Turn.failure?) ∧
      Tried site.package s (turns load site imports s) (enterAll load site imports s).2 := by
  induction imports generalizing s with
  | nil => exact ⟨rfl, .nil _ _⟩
  | cons i rest ih =>
    obtain ⟨hentered, htried⟩ := i.enter_turn hload h
    obtain ⟨h₁, _⟩ := i.enter_opens hload h
    obtain ⟨hrest, htried'⟩ := ih h₁
    rw [enterAll_cons, turns, hentered, hrest, List.findSome?_cons]
    refine ⟨?_, htried.append htried'⟩
    cases (i.turn load s).failure? <;> rfl

end

end Import

end Binder
