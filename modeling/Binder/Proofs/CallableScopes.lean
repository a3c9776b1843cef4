import Mathlib.Data.List.Flatten
import Mathlib.Data.List.Nodup
import Binder.Proofs.Nested

/-!
# The scopes of callables

What is in a callable goes to its scope, and to the scopes of the workers nested in it. Each of these
scopes is offered the parts of its callable and then the workers, however deep it is, and the offers
to one scope come in that order among all that is offered.

* `Callable.scopeOffers`, `Callable.scopeNames`: what is offered to the scope of a callable.
* `Callable.filter_innerOffers`: the offers to the scope of a callable, among all in it.
* `Package.Placed.filter_callable`: the same, among all offers of a package.
* `Package.Placed.repeats_innerOffers`: what is repeated in callables is repeated in a scope of one.
-/

namespace Binder

/-! ## Offers by scope -/

section

variable {α : Type} {xs : List α} {offers : α → List Offer} {keys : α → List (Option SymbolId)}

/-- Of lists of offers that go to different scopes, one has all the offers to a scope. -/
theorem filter_flatMap_of_nodup (hkeys : ∀ x ∈ xs, ∀ o ∈ offers x, o.container ∈ keys x)
    (hnodup : (xs.flatMap keys).Nodup) {x : α} (hx : x ∈ xs) {k : Option SymbolId}
    (hk : k ∈ keys x) :
    (xs.flatMap offers).filter (·.container == k) = (offers x).filter (·.container == k) := by
  have hnone : ∀ ys : List α, ys ⊆ xs → k ∉ ys.flatMap keys →
      (ys.flatMap offers).filter (·.container == k) = [] := fun ys hsub hmem =>
    List.filter_eq_nil_iff.2 fun o ho heq => by
      obtain ⟨y, hy, ho⟩ := List.mem_flatMap.1 ho
      exact hmem (List.mem_flatMap.2 ⟨y, hy, beq_iff_eq.1 heq ▸ hkeys y (hsub hy) o ho⟩)
  obtain ⟨before, after, rfl⟩ := List.append_of_mem hx
  rw [List.flatMap_append, List.flatMap_cons, List.nodup_append, List.nodup_append] at hnodup
  obtain ⟨_, ⟨_, _, hafter⟩, hbefore⟩ := hnodup
  have hb := hnone before (List.subset_append_left _ _) fun hmem =>
    hbefore k hmem k (List.mem_append_left _ hk) rfl
  have ha := hnone after (fun y hy => List.mem_append_right _ (List.mem_cons_of_mem _ hy))
    fun hmem => hafter k hk k hmem rfl
  rw [List.flatMap_append, List.flatMap_cons, List.filter_append, List.filter_append, hb, ha,
    List.nil_append, List.append_nil]

/-- Offers can be sorted by the scopes they go to. -/
theorem perm_flatMap_filter {scopes : List (Option SymbolId)} (hnodup : scopes.Nodup)
    {os : List Offer} (hos : ∀ o ∈ os, o.container ∈ scopes) :
    os.Perm (scopes.flatMap fun k => os.filter (·.container == k)) := by
  induction scopes generalizing os with
  | nil =>
    have hnil : os = [] := List.eq_nil_iff_forall_not_mem.2 fun o ho => List.not_mem_nil (hos o ho)
    rw [hnil]
    exact .nil
  | cons k rest ih =>
    obtain ⟨hk, hrest⟩ := List.nodup_cons.1 hnodup
    have hcontainers : ∀ o ∈ os.filter fun o => !(o.container == k), o.container ∈ rest :=
      fun o ho => by
        obtain ⟨ho, hne⟩ := List.mem_filter.1 ho
        refine (List.mem_cons.1 (hos o ho)).resolve_left fun heq => ?_
        rw [heq, beq_self_eq_true] at hne
        cases hne
    have hothers := ih hrest hcontainers
    have hsame : (rest.flatMap fun k' => (os.filter fun o => !(o.container == k)).filter
        (·.container == k')) = rest.flatMap fun k' => os.filter (·.container == k') := by
      refine List.flatMap_congr fun k' hk' => ?_
      rw [List.filter_filter]
      refine List.filter_congr fun o _ => ?_
      rw [Bool.eq_iff_iff, Bool.and_eq_true, beq_iff_eq, Bool.not_eq_true', beq_eq_false_iff_ne]
      exact ⟨And.left, fun h => ⟨h, fun heq => hk (heq ▸ h ▸ hk')⟩⟩
    rw [List.flatMap_cons, ← hsame]
    exact (List.filter_append_perm (·.container == k) os).symm.trans (hothers.append_left _)

end

/-! ## Callables -/

namespace Callable

/-- A worker, as it is offered to the scope of a callable. -/
def workerOffer (c : Option SymbolId) (w : Callable) : Offer :=
  w.head.offer c w.head.name.text .worker

/-- What is offered to the scope of a callable, in order: the parts that have names, and the
    workers. -/
def scopeOffers (kind : SymbolKind) (f : Callable) : List Offer :=
  f.head.partOffers kind ++ f.workers.map (·.workerOffer f.head.symbol)

/-- The names that are written in a callable: those of the parameters, of the receiver of a method
    and of the returns, as far as they have names, and those of the workers. -/
def scopeNames (kind : SymbolKind) (f : Callable) : List String :=
  ((f.head.params.map (·.name.text) ++
      (if kind = .method then f.head.receiver.toList.map (·.name.text) else []) ++
      f.head.returns.map (·.name.text)).filter (· ≠ "")) ++
    f.workers.map (·.head.name.text)

theorem map_text_offers (c : Option SymbolId) (vs : List VarDecl) :
    (vs.flatMap (·.offers c)).map Offer.text = (vs.map (·.name.text)).filter (· ≠ "") := by
  induction vs with
  | nil => rfl
  | cons v vs ih =>
    rw [List.flatMap_cons, List.map_append, ih, List.map_cons, List.filter_cons, VarDecl.offers]
    by_cases hv : v.name.text = "" <;> simp [hv, VarDecl.offer]

/-- The offers to the scope of a callable are made under the names that are written in it. -/
theorem map_text_scopeOffers (kind : SymbolKind) (f : Callable) :
    (f.scopeOffers kind).map Offer.text = f.scopeNames kind := by
  have hparts : (f.head.parts kind).map (·.name.text) = f.head.params.map (·.name.text) ++
      (if kind = .method then f.head.receiver.toList.map (·.name.text) else []) ++
      f.head.returns.map (·.name.text) := by
    unfold CallableHead.parts
    split <;> simp only [List.map_append, List.map_nil]
  rw [scopeOffers, scopeNames, List.map_append, CallableHead.partOffers, map_text_offers, hparts,
    List.map_map]
  rfl

theorem container_of_mem_scopeOffers {kind : SymbolKind} {f : Callable} {o : Offer}
    (h : o ∈ f.scopeOffers kind) : o.container = f.head.symbol := by
  rcases List.mem_append.1 h with h | h
  · obtain ⟨v, _, h⟩ := List.mem_flatMap.1 h
    exact VarDecl.container_of_mem_offers h
  · obtain ⟨w, _, rfl⟩ := List.mem_map.1 h
    rfl

theorem workerOffers_eq (c : Option SymbolId) (workers : List Callable) :
    workerOffers c workers = workers.flatMap fun w => w.workerOffer c :: w.innerOffers .worker := by
  induction workers with
  | nil => rfl
  | cons w rest ih =>
    rw [workerOffers, List.flatMap_cons, ih, offers_eq]
    rfl

theorem nestedWorkers_eq (workers : List Callable) :
    nestedWorkers workers = workers.flatMap (nested .worker) := by
  induction workers with
  | nil => rfl
  | cons w rest ih => rw [nestedWorkers, List.flatMap_cons, ih]

mutual

/-- What is nested in a callable are workers. -/
theorem kind_of_mem_nested {kind : SymbolKind} : ∀ (f : Callable) {e : SymbolKind × Callable},
    e ∈ f.nested kind → e.1 = kind ∨ e.1 = .worker
  | mk head workers, e, he => by
    rw [nested] at he
    rcases List.mem_cons.1 he with rfl | he
    · exact .inl rfl
    · exact .inr (kind_of_mem_nestedWorkers workers he)

theorem kind_of_mem_nestedWorkers : ∀ (workers : List Callable) {e : SymbolKind × Callable},
    e ∈ nestedWorkers workers → e.1 = .worker
  | [], _, he => absurd he List.not_mem_nil
  | w :: rest, e, he => by
    rw [nestedWorkers] at he
    rcases List.mem_append.1 he with he | he
    · exact (kind_of_mem_nested w he).elim id id
    · exact kind_of_mem_nestedWorkers rest he

end

/-- The symbols of a callable and of the workers nested in it. -/
def symbols (kind : SymbolKind) (f : Callable) : List (Option SymbolId) :=
  (f.nested kind).map (·.2.head.symbol)

theorem symbols_mk (kind : SymbolKind) (head : CallableHead) (workers : List Callable) :
    (mk head workers).symbols kind = head.symbol :: workers.flatMap (symbols .worker) := by
  rw [symbols, nested, List.map_cons, nestedWorkers_eq, List.map_flatMap]
  rfl

mutual

/-- What is in a callable goes to its scope or to that of a worker nested in it. -/
theorem container_mem_symbols (kind : SymbolKind) : ∀ (f : Callable), ∀ o ∈ f.innerOffers kind,
    o.container ∈ f.symbols kind
  | mk head workers, o, ho => by
    rw [symbols_mk]
    rcases List.mem_append.1 ho with ho | ho
    · obtain ⟨v, _, ho⟩ := List.mem_flatMap.1 ho
      exact List.mem_cons.2 (.inl (VarDecl.container_of_mem_offers ho))
    · exact container_mem_workerSymbols head.symbol workers o ho

theorem container_mem_workerSymbols (c : Option SymbolId) : ∀ (workers : List Callable),
    ∀ o ∈ workerOffers c workers, o.container ∈ c :: workers.flatMap (symbols .worker)
  | [], o, ho => absurd ho List.not_mem_nil
  | w :: rest, o, ho => by
    rw [workerOffers, offers_eq, List.cons_append] at ho
    rw [List.flatMap_cons]
    rcases List.mem_cons.1 ho with rfl | ho
    · exact List.mem_cons_self
    rcases List.mem_append.1 ho with ho | ho
    · exact List.mem_cons_of_mem _ (List.mem_append_left _ (container_mem_symbols .worker w o ho))
    · rcases List.mem_cons.1 (container_mem_workerSymbols c rest o ho) with h | h
      · exact List.mem_cons.2 (.inl h)
      · exact List.mem_cons_of_mem _ (List.mem_append_right _ h)

end

/-- The offers to the scope of a callable itself, among those to its scope and to the scopes of the
    workers nested in it. -/
theorem filter_innerOffers_self {kind : SymbolKind} {f : Callable} (hnodup : (f.symbols kind).Nodup) :
    (f.innerOffers kind).filter (·.container == f.head.symbol) = f.scopeOffers kind := by
  obtain ⟨head, workers⟩ := f
  rw [symbols_mk, List.nodup_cons] at hnodup
  have hparts : (head.partOffers kind).filter (·.container == head.symbol) = head.partOffers kind :=
    List.filter_eq_self.2 fun o ho => by
      obtain ⟨v, _, ho⟩ := List.mem_flatMap.1 ho
      exact beq_iff_eq.2 (VarDecl.container_of_mem_offers ho)
  rw [innerOffers, scopeOffers, List.filter_append, workerOffers_eq, List.filter_flatMap,
    List.map_eq_flatMap]
  refine congrArg₂ (· ++ ·) hparts (List.flatMap_congr fun w hw => ?_)
  -- Nothing in a worker goes to the scope around it.
  have hinner : (w.innerOffers .worker).filter (·.container == head.symbol) = [] :=
    List.filter_eq_nil_iff.2 fun o ho heq => hnodup.1 (List.mem_flatMap.2
      ⟨w, hw, beq_iff_eq.1 heq ▸ container_mem_symbols .worker w o ho⟩)
  refine (List.filter_cons_of_pos ?_).trans (congrArg (List.cons _) hinner)
  exact beq_self_eq_true head.symbol

/-- The offers to the scope of a worker at any depth are among those in the worker around it. -/
theorem filter_innerOffers_worker {kind : SymbolKind} {head : CallableHead} {workers : List Callable}
    (hnodup : ((mk head workers).symbols kind).Nodup) {w : Callable} (hw : w ∈ workers)
    {k : Option SymbolId} (hk : k ∈ w.symbols .worker) :
    ((mk head workers).innerOffers kind).filter (·.container == k) =
      (w.innerOffers .worker).filter (·.container == k) := by
  rw [symbols_mk, List.nodup_cons] at hnodup
  have hne : (head.symbol == k) = false :=
    beq_eq_false_iff_ne.2 fun heq => hnodup.1 (List.mem_flatMap.2 ⟨w, hw, heq ▸ hk⟩)
  have hparts : (head.partOffers kind).filter (·.container == k) = [] :=
    List.filter_eq_nil_iff.2 fun o ho => by
      obtain ⟨v, _, ho⟩ := List.mem_flatMap.1 ho
      rw [VarDecl.container_of_mem_offers ho, hne]
      exact Bool.false_ne_true
  have hworkers : (workerOffers head.symbol workers).filter (·.container == k) =
      (workers.flatMap (innerOffers .worker)).filter (·.container == k) := by
    rw [workerOffers_eq, List.filter_flatMap, List.filter_flatMap]
    refine List.flatMap_congr fun w' _ => List.filter_cons_of_neg ?_
    rw [show (w'.workerOffer head.symbol).container = head.symbol from rfl, hne]
    exact Bool.false_ne_true
  rw [innerOffers, List.filter_append]
  exact (congrArg₂ (· ++ ·) hparts hworkers).trans (filter_flatMap_of_nodup
    (fun w' _ => container_mem_symbols .worker w') hnodup.2 hw hk)

mutual

/-- The offers to the scope of a callable at any depth. -/
theorem filter_innerOffers (kind : SymbolKind) : ∀ (f : Callable), (f.symbols kind).Nodup →
    ∀ e ∈ f.nested kind,
      (f.innerOffers kind).filter (·.container == e.2.head.symbol) = e.2.scopeOffers e.1
  | mk head workers, hnodup, e, he => by
    rw [nested] at he
    rcases List.mem_cons.1 he with rfl | he
    · exact filter_innerOffers_self hnodup
    · rw [nestedWorkers_eq] at he
      obtain ⟨w, hw, he⟩ := List.mem_flatMap.1 he
      rw [filter_innerOffers_worker hnodup hw (List.mem_map_of_mem he)]
      rw [symbols_mk, List.nodup_cons] at hnodup
      exact filter_workersOffers workers hnodup.2 w hw e he

theorem filter_workersOffers : ∀ (workers : List Callable),
    (workers.flatMap (symbols .worker)).Nodup → ∀ w ∈ workers, ∀ e ∈ w.nested .worker,
      (w.innerOffers .worker).filter (·.container == e.2.head.symbol) = e.2.scopeOffers e.1
  | [], _, _, hw, _, _ => absurd hw List.not_mem_nil
  | w :: rest, hnodup, w', hw', e, he => by
    rw [List.flatMap_cons, List.nodup_append] at hnodup
    rcases List.mem_cons.1 hw' with heq | hw'
    · rw [heq] at he ⊢
      exact filter_innerOffers .worker w hnodup.1 e he
    · exact filter_workersOffers rest hnodup.2.1 w' hw' e he

end

mutual

/-- A callable and the workers nested in it are offered. -/
theorem symbols_sublist (c : Option SymbolId) (text : String) (kind : SymbolKind) :
    ∀ f : Callable, (f.symbols kind).Sublist ((f.offers c text kind).map Offer.symbol)
  | mk head workers => by
    rw [symbols_mk, offers, List.map_cons, List.map_append]
    exact ((workerSymbols_sublist head.symbol workers).trans
      (List.sublist_append_right _ _)).cons_cons _

theorem workerSymbols_sublist (c : Option SymbolId) : ∀ workers : List Callable,
    (workers.flatMap (symbols .worker)).Sublist ((workerOffers c workers).map Offer.symbol)
  | [] => .slnil
  | w :: rest => by
    rw [workerOffers, List.flatMap_cons, List.map_append]
    exact (symbols_sublist c _ .worker w).append (workerSymbols_sublist c rest)

end

end Callable

/-! ## Packages -/

namespace Package

variable {c : SymbolId} {p : Package}

/-- The symbols of the callables of a package and of the workers nested in them. -/
theorem map_symbol_everyCallable (p : Package) : p.everyCallable.map (·.2.head.symbol) =
    p.callables.flatMap fun e => e.2.symbols e.1 := by
  rw [everyCallable, List.map_flatMap]
  rfl

/-- All callables of a package are offered, in order. -/
theorem symbols_sublist (c : SymbolId) (p : Package) :
    (p.everyCallable.map (·.2.head.symbol)).Sublist
      ((p.memberOffers (some c)).map Offer.symbol) := by
  have hfunctions : ∀ fs : List Callable,
      ((fs.map (·.kinded)).flatMap fun e => e.2.symbols e.1).Sublist
        ((fs.flatMap (·.functionOffers (some c))).map Offer.symbol) := fun fs => by
    rw [List.flatMap_map, List.map_flatMap]
    exact List.Sublist.flatMap_right _ fun f _ => f.symbols_sublist _ _ _
  have hmembers : ∀ (c' : Option SymbolId) (kind : SymbolKind) (fs : List Callable),
      ((fs.map (kind, ·)).flatMap fun e => e.2.symbols e.1).Sublist
        ((fs.flatMap (·.memberOffers c' kind)).map Offer.symbol) := fun c' kind fs => by
    rw [List.flatMap_map, List.map_flatMap]
    exact List.Sublist.flatMap_right _ fun f _ => f.symbols_sublist _ _ _
  have hskip : ∀ {l l' : List (Option SymbolId)} (os : List (Option SymbolId)), l.Sublist l' →
      l.Sublist (os ++ l') := fun os h => h.trans (List.sublist_append_right os _)
  rw [map_symbol_everyCallable, callables, memberOffers]
  simp only [List.append_assoc, List.flatMap_append, List.map_append, List.flatMap_assoc]
  refine hskip _ (.append ?_ (hskip _ (hskip _ (.append ?_ (.append (hfunctions _) (.append ?_
    (hskip _ (hfunctions _))))))))
  · rw [List.map_flatMap]
    refine List.Sublist.flatMap_right _ fun d _ => ?_
    exact (hfunctions _).trans (List.sublist_cons_self _ _)
  · rw [List.map_flatMap]
    exact List.Sublist.flatMap_right _ fun d _ => hmembers d.symbol .action d.actions
  · rw [List.map_flatMap]
    refine List.Sublist.flatMap_right _ fun d _ => ?_
    rw [List.map_append]
    exact (hfunctions _).append (hmembers d.symbol .resource d.resources)

/-- Every callable has the kind of a callable. -/
theorem isCallable_of_mem_everyCallable {e : SymbolKind × Callable} (he : e ∈ p.everyCallable) :
    e.1.isCallable := by
  obtain ⟨e₀, he₀, he⟩ := List.mem_flatMap.1 he
  rcases e₀.2.kind_of_mem_nested he with h | h
  · rw [h]
    cases mem_callables.1 he₀ with
    | action | resource => rfl
    | connectorInitializer | function | serviceInitializer | initializer =>
      exact Callable.isCallable_functionKind _
  · rw [h]
    rfl

/-- What is in callables goes to the scope of a callable. -/
theorem container_mem_symbols {o : Offer} (ho : o ∈ p.innerOffers) :
    o.container ∈ p.everyCallable.map (·.2.head.symbol) := by
  obtain ⟨e, he, ho⟩ := List.mem_flatMap.1 ho
  rw [map_symbol_everyCallable]
  exact List.mem_flatMap.2 ⟨e, he, e.2.container_mem_symbols e.1 o ho⟩

namespace Placed

variable {kindOf : SymbolId → Option SymbolKind} (h : Placed kindOf c p)
include h

/-- Every callable has a symbol of its own. -/
theorem nodup_everyCallable : (p.everyCallable.map (·.2.head.symbol)).Nodup :=
  (p.symbols_sublist c).nodup h.nodup

/-- Every callable has a symbol of its kind. -/
theorem kindOf_everyCallable {e : SymbolKind × Callable} (he : e ∈ p.everyCallable) :
    ∃ x, e.2.head.symbol = some x ∧ kindOf x = some e.1 := by
  obtain ⟨⟨c', hoffers⟩, _⟩ := offers_of_mem_everyCallable (c := c) he
  refine h.symbol (e.2.head.offer c' (e.2.nameAs e.1) e.1) (hoffers _ ?_)
  rw [Callable.offers_eq]
  exact List.mem_cons_self

/-- The offers to the scope of a callable, among those in all callables. -/
theorem filter_inner {e : SymbolKind × Callable} (he : e ∈ p.everyCallable) :
    p.innerOffers.filter (·.container == e.2.head.symbol) = e.2.scopeOffers e.1 := by
  obtain ⟨e₀, he₀, hnested⟩ := List.mem_flatMap.1 he
  have hnodup := h.nodup_everyCallable
  rw [map_symbol_everyCallable] at hnodup
  have hone := filter_flatMap_of_nodup (fun e' _ => e'.2.container_mem_symbols e'.1) hnodup he₀
    (List.mem_map_of_mem hnested)
  refine hone.trans (e₀.2.filter_innerOffers e₀.1 ?_ e hnested)
  exact (List.nodup_flatMap.1 hnodup).1 e₀ he₀

/-- The offers to the scope of a callable, among all offers of the package. -/
theorem filter_callable {e : SymbolKind × Callable} (he : e ∈ p.everyCallable) :
    (p.offers c).filter (·.container == e.2.head.symbol) = e.2.scopeOffers e.1 := by
  obtain ⟨x, hx, hk⟩ := h.kindOf_everyCallable he
  have hne := h.callable_not_mem hk (isCallable_of_mem_everyCallable he)
  rw [← hx] at hne
  rw [← h.filter_inner he, ← h.filter_innerOffers, List.filter_filter]
  refine List.filter_congr fun o _ => ?_
  rw [Bool.eq_iff_iff, Bool.and_eq_true, beq_iff_eq, Bool.and_eq_true, Bool.not_eq_true',
    Bool.not_eq_true', beq_eq_false_iff_ne, ← Bool.not_eq_true, List.contains_iff_mem]
  exact ⟨fun heq => ⟨heq, heq ▸ hne⟩, And.left⟩

/-- What is repeated in callables is repeated in the scope of one of them. -/
theorem repeats_innerOffers : (repeats Offer.place (fun _ => false) p.innerOffers).Perm
    (p.everyCallable.flatMap fun e => repeats Offer.text (fun _ => false) (e.2.scopeOffers e.1)) := by
  have hcontainers : ∀ o ∈ repeats Offer.place (fun _ => false) p.innerOffers,
      o.container ∈ p.everyCallable.map (·.2.head.symbol) := fun o ho =>
    container_mem_symbols (mem_of_mem_repeats ho)
  have hperm := perm_flatMap_filter h.nodup_everyCallable hcontainers
  refine hperm.trans (.of_eq ?_)
  rw [List.flatMap_map]
  refine List.flatMap_congr fun e he => ?_
  rw [Offer.filter_repeats_place (· == e.2.head.symbol), h.filter_inner he,
    Offer.repeats_place fun o ho => Callable.container_of_mem_scopeOffers ho]

end Placed

end Package

end Binder
