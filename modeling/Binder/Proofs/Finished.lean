import Binder.Proofs.Entry.Settle
import Binder.Proofs.Moments

/-!
# Entries that are done

From the moment on at which the entry of a package ends with success, nothing changes any more that
was made in the course of it, and it is one of the packages that are handed out. This is what holds
at every moment, and of the moments between two sessions, one part of them after another.

* `Done`: an entry that ended with success, and `Done.Intact`: what it made is as it was then.
* `Store.Respects`: what is done is intact, and nothing else is bound in scopes as a package.
* `Session.Ready`: a session in which what is done is respected, and nothing else is loaded.
* `Honest`: moments at which that is so, and at which only what is loaded is handed out.
* `Segment`: the moments between two sessions.
-/

namespace Binder

open Store

/-! ## What is done -/

/-- An entry that ended with success: the sessions in which it began and ended, and the package. -/
structure Done where
  begun : Session
  ended : Session
  symbol : SymbolId

namespace Done

/-- The symbols, scopes and types that were made in the course of the entry are as they were when it
    ended. -/
structure Intact (d : Done) (u : Store) : Prop where
  symbol : ∀ x sym, d.begun.store.table.symbol? x = none →
    d.ended.store.table.symbol? x = some sym → u.table.symbol? x = some sym
  scope : ∀ i sc, d.begun.store.table.scope? i = none →
    d.ended.store.table.scope? i = some sc → u.table.scope? i = some sc
  type : ∀ id ty, d.begun.store.table.types.get? id = none →
    d.ended.store.table.types.get? id = some ty → u.table.types.get? id = some ty

/-- The entry made a package with a scope, which was loaded in the end, and all struct types had
    their fields then. -/
structure Finished (d : Done) : Prop where
  kindOf : d.ended.store.table.kindOf d.symbol = some .package
  fresh : d.begun.store.table.symbol? d.symbol = none
  scope : ∃ i, d.ended.store.table.scopeOf d.symbol = some i ∧ d.begun.store.table.scope? i = none
  state : ∃ name, d.ended.registry.state? name = some (.loaded d.symbol)
  complete : d.ended.store.Complete

/-- The scope was not made in the course of the entry. -/
def Spares (d : Done) (j : ScopeId) : Prop :=
  d.begun.store.table.scope? j = none → d.ended.store.table.scope? j = none

variable {d : Done} {s u : Store} {j : ScopeId}

theorem intact_ended (d : Done) : d.Intact d.ended.store :=
  ⟨fun _ _ _ h => h, fun _ _ _ h => h, fun _ _ _ h => h⟩

theorem Intact.of_keeps (h : d.Intact s) (hk : s.Keeps u) : d.Intact u where
  symbol x sym h₀ h₁ := hk.symbol (h.symbol x sym h₀ h₁)
  scope i sc h₀ h₁ := hk.scope (h.scope i sc h₀ h₁)
  type id ty h₀ h₁ := hk.type (h.type id ty h₀ h₁)

/-- A change to a scope that the entry did not make. -/
theorem Intact.of_keepsScopes (h : d.Intact s) (hc : s.Complete) (hr : s.Retains u)
    (hk : s.KeepsScopes j u) (hj : d.Spares j) : d.Intact u where
  symbol x sym h₀ h₁ := hr.symbol (h.symbol x sym h₀ h₁)
  scope i sc h₀ h₁ := hk i sc (h.scope i sc h₀ h₁) fun he => by
    -- A scope that the entry made is not `j`.
    subst he
    cases (hj h₀).symm.trans h₁
  type id ty h₀ h₁ := hr.type (h.type id ty h₀ h₁) (hc id ty (h.type id ty h₀ h₁))

/-- What is made later is no part of an entry. -/
theorem Intact.spares (h : d.Intact s) (hj : s.table.scope? j = none) : d.Spares j := fun h₀ => by
  cases h₁ : d.ended.store.table.scope? j with
  | none => rfl
  | some sc => cases (h.scope j sc h₀ h₁).symm.trans hj

/-- What was there before is no part of an entry. -/
theorem spares_of_grows (g : s.Grows d.begun.store) (hj : (s.table.scope? j).isSome) : d.Spares j :=
  fun h₀ => by
    obtain ⟨sc, hsc⟩ := Option.isSome_iff_exists.1 hj
    obtain ⟨sc', hsc', _⟩ := g.table.scope hsc
    cases h₀.symm.trans hsc'

end Done

/-- The entries `ds` are intact, and no other packages than theirs are bound in scopes. -/
structure Store.Respects (u : Store) (ds : List Done) : Prop where
  intact : ∀ d ∈ ds, d.Intact u
  bindsOnly : u.BindsOnly fun x => ∃ d ∈ ds, d.symbol = x

namespace Store.Respects

variable {ds : List Done} {s u : Store} (h : s.Respects ds)
include h

/-- Nothing is bound. -/
theorem of_keeps (hs : s.Sound) (hk : s.Keeps u) (hb : ∀ c, u.bindings c = s.bindings c) :
    u.Respects ds :=
  ⟨fun d hd => (h.intact d hd).of_keeps hk, h.bindsOnly.of_bindings hs hk.retains hb⟩

/-- The members of a package are entered that none of the entries made. -/
theorem of_reaches {m : Mark} {os : List Offer} {p : SymbolId} {j : ScopeId} (hs : s.Sound)
    (hcomplete : s.Complete) (hp : s.table.scopeOf p = some j) (hos : ∀ o ∈ os, s.OffersTo p o)
    (hds : ∀ d ∈ ds, d.Spares j) (hu : Reaches m s os u) : u.Respects ds where
  intact d hd := (h.intact d hd).of_keepsScopes hcomplete hu.retains
    (hu.keepsScopes hs hp hos hs (.refl s) fun _ _ hi _ => hi) (hds d hd)
  bindsOnly := hu.bindsOnly hs h.bindsOnly

/-- An entry is done. -/
theorem done {d : Done} (hd : d.Intact s) : s.Respects (ds ++ [d]) where
  intact d' hd' := (List.mem_append.1 hd').elim (h.intact d') fun hd' => by
    cases List.mem_singleton.1 hd'
    exact hd
  bindsOnly c b x hb hx hk :=
    have ⟨d', hd', hsymbol⟩ := h.bindsOnly c b x hb hx hk
    ⟨d', List.mem_append_left _ hd', hsymbol⟩

end Store.Respects

/-! ## Sessions and moments -/

namespace Session

/-- A session in which no package is at its members. -/
structure Steady (s : Session) : Prop where
  sound : s.Sound
  stratified : s.store.table.Stratified
  complete : s.store.Complete

namespace Steady

variable {s s' : Session} (h : s.Steady) (hs' : s'.Sound)
include h hs'

theorem step (hcourse : s.Course s') {ps : List Package} (hseals : s.Seals ps s') : s'.Steady :=
  have hstratified := hcourse.stratified h.stratified
  have ⟨_, _, _, hstore⟩ := hseals.store
  ⟨hs', hstratified, hstore.complete h.sound.store hs'.store hstratified h.complete⟩

theorem withRegistry (htable : s'.store.table = s.store.table) : s'.Steady :=
  ⟨hs', htable ▸ h.stratified, fun id ty hid => h.complete id ty (htable ▸ hid)⟩

end Steady

/-- The entries `ds` are respected, and whatever is loaded is one of them. -/
structure Ready (ds : List Done) (s : Session) : Prop extends s.Steady where
  respects : s.store.Respects ds
  loaded : ∀ name x, s.registry.state? name = some (.loaded x) → ∃ d ∈ ds, d.symbol = x

end Session

open Session

/-- What is done at a moment. -/
def Moment.done (m : Moment) : List Done :=
  (m.completed.map fun (s, x) => ⟨s, m.session, x⟩).toList

theorem Moment.mem_done_iff {m : Moment} {d : Done} :
    d ∈ m.done ↔ m.completed = some (d.begun, d.symbol) ∧ d.ended = m.session := by
  rw [done, Option.mem_toList, Option.map_eq_some_iff]
  constructor
  · rintro ⟨⟨s, x⟩, hcompleted, rfl⟩
    exact ⟨hcompleted, rfl⟩
  · rintro ⟨hcompleted, hended⟩
    exact ⟨_, hcompleted, by rw [← hended]⟩

/-- At the moment and until the next one, the entries `ds` are respected, what is handed out is
    loaded, and what is done there is finished. -/
structure Moment.Fair (ds : List Done) (m : Moment) : Prop where
  ready : Ready ds m.session
  respects : ∀ u, m.Reaches u → u.Respects ds
  handed : ∀ name x, m.handed = some (name, x) →
    m.session.registry.state? name = some (.loaded x)
  finished : ∀ d ∈ m.done, d.Finished

/-- A moment at which no members are entered. -/
theorem Session.Ready.fair {ds : List Done} {m : Moment} (h : Ready ds m.session)
    (hentering : m.entering = none)
    (hhanded : ∀ name x, m.handed = some (name, x) →
      m.session.registry.state? name = some (.loaded x))
    (hfinished : ∀ d ∈ m.done, d.Finished) : m.Fair ds where
  ready := h
  respects u hu := by
    rcases hu with rfl | ⟨_, _, _, he, _⟩
    · exact h.respects
    · rw [hentering] at he
      cases he
  handed := hhanded
  finished := hfinished

/-- A moment at which nothing happens. -/
theorem Session.Ready.still {ds : List Done} {s : Session} (h : Ready ds s) :
    Moment.Fair ds { session := s } :=
  h.fair rfl nofun nofun

/-- Every moment is fair to the entries that are done by then. -/
def Honest : List Done → List Moment → Prop
  | _, [] => True
  | ds, m :: rest => m.Fair (ds ++ m.done) ∧ Honest (ds ++ m.done) rest

/-- What is done at some moments. -/
def doneAt (l : List Moment) : List Done := l.flatMap Moment.done

section

variable {ds : List Done} {l l' : List Moment} {m : Moment}

theorem honest_append : Honest ds (l ++ l') ↔ Honest ds l ∧ Honest (ds ++ doneAt l) l' := by
  induction l generalizing ds with
  | nil => simp [Honest, doneAt]
  | cons m l ih =>
    rw [List.cons_append, Honest, Honest, ih, doneAt, doneAt, List.flatMap_cons, List.append_assoc,
      and_assoc]

/-- A moment is fair to what is done by then. -/
theorem Honest.fair (h : Honest ds l) {k : Nat} (hm : l[k]? = some m) :
    m.Fair (ds ++ doneAt (l.take (k + 1))) := by
  induction l generalizing ds k with
  | nil => cases hm
  | cons m' l ih =>
    rw [List.take_succ_cons, doneAt, List.flatMap_cons, ← List.append_assoc]
    cases k with
    | zero =>
      cases hm
      rw [List.take_zero, List.flatMap_nil, List.append_nil]
      exact h.1
    | succ k => exact ih h.2 hm

/-- What is done by some moment is done at one of the moments until then. -/
theorem mem_doneAt_take {d : Done} {k : Nat} :
    d ∈ doneAt (l.take (k + 1)) ↔ ∃ j ≤ k, ∃ m, l[j]? = some m ∧ d ∈ m.done := by
  rw [doneAt, List.mem_flatMap]
  constructor
  · rintro ⟨m, hm, hd⟩
    obtain ⟨j, hj⟩ := List.mem_iff_getElem?.1 hm
    rw [List.getElem?_take] at hj
    split at hj
    · exact ⟨j, Nat.le_of_lt_succ ‹_›, m, hj, hd⟩
    · cases hj
  · rintro ⟨j, hle, m, hm, hd⟩
    refine ⟨m, List.mem_iff_getElem?.2 ⟨j, ?_⟩, hd⟩
    rw [List.getElem?_take, if_pos (Nat.lt_succ_of_le hle), hm]

end

/-- At the `k`th moment it is done to enter the package `x`: at that one or an earlier one its entry
    ended, and since then, also between moments, everything is as it was that the entry made. -/
def DoneBy (l : List Moment) (k : Nat) (x : SymbolId) : Prop :=
  ∃ d : Done, d.symbol = x ∧ d.Finished ∧ ∃ j ≤ k, ∃ e, l[j]? = some e ∧
    e.completed = some (d.begun, x) ∧ e.session = d.ended ∧
    ∀ i ≥ j, ∀ m, l[i]? = some m → ∀ u, m.Reaches u → d.Intact u

theorem Honest.doneBy {l : List Moment} (h : Honest [] l) {k : Nat} {d : Done}
    (hd : d ∈ doneAt (l.take (k + 1))) : DoneBy l k d.symbol := by
  obtain ⟨j, hle, e, he, hde⟩ := mem_doneAt_take.1 hd
  obtain ⟨hcompleted, hended⟩ := Moment.mem_done_iff.1 hde
  refine ⟨d, rfl, (h.fair he).finished d hde, j, hle, e, he, hcompleted, hended.symm,
    fun i hi m hm u hu => ((h.fair hm).respects u hu).intact d ?_⟩
  exact mem_doneAt_take.2 ⟨j, hi, e, he, hde⟩

/-! ## The moments between two sessions -/

/-- The moments from one session to another. -/
structure Segment (ds : List Done) (s : Session) (l : List Moment) (s' : Session) : Prop where
  honest : Honest ds l
  ready : Ready (ds ++ doneAt l) s'
  grows : s.store.Grows s'.store
  begun : ∀ d ∈ doneAt l, s.store.Grows d.begun.store

namespace Segment

variable {ds : List Done} {s s₁ s' : Session} {l l' : List Moment} {m : Moment}

theorem append (h : Segment ds s l s₁) (h' : Segment (ds ++ doneAt l) s₁ l' s') :
    Segment ds s (l ++ l') s' := by
  have hdone : doneAt (l ++ l') = doneAt l ++ doneAt l' := List.flatMap_append
  refine ⟨honest_append.2 ⟨h.honest, h'.honest⟩, ?_, h.grows.trans h'.grows, fun d hd => ?_⟩
  · rw [hdone, ← List.append_assoc]
    exact h'.ready
  · rcases List.mem_append.1 (hdone ▸ hd) with hd | hd
    · exact h.begun d hd
    · exact h.grows.trans (h'.begun d hd)

theorem nil (hr : Ready ds s) : Segment ds s [] s :=
  ⟨trivial, (List.append_nil ds).symm ▸ hr, .refl _, nofun⟩

/-- A moment more. -/
theorem concat (h : Segment ds s l s₁) (hfair : m.Fair (ds ++ doneAt l ++ m.done))
    (g : s.store.Grows m.session.store) (hbegun : ∀ d ∈ m.done, s.store.Grows d.begun.store) :
    Segment ds s (l ++ [m]) m.session := by
  have hdone : doneAt (l ++ [m]) = doneAt l ++ m.done := by
    rw [doneAt, List.flatMap_append, List.flatMap_singleton, doneAt]
  refine ⟨honest_append.2 ⟨h.honest, hfair, trivial⟩, ?_, g, fun d hd => ?_⟩
  · rw [hdone, ← List.append_assoc]
    exact hfair.ready
  · exact (List.mem_append.1 (hdone ▸ hd)).elim (h.begun d) (hbegun d)

/-- A moment more, at which nothing is done and no members are entered. -/
theorem still (h : Segment ds s l s₁) (hr : Ready (ds ++ doneAt l) s')
    (g : s.store.Grows s'.store) {handed : Option (PackageName × SymbolId)}
    (hhanded : ∀ name x, handed = some (name, x) →
      s'.registry.state? name = some (.loaded x)) :
    Segment ds s (l ++ [{ session := s', handed }]) s' :=
  h.concat ((List.append_nil (ds ++ doneAt l)).symm ▸ hr.fair rfl hhanded nofun) g nofun

/-- A moment before, at which nothing is done. -/
theorem cons (h : Segment ds m.session l s') (hfair : m.Fair ds) (hm : m.completed = none)
    (g : s.store.Grows m.session.store) : Segment ds s (m :: l) s' := by
  have hdone : m.done = [] := by rw [Moment.done, hm, Option.map_none, Option.toList_none]
  have hdones : doneAt (m :: l) = doneAt l := by rw [doneAt, List.flatMap_cons, hdone]; rfl
  refine ⟨?_, hdones ▸ h.ready, g.trans h.grows, fun d hd => g.trans (h.begun d (hdones ▸ hd))⟩
  rw [Honest, hdone, List.append_nil]
  exact ⟨hfair, h.honest⟩

/-- What was there at the beginning is made by no entry that is done on the way. -/
theorem spares (h : Segment ds s l s') {j : ScopeId} (hj : (s.store.table.scope? j).isSome)
    (hds : ∀ d ∈ ds, d.Spares j) : ∀ d ∈ ds ++ doneAt l, d.Spares j := fun d hd => by
  rcases List.mem_append.1 hd with hd | hd
  · exact hds d hd
  · exact Done.spares_of_grows (h.begun d hd) hj

end Segment

end Binder
