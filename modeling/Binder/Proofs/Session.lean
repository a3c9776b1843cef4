import Binder.Entry.Load
import Binder.Proofs.Keeps
import Binder.Proofs.PackageName

/-!
# Sound sessions

The invariant of a session: its store is sound, every symbol has a type, and whatever is loaded is a
package. Between the beginning and the end of the entry of a package all of this holds, too, and
nothing that was there is changed, so the packages that are loaded on the way can be treated alike.

* `Session.Sound`: the invariant.
* `Session.Leads`: a session comes later than another one.
* `Session.Sound.run`: a run in the store of a session.
* `Loader.Sound`: what is expected of a loader.
-/

namespace Binder

namespace Session

structure Sound (s : Session) : Prop where
  store : s.store.Sound
  typed : ∀ x sym, s.store.table.symbol? x = some sym → sym.ty.isSome
  known : ∀ e ∈ s.registry.states, e.1.Known s.store.names
  loaded : ∀ e ∈ s.registry.states, ∀ x, e.2 = .loaded x →
    s.store.table.kindOf x = some .package

/-- `s'` comes after `s` and keeps everything that is in its store. -/
structure Leads (s s' : Session) : Prop where
  keeps : s.store.Keeps s'.store
  config : s'.config = s.config
  library : s'.registry.library = s.registry.library

namespace Leads

variable {s s' s'' : Session}

theorem refl (s : Session) : s.Leads s := ⟨.refl _, rfl, rfl⟩

theorem trans (h : s.Leads s') (h' : s'.Leads s'') : s.Leads s'' :=
  ⟨h.keeps.trans h'.keeps, h'.config.trans h.config, h'.library.trans h.library⟩

/-- Setting states and publishing packages does not concern the store. -/
theorem setState (h : s.Leads s') (name : PackageName) (state : LoadState) :
    s.Leads (Session.setState name state s').2 := ⟨h.keeps, h.config, h.library⟩

theorem publish (h : s.Leads s') (p : Package) : s.Leads (Session.publish p s').2 :=
  ⟨h.keeps, h.config, h.library⟩

end Leads

/-- A new session is sound. -/
theorem sound_start (names : Names) (config : Config) (library : Library) :
    (Session.start names config library).Sound := by
  have hsymbol : ∀ x sym, Table.initial.symbol? x = some sym →
      x = Table.root ∧ sym = Table.initial.symbols[0] := fun ⟨i⟩ sym hx => by
    obtain ⟨hlt, heq⟩ := Array.getElem?_eq_some_iff.1 hx
    obtain rfl : i = 0 := Nat.lt_one_iff.1 hlt
    exact ⟨rfl, heq.symm⟩
  have hscope : ∀ i sc, Table.initial.scope? i = some sc → i = ⟨0⟩ ∧ sc = ⟨Table.root, none, []⟩ :=
    fun ⟨i⟩ sc hi => by
      obtain ⟨hlt, heq⟩ := Array.getElem?_eq_some_iff.1 hi
      obtain rfl : i = 0 := Nat.lt_one_iff.1 hlt
      exact ⟨rfl, heq.symm⟩
  refine ⟨⟨⟨rfl, fun x sym hx => ?_, fun i sc hi => ?_⟩, ⟨fun {i ty} hi => ?_, nofun⟩,
    fun x sym hx => ?_, fun i sc hi => ?_⟩, fun x sym hx => ?_, nofun, nofun⟩
  · obtain ⟨rfl, rfl⟩ := hsymbol x sym hx
    refine ⟨fun _ => ⟨rfl, rfl⟩, fun h => absurd rfl h, nofun, fun _ => ?_, fun id hid => ?_, nofun⟩
    · exact ⟨⟨0⟩, none, rfl, rfl, rfl, fun _ => rfl, fun h => absurd rfl h⟩
    · cases hid
      rfl
  · obtain ⟨rfl, rfl⟩ := hscope i sc hi
    exact ⟨rfl, List.nodup_nil, nofun⟩
  · exact (List.getElem?_toArray).trans hi
  · obtain ⟨rfl, rfl⟩ := hsymbol x sym hx
    change (names.text? .unnamed).isSome
    rw [names.text?_unnamed]
    rfl
  · obtain ⟨rfl, rfl⟩ := hscope i sc hi
    nofun
  · obtain ⟨rfl, rfl⟩ := hsymbol x sym hx
    rfl

namespace Sound

variable {s : Session} (hs : s.Sound)
include hs

/-- A store that has grown, all of whose symbols have types. -/
theorem withStore {st : Store} (hst : st.Sound) (g : s.store.Grows st)
    (htyped : ∀ x sym, st.table.symbol? x = some sym → sym.ty.isSome) :
    Sound { s with store := st } where
  store := hst
  typed := htyped
  known e he := (hs.known e he).mono g.names
  loaded e he x hx := g.table.kindOf (hs.loaded e he x hx)

/-- A run in the store of a session, with a mark that was made in an earlier session. -/
theorem run {s₀ : Session} (hs₀ : s₀.Sound) (h₀ : s₀.Leads s) {os : List Offer} {st : Store}
    (h : s.store.Run s₀.store.mark os st) :
    Sound { s with store := st } ∧ s₀.Leads { s with store := st } := by
  have hf := h.follows hs.store
  refine ⟨hs.withStore hf.sound hf.grows fun x sym hx => ?_,
    h.keeps hs₀.store hs.store h₀.keeps, h₀.config, h₀.library⟩
  cases hold : s.store.table.symbol? x with
  | none => exact h.typed hs.store hold hx
  | some sym' =>
    cases (h.symbol? hs.store hold).symm.trans hx
    exact hs.typed x _ hold

/-- The state of a package is set. What is loaded must be a package. -/
theorem setState {name : PackageName} (hname : name.Known s.store.names) {state : LoadState}
    (hstate : ∀ x, state = .loaded x → s.store.table.kindOf x = some .package) :
    (Session.setState name state s).2.Sound := by
  refine ⟨hs.store, hs.typed, fun e he => ?_, fun e he x hx => ?_⟩
  · rcases Assoc.mem_put he with rfl | he
    · exact hname
    · exact hs.known e he
  · rcases Assoc.mem_put he with rfl | he
    · exact hstate x hx
    · exact hs.loaded e he x hx

theorem publish (p : Package) : (Session.publish p s).2.Sound :=
  ⟨hs.store, hs.typed, hs.known, hs.loaded⟩

end Sound

/-- Making a package name. -/
theorem Sound.internPackage {s : Session} (hs : s.Sound) (path : List String)
    (version : Option String) :
    (onStore (Store.internPackage path version) s).2.Sound ∧
      s.Leads (onStore (Store.internPackage path version) s).2 ∧
      (onStore (Store.internPackage path version) s).1.Known
        (onStore (Store.internPackage path version) s).2.store.names := by
  obtain ⟨hs', hl⟩ := hs.run hs (.refl s) (Store.run_internPackage _ path version s.store)
  exact ⟨hs', hl, (Store.internPackage_spec path version s.store).1⟩

end Session

/-- What comes of entering a package, with the outcome set apart. -/
theorem eq_of_outcome {r : (Package × Except EnterError SymbolId) × Session}
    {outcome : Except EnterError SymbolId} (h : r.1.2 = outcome) :
    r = ((r.1.1, outcome), r.2) := by
  rw [← h]

/-- A loader keeps sessions sound, changes nothing that is there, and what it loads is a package. -/
def Loader.Sound (load : Loader) : Prop :=
  ∀ name (s : Session), s.Sound → name.Known s.store.names →
    (load name s).2.Sound ∧ s.Leads (load name s).2 ∧
      ∀ x, (load name s).1 = .ok x → (load name s).2.store.table.kindOf x = some .package

end Binder
