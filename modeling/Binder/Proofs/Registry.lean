import Binder.Proofs.Session

/-!
# States by texts

The registry keeps states under package names, which stand for texts. Names come and go with
sessions, so here the state of a package is looked up by its texts.

* `Session.stateOf`: the state of the package with the given texts.
* `Session.Sound.stateOf_eq`, `Session.Sound.stateOf_setState`: how it is read and set.
* `Session.Settles`: what has a state keeps it.
-/

namespace Binder

namespace Session

/-- The state of the package with the given texts. -/
def stateOf (s : Session) (key : PackageKey) : Option LoadState :=
  (s.registry.states.find? fun e => e.1.key s.store.names == key).map (·.2)

/-- Every package that has a state keeps it. -/
def Settles (s s' : Session) : Prop :=
  ∀ key state, s.stateOf key = some state → s'.stateOf key = some state

theorem Settles.refl (s : Session) : s.Settles s := fun _ _ h => h

theorem Settles.trans {s s' s'' : Session} (h : s.Settles s') (h' : s'.Settles s'') :
    s.Settles s'' := fun key state hstate => h' key state (h key state hstate)

theorem Settles.of_eq {s s' : Session} (h : ∀ key, s'.stateOf key = s.stateOf key) :
    s.Settles s' := fun key _ hstate => (h key).trans hstate

namespace Sound

variable {s : Session} (hs : s.Sound) {name : PackageName}
include hs

/-- The state of a package is that of its name. -/
theorem stateOf_eq (hname : name.Known s.store.names) :
    s.stateOf (name.key s.store.names) = s.registry.state? name := by
  have hknown := hs.known
  rw [stateOf, Registry.state?]
  generalize s.registry.states = states at hknown
  induction states with
  | nil => rfl
  | cons e rest ih =>
    have hrest := ih fun e he => hknown e (List.mem_cons_of_mem _ he)
    have hkey : (e.1.key s.store.names == name.key s.store.names) = (name == e.1) := by
      rw [Bool.eq_iff_iff, beq_iff_eq, beq_iff_eq]
      refine ⟨fun h => (PackageName.eq_of_key (hknown e List.mem_cons_self) hname h).symm, ?_⟩
      rintro rfl
      rfl
    rw [List.find?_cons, List.lookup_cons, hkey]
    cases name == e.1
    · exact hrest
    · rfl

/-- The states stay the same if names are added. -/
theorem stateOf_of_names {s' : Session} (hstates : s'.registry.states = s.registry.states)
    (g : s.store.names.texts <+: s'.store.names.texts) (key : PackageKey) :
    s'.stateOf key = s.stateOf key := by
  have hknown := hs.known
  rw [stateOf, stateOf, hstates]
  generalize s.registry.states = states at hknown
  induction states with
  | nil => rfl
  | cons e rest ih =>
    have hrest := ih fun e he => hknown e (List.mem_cons_of_mem _ he)
    rw [List.find?_cons, List.find?_cons, (hknown e List.mem_cons_self).key_eq g]
    cases e.1.key s.store.names == key
    · exact hrest
    · rfl

/-- The states stay the same if only the store changes. -/
theorem stateOf_withStore {st : Store} (g : s.store.names.texts <+: st.names.texts)
    (key : PackageKey) : stateOf { s with store := st } key = s.stateOf key :=
  have hstates : ({ s with store := st } : Session).registry.states = s.registry.states := rfl
  hs.stateOf_of_names hstates g key

theorem stateOf_setState (hname : name.Known s.store.names) (state : LoadState)
    (key : PackageKey) : (Session.setState name state s).2.stateOf key =
      if key = name.key s.store.names then some state else s.stateOf key := by
  have hknown := hs.known
  change ((Assoc.put name state s.registry.states).find? fun e =>
    e.1.key s.store.names == key).map (·.2) = _
  rw [stateOf]
  generalize s.registry.states = states at hknown
  induction states with
  | nil =>
    rw [Assoc.put, List.find?_singleton]
    by_cases hkey : key = name.key s.store.names
    · rw [if_pos hkey, if_pos (beq_iff_eq.2 hkey.symm)]
      rfl
    · rw [if_neg hkey, if_neg fun h => hkey (beq_iff_eq.1 h).symm]
      rfl
  | cons e rest ih =>
    have hrest := ih fun e he => hknown e (List.mem_cons_of_mem _ he)
    rw [Assoc.put]
    split
    · next he =>
      -- The state is set in place.
      rw [beq_iff_eq.1 he, List.find?_cons, List.find?_cons, beq_iff_eq.1 he]
      by_cases hkey : key = name.key s.store.names
      · rw [if_pos hkey, beq_iff_eq.2 hkey.symm]
        rfl
      · rw [if_neg hkey, beq_eq_false_iff_ne.2 (Ne.symm hkey)]
    · next he =>
      rw [List.find?_cons, List.find?_cons]
      by_cases hkey : e.1.key s.store.names = key
      · have hne : key ≠ name.key s.store.names := fun h =>
          he (beq_iff_eq.2 (PackageName.eq_of_key (hknown e List.mem_cons_self) hname (hkey.trans h)))
        rw [beq_iff_eq.2 hkey, if_neg hne]
      · rw [beq_eq_false_iff_ne.2 hkey]
        exact hrest

/-- Setting the state of a package that has none changes no state. -/
theorem settles_setState (hname : name.Known s.store.names)
    (hnone : s.stateOf (name.key s.store.names) = none) (state : LoadState) :
    s.Settles (Session.setState name state s).2 := fun key old hold => by
  rw [hs.stateOf_setState hname, if_neg]
  · exact hold
  · rintro rfl
    exact absurd (hnone.symm.trans hold) nofun

end Sound

end Session

end Binder
