import Binder.Session

/-!
# Running actions

An action on a state is run step by step. The lemmas here say what one step of a `do` block does, and
what an action does that is done for each element of a list.

* `run_bind`: the second action is run in the state that the first one left.
* `run_onStore`: an action on the store of a session.
* `run_mapM_cons`: the elements of a list are dealt with in order.
-/

namespace Binder

variable {σ α β : Type}

theorem run_bind (a : StateM σ α) (f : α → StateM σ β) (s : σ) :
    (a >>= f) s = f (a s).1 (a s).2 := rfl

theorem run_pure (x : α) (s : σ) : (pure x : StateM σ α) s = (x, s) := rfl

theorem run_get (s : σ) : (get : StateM σ σ) s = (s, s) := rfl

theorem run_modify (f : σ → σ) (s : σ) : (modify f : StateM σ PUnit) s = (⟨⟩, f s) := rfl

theorem run_map (f : α → β) (a : StateM σ α) (s : σ) : (f <$> a) s = (f (a s).1, (a s).2) := rfl

theorem run_onStore (a : Entry α) (s : Session) :
    Session.onStore a s = ((a s.store).1, { s with store := (a s.store).2 }) := rfl

theorem run_mapM_cons (f : α → StateM σ β) (x : α) (xs : List α) (s : σ) :
    (x :: xs).mapM f s =
      ((f x s).1 :: (xs.mapM f (f x s).2).1, (xs.mapM f (f x s).2).2) := by
  rw [List.mapM_cons]
  rfl

end Binder
