import Binder.Entry.Load

/-!
# Workspaces

Several sessions, some of which share one table of names. A session runs on the names of its table
as all sessions that share it have left them, and everything else is its own.

* `Workspace.start`: a new session, with a new table of names or a shared one.
* `Workspace.run`: an action of one session.
* `Workspace.share`: whether two sessions share their names.
-/

namespace Binder

structure Workspace where
  /-- The tables of names. -/
  names : Array Names := #[]
  /-- The sessions, each with the place of its names. -/
  sessions : Array (Nat × Session) := #[]
deriving Inhabited

namespace Workspace

variable (w : Workspace)

/-- A session with the names as they are now. -/
def session? (i : Nat) : Option Session :=
  w.sessions[i]?.map fun (place, s) =>
    { s with store := { s.store with names := w.names[place]?.getD s.store.names } }

/-- Adds a session, which shares its names with the session `shared` if there is such a session. -/
def start (config : Config) (library : Library) (shared : Option Nat) : Nat × Workspace :=
  let (place, names) := match shared.bind (w.sessions[·]?) with
    | some (place, _) => (place, w.names)
    | none => (w.names.size, w.names.push default)
  (w.sessions.size,
    ⟨names, w.sessions.push (place, .start (names[place]?.getD default) config library)⟩)

/-- Runs an action of the session `i`; none if there is no such session. -/
def run {α : Type} (i : Nat) (a : StateM Session α) : Option (α × Workspace) :=
  match w.sessions[i]?, w.session? i with
  | some (place, _), some s =>
    let (result, s) := a s
    some (result,
      ⟨w.names.modify place fun _ => s.store.names, w.sessions.modify i fun _ => (place, s)⟩)
  | _, _ => none

/-- Whether two sessions share their names. -/
def share (i j : Nat) : Bool :=
  match w.sessions[i]?, w.sessions[j]? with
  | some (p, _), some (q, _) => p == q
  | _, _ => false

end Workspace

end Binder
