import Binder.Entry.Load

/-!
# Histories

What is asked of a session, one request after another: to enter a package of the caller, on its own
or as if it had been imported, or to load one. The sessions that come up that way are the reachable
ones.

* `Session.respond`: the response to a request.
* `Session.reachable_iff`: the reachable sessions are those at the end of a list of requests.
-/

namespace Binder

inductive Request
  | define (p : Package)
  | enterAs (path : List String) (version : Option String) (p : Package)
  | load (path : List String) (version : Option String)
deriving Inhabited

inductive Response
  /-- The package as it was entered. -/
  | entered (p : Package) (outcome : Except EnterError SymbolId)
  | loaded (outcome : Except LoadError SymbolId)

namespace Session

/-- Does what is requested. -/
def respond : Request → StateM Session Response
  | .define p => do
    let (p, outcome) ← define p
    pure (.entered p outcome)
  | .enterAs path version p => do
    let name ← onStore (Store.internPackage path version)
    let (p, outcome) ← enterAs name p
    pure (.entered p outcome)
  | .load path version => do
    let name ← onStore (Store.internPackage path version)
    let outcome ← load name
    pure (.loaded outcome)

/-- The session after some requests. -/
def after (s : Session) (requests : List Request) : Session :=
  requests.foldl (fun s r => (respond r s).2) s

/-- The sessions that come up by requests to a new session. -/
inductive Reachable : Session → Prop
  | start (names : Names) (config : Config) (library : Library) :
    Reachable (.start names config library)
  | step {s : Session} (r : Request) : Reachable s → Reachable (respond r s).2

theorem Reachable.after {s : Session} (h : Reachable s) (requests : List Request) :
    Reachable (s.after requests) := by
  induction requests generalizing s with
  | nil => exact h
  | cons r rest ih => exact ih (h.step r)

theorem reachable_iff {s : Session} :
    Reachable s ↔ ∃ names config library requests,
      s = (Session.start names config library).after requests := by
  constructor
  · intro h
    induction h with
    | start names config library => exact ⟨names, config, library, [], rfl⟩
    | step r _ ih =>
      obtain ⟨names, config, library, requests, rfl⟩ := ih
      exact ⟨names, config, library, requests ++ [r], by simp [Session.after]⟩
  · rintro ⟨names, config, library, requests, rfl⟩
    exact (Reachable.start names config library).after requests

end Session

end Binder
