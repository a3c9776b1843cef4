import Binder.Handle
import Binder.Name

/-!
# Scopes

A scope binds names to symbols, in the order they were defined, and may have an enclosing scope. A
name is bound once: `Scope.define?` refuses a name that is taken.

* `Scope.get?_define?`: what a definition adds to the names bound.
* `Scope.define?_eq_none_iff`: a definition is refused exactly if the name is bound.
-/

namespace Binder

structure Scope where
  /-- The symbol whose members the scope holds. -/
  owner : SymbolId
  parent : Option ScopeId := none
  /-- The bindings, in the order of definition. -/
  entries : List (Name × SymbolId) := []
deriving DecidableEq, Inhabited

namespace Scope

variable (s : Scope)

/-- The symbol bound to `name` in this very scope. -/
def get? (name : Name) : Option SymbolId := s.entries.lookup name

/-- The scope with `name` bound to `symbol`; none if the name is bound already. -/
def define? (name : Name) (symbol : SymbolId) : Option Scope :=
  match s.get? name with
  | some _ => none
  | none => some { s with entries := s.entries ++ [(name, symbol)] }

theorem define?_eq_none_iff {name : Name} {symbol : SymbolId} :
    s.define? name symbol = none ↔ (s.get? name).isSome := by
  unfold define?
  split <;> simp_all

theorem get?_define? {s s' : Scope} {name : Name} {symbol : SymbolId}
    (h : s.define? name symbol = some s') (n : Name) :
    s'.get? n = if n = name then some symbol else s.get? n := by
  unfold define? at h
  split at h
  · cases h
  · rename_i hn
    cases h
    rw [get?, List.lookup_append]
    by_cases hnn : n = name
    · subst hnn
      rw [show List.lookup n s.entries = none from hn]
      simp
    · simp [hnn, get?, List.lookup_cons, beq_eq_false_iff_ne.2 hnn]

end Scope

end Binder
