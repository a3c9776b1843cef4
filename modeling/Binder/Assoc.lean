/-!
# Ordered association lists

Lists of keys with values, in the order the keys were first put in. A key that is put in again keeps
its place and gets the new value.

* `Assoc.lookup_put`: the last value put in counts.
* `Assoc.keys_put`: only a new key changes the keys, and goes to the end.
-/

namespace Binder.Assoc

variable {κ ν : Type} [BEq κ]

/-- The list with `value` at `key`. -/
def put (key : κ) (value : ν) : List (κ × ν) → List (κ × ν)
  | [] => [(key, value)]
  | (k, v) :: rest => if k == key then (k, value) :: rest else (k, v) :: put key value rest

variable [LawfulBEq κ]

theorem lookup_put (key k : κ) (value : ν) (l : List (κ × ν)) :
    (put key value l).lookup k = if k == key then some value else l.lookup k := by
  induction l with
  | nil => cases h : k == key <;> simp [put, List.lookup_cons, h]
  | cons e l ih =>
    obtain ⟨k', v⟩ := e
    by_cases hk : k' = key
    · subst hk
      cases h : k == k' <;> simp [put, List.lookup_cons, h]
    · by_cases h : k = k'
      · subst h; simp [put, hk]
      · simp [put, List.lookup_cons, hk, beq_eq_false_iff_ne.2 h, ih]

theorem keys_put (key : κ) (value : ν) (l : List (κ × ν)) :
    (put key value l).map (·.1) =
      if l.map (·.1) |>.contains key then l.map (·.1) else l.map (·.1) ++ [key] := by
  induction l with
  | nil => rfl
  | cons e l ih =>
    obtain ⟨k', v⟩ := e
    by_cases hk : k' = key
    · subst hk; simp [put]
    · simp only [put, beq_eq_false_iff_ne.2 hk, Bool.false_eq_true, if_false, List.map_cons, ih,
        List.contains_cons, beq_eq_false_iff_ne.2 (Ne.symm hk), Bool.false_or]
      split <;> rfl

theorem mem_put {key : κ} {value : ν} {l : List (κ × ν)} {e : κ × ν} (h : e ∈ put key value l) :
    e = (key, value) ∨ e ∈ l := by
  induction l with
  | nil => exact .inl (List.mem_singleton.1 h)
  | cons d l ih =>
    rw [put] at h
    split at h
    · next hd =>
      rw [beq_iff_eq.1 hd] at h
      exact (List.mem_cons.1 h).imp id (List.mem_cons_of_mem _)
    · rcases List.mem_cons.1 h with rfl | h
      · exact .inr List.mem_cons_self
      · exact (ih h).imp id (List.mem_cons_of_mem _)

end Binder.Assoc
