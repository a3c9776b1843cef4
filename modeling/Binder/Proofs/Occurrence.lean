import Mathlib.Data.List.Perm.Basic

/-!
# First and later occurrences

A list whose elements lay claim to keys, some of which are taken beforehand: the first element that
claims a free key gets it, and later ones repeat it.

* `firsts`, `repeats`: the two parts of a list, each in order.
* `firsts_append`, `repeats_append`: what comes first has taken its keys from what comes after.
* `firsts_of_nodup`, `lookup_firsts`: keys that are claimed once, and what has a key.
* `firsts_sublist`, `pairwise_firsts`: the first part is in order, and gets no key twice.
* `filter_firsts`, `filter_repeats`: elements with other keys do not matter.
* `firsts_rename`, `repeats_rename`: keys may be replaced one by one.
-/

namespace Binder

variable {α κ : Type} [BEq κ] (key : α → κ)

/-- The elements of a list, each with whether its key is taken when its turn comes. -/
def occurrences (taken : κ → Bool) : List α → List (α × Bool)
  | [] => []
  | x :: xs => (x, taken (key x)) :: occurrences (fun k => k == key x || taken k) xs

/-- The elements that get their keys, if those in `taken` are not free. -/
def firsts (taken : κ → Bool) (xs : List α) : List α :=
  ((occurrences key taken xs).filter (!·.2)).map (·.1)

/-- The elements that do not get their keys, if those in `taken` are not free. -/
def repeats (taken : κ → Bool) (xs : List α) : List α :=
  ((occurrences key taken xs).filter (·.2)).map (·.1)

variable {key} {taken taken' : κ → Bool} {xs : List α}

theorem firsts_cons (x : α) (xs : List α) : firsts key taken (x :: xs) =
    (if taken (key x) then [] else [x]) ++ firsts key (fun k => k == key x || taken k) xs := by
  rw [firsts, occurrences]
  cases h : taken (key x) <;> rfl

theorem repeats_cons (x : α) (xs : List α) : repeats key taken (x :: xs) =
    (if taken (key x) then [x] else []) ++ repeats key (fun k => k == key x || taken k) xs := by
  rw [repeats, occurrences]
  cases h : taken (key x) <;> rfl

theorem firsts_singleton (x : α) :
    firsts key taken [x] = if taken (key x) then [] else [x] :=
  (firsts_cons x []).trans (List.append_nil _)

theorem repeats_singleton (x : α) :
    repeats key taken [x] = if taken (key x) then [x] else [] :=
  (repeats_cons x []).trans (List.append_nil _)

theorem mem_of_mem_repeats {x : α} (h : x ∈ repeats key taken xs) : x ∈ xs := by
  induction xs generalizing taken with
  | nil => exact h
  | cons y ys ih =>
    rw [repeats_cons, List.mem_append] at h
    rcases h with h | h
    · split at h
      · exact List.mem_singleton.1 h ▸ List.mem_cons_self
      · exact absurd h List.not_mem_nil
    · exact List.mem_cons_of_mem _ (ih h)

theorem mem_of_mem_firsts {x : α} (h : x ∈ firsts key taken xs) : x ∈ xs := by
  induction xs generalizing taken with
  | nil => exact h
  | cons y ys ih =>
    rw [firsts_cons, List.mem_append] at h
    rcases h with h | h
    · split at h
      · exact absurd h List.not_mem_nil
      · exact List.mem_singleton.1 h ▸ List.mem_cons_self
    · exact List.mem_cons_of_mem _ (ih h)

/-- Every element gets its key or does not. -/
theorem mem_firsts_or_mem_repeats {x : α} (h : x ∈ xs) :
    x ∈ firsts key taken xs ∨ x ∈ repeats key taken xs := by
  induction xs generalizing taken with
  | nil => exact absurd h List.not_mem_nil
  | cons y ys ih =>
    rw [firsts_cons, repeats_cons, List.mem_append, List.mem_append]
    rcases List.mem_cons.1 h with rfl | h
    · cases taken (key x)
      · exact .inl (.inl (List.mem_singleton_self x))
      · exact .inr (.inl (List.mem_singleton_self x))
    · exact (ih h).imp .inr .inr

theorem firsts_sublist (xs : List α) : (firsts key taken xs).Sublist xs := by
  induction xs generalizing taken with
  | nil => exact .refl _
  | cons x xs ih =>
    rw [firsts_cons]
    split
    · exact .cons _ ih
    · exact .cons_cons _ ih

/-! ## Only the keys claimed matter -/

theorem occurrences_congr (h : ∀ x ∈ xs, taken (key x) = taken' (key x)) :
    occurrences key taken xs = occurrences key taken' xs := by
  induction xs generalizing taken taken' with
  | nil => rfl
  | cons x xs ih =>
    rw [occurrences, occurrences, h x List.mem_cons_self]
    exact congrArg _ (ih fun y hy => congrArg (key y == key x || ·) (h y (List.mem_cons_of_mem _ hy)))

theorem firsts_congr (h : ∀ x ∈ xs, taken (key x) = taken' (key x)) :
    firsts key taken xs = firsts key taken' xs := by
  rw [firsts, firsts, occurrences_congr h]

theorem repeats_congr (h : ∀ x ∈ xs, taken (key x) = taken' (key x)) :
    repeats key taken xs = repeats key taken' xs := by
  rw [repeats, repeats, occurrences_congr h]

/-- Keys may be replaced one by one. -/
theorem occurrences_rename {κ' : Type} [BEq κ'] {key' : α → κ'} {e : κ' → κ}
    (he : ∀ k k', (e k == e k') = (k == k')) (h : ∀ x ∈ xs, key x = e (key' x)) :
    occurrences key taken xs = occurrences key' (fun k => taken (e k)) xs := by
  induction xs generalizing taken with
  | nil => rfl
  | cons x xs ih =>
    rw [occurrences, occurrences, ih fun y hy => h y (List.mem_cons_of_mem _ hy),
      h x List.mem_cons_self]
    simp only [he]

theorem firsts_rename {κ' : Type} [BEq κ'] {key' : α → κ'} {e : κ' → κ}
    (he : ∀ k k', (e k == e k') = (k == k')) (h : ∀ x ∈ xs, key x = e (key' x)) :
    firsts key taken xs = firsts key' (fun k => taken (e k)) xs := by
  rw [firsts, firsts, occurrences_rename he h]

theorem repeats_rename {κ' : Type} [BEq κ'] {key' : α → κ'} {e : κ' → κ}
    (he : ∀ k k', (e k == e k') = (k == k')) (h : ∀ x ∈ xs, key x = e (key' x)) :
    repeats key taken xs = repeats key' (fun k => taken (e k)) xs := by
  rw [repeats, repeats, occurrences_rename he h]

/-- The keys of the elements that get them are the first ones among all keys. -/
theorem map_key_firsts (xs : List α) :
    (firsts key taken xs).map key = firsts id taken (xs.map key) := by
  induction xs generalizing taken with
  | nil => rfl
  | cons x xs ih =>
    rw [firsts_cons, List.map_append, ih, List.map_cons, firsts_cons]
    cases h : taken (key x) <;> simp [h]

/-! ## Lists one after another -/

theorem occurrences_append (xs ys : List α) : occurrences key taken (xs ++ ys) =
    occurrences key taken xs ++
      occurrences key (fun k => (xs.map key).contains k || taken k) ys := by
  induction xs generalizing taken with
  | nil => rfl
  | cons x xs ih =>
    rw [List.cons_append, occurrences, occurrences, ih, List.cons_append]
    congr 2
    refine occurrences_congr fun y _ => ?_
    rw [List.map_cons, List.contains_cons, Bool.or_left_comm, Bool.or_assoc]

/-- What comes first has taken its keys from what comes after. -/
theorem firsts_append (xs ys : List α) : firsts key taken (xs ++ ys) =
    firsts key taken xs ++ firsts key (fun k => (xs.map key).contains k || taken k) ys := by
  rw [firsts, occurrences_append, List.filter_append, List.map_append]
  rfl

theorem repeats_append (xs ys : List α) : repeats key taken (xs ++ ys) =
    repeats key taken xs ++ repeats key (fun k => (xs.map key).contains k || taken k) ys := by
  rw [repeats, occurrences_append, List.filter_append, List.map_append]
  rfl

/-! ## Keys -/

variable [LawfulBEq κ]

/-- Every key claimed is taken afterwards. -/
theorem mem_keys_firsts_or (k : κ) : k ∈ (firsts key taken xs).map key ∨ taken k ↔
    k ∈ xs.map key ∨ taken k := by
  induction xs generalizing taken with
  | nil => rfl
  | cons x xs ih =>
    have hrest := @ih fun k => k == key x || taken k
    rw [Bool.or_eq_true, beq_iff_eq] at hrest
    rw [firsts_cons, List.map_append, List.mem_append, List.map_cons, List.mem_cons]
    by_cases hk : k = key x
    · subst hk
      cases h : taken (key x) <;> simp
    · have hhead : k ∉ (if taken (key x) then [] else [x]).map key := by
        split <;> simp [hk]
      tauto

/-- Keys that are claimed once and are free are got. -/
theorem occurrences_of_nodup (hnodup : (xs.map key).Nodup)
    (hfree : ∀ x ∈ xs, taken (key x) = false) :
    occurrences key taken xs = xs.map fun x => (x, false) := by
  induction xs generalizing taken with
  | nil => rfl
  | cons x xs ih =>
    obtain ⟨hx, hnodup⟩ := List.nodup_cons.1 hnodup
    rw [occurrences, hfree x List.mem_cons_self, List.map_cons, ih hnodup fun y hy => ?_]
    have hne : key y ≠ key x := fun h => hx (h ▸ List.mem_map_of_mem hy)
    rw [beq_eq_false_iff_ne.2 hne, hfree y (List.mem_cons_of_mem _ hy)]
    rfl

theorem firsts_of_nodup (hnodup : (xs.map key).Nodup) (hfree : ∀ x ∈ xs, taken (key x) = false) :
    firsts key taken xs = xs := by
  rw [firsts, occurrences_of_nodup hnodup hfree, List.filter_eq_self.2, List.map_map]
  · exact List.map_id xs
  · intro o ho
    obtain ⟨x, _, rfl⟩ := List.mem_map.1 ho
    rfl

theorem repeats_of_nodup (hnodup : (xs.map key).Nodup) (hfree : ∀ x ∈ xs, taken (key x) = false) :
    repeats key taken xs = [] := by
  rw [repeats, occurrences_of_nodup hnodup hfree, List.map_eq_nil_iff, List.filter_eq_nil_iff]
  intro o ho
  obtain ⟨x, _, rfl⟩ := List.mem_map.1 ho
  exact Bool.false_ne_true

omit [LawfulBEq κ] in
/-- Only free keys are got. -/
theorem free_of_mem_firsts {x : α} (h : x ∈ firsts key taken xs) : taken (key x) = false := by
  induction xs generalizing taken with
  | nil => exact absurd h List.not_mem_nil
  | cons y ys ih =>
    rw [firsts_cons, List.mem_append] at h
    rcases h with h | h
    · split at h
      · exact absurd h List.not_mem_nil
      · next hy => exact List.mem_singleton.1 h ▸ eq_false_of_ne_true hy
    · exact (Bool.or_eq_false_iff.1 (ih h)).2

omit [LawfulBEq κ] in
/-- No key is got twice. -/
theorem pairwise_firsts (xs : List α) :
    (firsts key taken xs).Pairwise fun x y => (key y == key x) = false := by
  induction xs generalizing taken with
  | nil => exact .nil
  | cons x xs ih =>
    rw [firsts_cons]
    split
    · exact ih
    · refine .cons (fun y (hy : y ∈ firsts key (fun k => k == key x || taken k) xs) => ?_) ih
      have hfree := free_of_mem_firsts hy
      exact (Bool.or_eq_false_iff.1 hfree).1

/-- An element that gets its key is what is found under it. -/
theorem lookup_firsts {ν : Type} (v : α → ν) {x : α} (h : x ∈ firsts key taken xs) :
    ((firsts key taken xs).map fun y => (key y, v y)).lookup (key x) = some (v x) := by
  induction xs generalizing taken with
  | nil => exact absurd h List.not_mem_nil
  | cons y ys ih =>
    rw [firsts_cons, List.mem_append] at h
    rw [firsts_cons, List.map_append, List.lookup_append]
    rcases h with h | h
    · split at h
      · exact absurd h List.not_mem_nil
      · next hy =>
        rw [if_neg hy, List.mem_singleton.1 h, List.map_singleton, List.lookup_cons_self,
          Option.some_or]
    · have hfree := free_of_mem_firsts h
      have hne : (key x == key y) = false := (Bool.or_eq_false_iff.1 hfree).1
      have hnone : ((if taken (key y) then [] else [y]).map fun z => (key z, v z)).lookup (key x) =
          none := by
        split
        · rfl
        · rw [List.map_singleton, List.lookup_cons, hne]
          rfl
      rw [hnone, Option.none_or, ih h]

theorem filter_occurrences (p : κ → Bool) (xs : List α) :
    (occurrences key taken xs).filter (fun o => p (key o.1)) =
      occurrences key taken (xs.filter fun x => p (key x)) := by
  induction xs generalizing taken with
  | nil => rfl
  | cons x xs ih =>
    simp only [occurrences, List.filter_cons]
    split
    · rw [occurrences, ih]
    · next hp =>
      rw [ih]
      refine occurrences_congr fun y hy => ?_
      have hne : key y ≠ key x := fun h => hp (h ▸ (List.mem_filter.1 hy).2)
      rw [beq_eq_false_iff_ne.2 hne, Bool.false_or]

theorem filter_firsts (p : κ → Bool) (xs : List α) :
    (firsts key taken xs).filter (fun x => p (key x)) =
      firsts key taken (xs.filter fun x => p (key x)) := by
  rw [firsts, firsts, ← filter_occurrences, List.filter_map, List.filter_filter,
    List.filter_filter]
  simp only [Function.comp_def, Bool.and_comm]

theorem filter_repeats (p : κ → Bool) (xs : List α) :
    (repeats key taken xs).filter (fun x => p (key x)) =
      repeats key taken (xs.filter fun x => p (key x)) := by
  rw [repeats, repeats, ← filter_occurrences, List.filter_map, List.filter_filter,
    List.filter_filter]
  simp only [Function.comp_def, Bool.and_comm]

omit [BEq κ] [LawfulBEq κ] in
/-- A list falls into the parts of two properties that exclude one another, and the rest. -/
theorem perm_filter_append (p q : α → Bool) (h : ∀ x, q x = true → p x = false) (xs : List α) :
    xs.Perm (xs.filter p ++ (xs.filter q ++ xs.filter fun x => !p x && !q x)) := by
  have hq : (xs.filter fun x => !p x).filter q = xs.filter q := by
    rw [List.filter_filter]
    refine List.filter_congr fun x _ => ?_
    cases hx : q x
    · rfl
    · rw [h x hx]
      rfl
  have hrest : (xs.filter fun x => !p x).filter (fun x => !q x) =
      xs.filter fun x => !p x && !q x := by
    rw [List.filter_filter]
    exact List.filter_congr fun x _ => Bool.and_comm _ _
  refine (List.filter_append_perm p xs).symm.trans (List.Perm.append_left _ ?_)
  rw [← hq, ← hrest]
  exact (List.filter_append_perm q _).symm

end Binder
