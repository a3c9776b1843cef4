import Mathlib.Data.List.Dedup
import Mathlib.Data.List.Perm.Subperm
import Binder.Directory
import Binder.Proofs.PackageName

/-!
# Directories and tables of names

A directory gives out the places that a table of names gives out as names, as long as these fit into
a word. Below 2 ^ 32 texts they do, and then the two parts of the directory are inverse to one
another: places stand for texts, one for each, and for the same ones ever after.

* `Names.name?_eq_some_iff`: texts have names just as names have texts.
* `Directory.Holds`: a directory holds a table of names, up to the width of a word.
* `Directory.Holds.intern`, `Directory.Holds.internAll`: it does so when texts are interned.
* `Names.perm_texts_internAll`: the texts that are interned in a new table.
* `Directory.Registers`: what interning texts in a new directory comes to.
-/

namespace Binder

/-! ## Names of texts -/

namespace Names

variable (t : Names) (s : String)

/-- The name of a text, if the table has it. -/
def name? : Option Name := if s ∈ t.texts then some ⟨t.texts.idxOf s⟩ else none

variable {t s} {n : Name}

/-- Texts have names just as names have texts. -/
theorem name?_eq_some_iff : t.name? s = some n ↔ t.text? n = some s := by
  rw [name?, text?, Option.ite_none_right_eq_some, Option.some.injEq]
  constructor
  · rintro ⟨hmem, rfl⟩
    exact List.getElem?_idxOf hmem
  · intro h
    have hmem : s ∈ t.texts := List.mem_of_getElem? h
    exact ⟨hmem, t.text?_inj (List.getElem?_idxOf hmem) h⟩

/-- A text that is there keeps its name, and the table does not change. -/
theorem intern_of_name? (h : t.name? s = some n) : t.intern s = (n, t) := by
  obtain ⟨hmem, hn⟩ := Option.ite_none_right_eq_some.1 h
  exact Prod.ext (Option.some.inj hn) (dif_pos hmem)

/-- A new text is added at the end. -/
theorem intern_of_name?_eq_none (h : t.name? s = none) :
    (t.intern s).1 = ⟨t.size⟩ ∧ (t.intern s).2.texts = t.texts ++ [s] := by
  have hmem : s ∉ t.texts := fun hmem => by simp [name?, hmem] at h
  exact ⟨congrArg Name.mk (List.idxOf_eq_length hmem), by rw [intern_texts, if_neg hmem]⟩

/-- When a text is interned, no other text gets a name or loses it. -/
theorem name?_intern (u : String) :
    (t.intern s).2.name? u = if u = s then some (t.intern s).1 else t.name? u := by
  split
  · next h => exact name?_eq_some_iff.2 (h ▸ t.text?_intern u)
  · next h =>
    cases hs : t.name? s with
    | some n => rw [intern_of_name? hs]
    | none =>
      obtain ⟨-, htexts⟩ := intern_of_name?_eq_none hs
      rw [name?, name?, htexts]
      by_cases hu : u ∈ t.texts
      · rw [if_pos hu, if_pos (List.mem_append_left _ hu), List.idxOf_append_of_mem hu]
      · rw [if_neg hu, if_neg (by simpa [h] using hu)]

end Names

/-! ## Directories -/

namespace Directory

/-- The directory holds the texts of the table, each at its name as far as a word can tell. -/
structure Holds (d : Directory) (t : Names) : Prop where
  texts : d.texts.toList = t.texts
  place? : ∀ text, d.place? text = (t.name? text).map (·.index.toUInt32)

/-- A new directory holds a new table. -/
theorem holds_new : Holds {} {} where
  texts := rfl
  place? text := by
    by_cases h : text = ""
    · subst h
      rfl
    · simp [Directory.place?, Names.name?, List.lookup_cons, h, beq_eq_false_iff_ne.2 h]

variable {d : Directory} {t : Names}

/-- A text gets the place that is its name in the table. -/
theorem Holds.intern (h : d.Holds t) (s : String) :
    (d.intern s).1 = (t.intern s).1.index.toUInt32 ∧ (d.intern s).2.Holds (t.intern s).2 := by
  have hplace := h.place? s
  unfold Directory.intern
  cases hs : t.name? s with
  | some n =>
    rw [hs, Option.map_some] at hplace
    rw [hplace, Names.intern_of_name? hs]
    exact ⟨rfl, h⟩
  | none =>
    rw [hs, Option.map_none] at hplace
    obtain ⟨hname, htexts⟩ := Names.intern_of_name?_eq_none hs
    have hsize : d.texts.size = t.size := by rw [Names.size, ← h.texts, Array.length_toList]
    simp only [hplace]
    refine ⟨by rw [hname, hsize], ?_, fun u => ?_⟩
    · rw [Array.toList_push, h.texts, htexts]
    · rw [Directory.place?, Assoc.lookup_put, Names.name?_intern]
      by_cases hu : u = s
      · rw [if_pos (beq_iff_eq.2 hu), if_pos hu, hname, hsize, Option.map_some]
      · rw [if_neg (mt beq_iff_eq.1 hu), if_neg hu]
        exact h.place? u

/-- So do several texts. -/
theorem Holds.internAll (h : d.Holds t) (texts : List String) :
    (internAll texts d).1 = (t.internAll texts).1.map (·.index.toUInt32) ∧
      (Directory.internAll texts d).2.Holds (t.internAll texts).2 := by
  induction texts generalizing d t with
  | nil => exact ⟨rfl, h⟩
  | cons s rest ih =>
    obtain ⟨hplace, hd⟩ := h.intern s
    obtain ⟨hplaces, hd'⟩ := ih hd
    refine ⟨?_, hd'⟩
    rw [Directory.internAll, Names.internAll, List.map_cons, ← hplace, ← hplaces]

end Directory

/-! ## What is in a table -/

namespace Names

variable {t : Names} {texts : List String}

theorem mem_texts_internAll (u : String) :
    u ∈ (t.internAll texts).2.texts ↔ u ∈ t.texts ∨ u ∈ texts := by
  induction texts generalizing t with
  | nil => simp [internAll]
  | cons s rest ih =>
    have hintern : u ∈ (t.intern s).2.texts ↔ u ∈ t.texts ∨ u = s := by
      rw [intern_texts]
      split
      · next h => exact ⟨.inl, fun hu => hu.elim id fun hu => hu ▸ h⟩
      · rw [List.mem_append, List.mem_singleton]
    rw [internAll, ih, hintern, List.mem_cons, or_assoc]

/-- The texts that are interned in a new table are those in it, besides the empty text. -/
theorem perm_texts_internAll (texts : List String) :
    (internAll {} texts).2.texts.Perm ("" :: (texts.filter (· ≠ "")).dedup) := by
  refine (List.perm_ext_iff_of_nodup (internAll {} texts).2.nodup ?_).2 fun u => ?_
  · exact List.nodup_cons.2 ⟨by simp, List.nodup_dedup _⟩
  · have hnew : u ∈ (internAll {} texts).2.texts ↔ u = "" ∨ u ∈ texts :=
      (mem_texts_internAll u).trans (or_congr_left List.mem_singleton)
    rw [hnew, List.mem_cons, List.mem_dedup, List.mem_filter, decide_eq_true_eq]
    tauto

/-- Fewer texts are interned in a new table than can be told apart by words. -/
theorem size_internAll_le {n : Nat} (h : texts.dedup.length < n) :
    (internAll {} texts).2.size ≤ n := by
  have hsub : (texts.filter (· ≠ "")).dedup.length ≤ texts.dedup.length :=
    ((List.nodup_dedup _).subperm fun u hu => by
      rw [List.mem_dedup] at hu ⊢
      exact List.mem_of_mem_filter hu).length_le
  have hsize := (perm_texts_internAll texts).length_eq
  rw [List.length_cons] at hsize
  unfold size
  omega

end Names

namespace Directory

/-! ## Places and texts -/

variable {d : Directory} {t : Names}

section

variable (h : d.Holds t)
include h

theorem Holds.text?_eq (place : UInt32) : d.text? place = t.text? ⟨place.toNat⟩ := by
  rw [Directory.text?, Names.text?, ← h.texts, Array.getElem?_toList]

/-- The place that is the name of a text has the text. -/
theorem Holds.text?_of_name (hsize : t.size ≤ UInt32.size) {n : Name} {text : String}
    (hn : t.text? n = some text) : d.text? n.index.toUInt32 = some text := by
  have hlt : n.index < t.size := (List.getElem?_eq_some_iff.1 hn).1
  rw [h.text?_eq, UInt32.toNat_ofNat_of_lt' (Nat.lt_of_lt_of_le hlt hsize)]
  exact hn

/-- If all names fit into words, the two parts of the directory are inverse to one another. -/
theorem Holds.place?_eq_some_iff (hsize : t.size ≤ UInt32.size) {text : String} {place : UInt32} :
    d.place? text = some place ↔ d.text? place = some text := by
  rw [h.place?, Option.map_eq_some_iff]
  constructor
  · rintro ⟨n, hn, rfl⟩
    exact h.text?_of_name hsize (Names.name?_eq_some_iff.1 hn)
  · intro htext
    rw [h.text?_eq] at htext
    exact ⟨_, Names.name?_eq_some_iff.2 htext, UInt32.ofNat_toNat⟩

end

/-- What has been given out stays. -/
theorem Holds.text?_internAll (h : d.Holds t) (texts : List String) {place : UInt32} {text : String}
    (htext : d.text? place = some text) :
    (Directory.internAll texts d).2.text? place = some text := by
  obtain ⟨-, hholds⟩ := h.internAll texts
  obtain ⟨hgrows, -⟩ := t.internAll_spec texts
  rw [hholds.text?_eq]
  exact Names.text?_mono hgrows (h.text?_eq place ▸ htext)

theorem internAll_append (texts more : List String) (d : Directory) :
    internAll (texts ++ more) d =
      ((internAll texts d).1 ++ (internAll more (internAll texts d).2).1,
        (internAll more (internAll texts d).2).2) := by
  induction texts generalizing d with
  | nil => rfl
  | cons s rest ih => simp only [List.cons_append, internAll, ih]

/-- If texts have one place each, then places with the same text are the same. -/
theorem eq_of_map_text? (h : ∀ text place, d.place? text = some place ↔ d.text? place = some text)
    {a b : Option UInt32} {text : Option String} (ha : a.map d.text? = text.map some)
    (hb : b.map d.text? = text.map some) : a = b := by
  cases text with
  | none => rw [Option.map_eq_none_iff.1 ha, Option.map_eq_none_iff.1 hb]
  | some text =>
    obtain ⟨place, rfl, hplace⟩ := Option.map_eq_some_iff.1 ha
    obtain ⟨place', rfl, hplace'⟩ := Option.map_eq_some_iff.1 hb
    exact ((h text place).2 hplace).symm.trans ((h text place').2 hplace')

/-! ## New directories -/

/-- The places that the texts got one after another in a new directory, which is `d` by now. -/
structure Registers (texts : List String) (places : List UInt32) (d : Directory) : Prop where
  /-- The two parts of the directory are inverse to one another. -/
  inverse : ∀ text place, d.place? text = some place ↔ d.text? place = some text
  /-- At the place of a text is the text. -/
  text? : places.map d.text? = texts.map some
  /-- Texts have got the same place just if they are the same. -/
  place_eq_iff : ∀ i j : Nat, places[i]? = places[j]? ↔ texts[i]? = texts[j]?
  /-- The empty text has the first place, and no other text has. -/
  empty : ∀ text, d.place? text = some 0 ↔ text = ""
  /-- A place that was given out stays what it was, and so does what is at a place. -/
  lasting : ∀ before after, before ++ after = texts → (internAll before {}).1 <+: places ∧
    ∀ place text, (internAll before {}).2.text? place = some text → d.text? place = some text
  size : d.texts.size = 1 + (texts.filter (· ≠ "")).dedup.length
  /-- The names of the texts in a table of names are their places. -/
  names : (Names.internAll {} texts).1 = places.map fun place => ⟨place.toNat⟩
  table : (Names.internAll {} texts).2.texts = d.texts.toList

/-- If fewer than 2 ^ 32 texts are interned in a new directory, it gets on like a table of names,
    and its texts and their places belong to one another for good. -/
theorem registers_internAll (texts : List String) (h : texts.dedup.length < UInt32.size) :
    Registers texts (internAll texts {}).1 (internAll texts {}).2 := by
  obtain ⟨hplaces, hholds⟩ := holds_new.internAll texts
  obtain ⟨-, htexts, hknown⟩ := Names.internAll_spec {} texts
  have hsize := Names.size_internAll_le h
  set names := Names.internAll {} texts
  set d := (internAll texts {}).2
  have hinverse : ∀ text place, d.place? text = some place ↔ d.text? place = some text :=
    fun _ _ => hholds.place?_eq_some_iff hsize
  have hname : ∀ n ∈ names.1, names.2.text? n = some (names.2.text n) := fun n hn => by
    obtain ⟨u, hu⟩ := Option.isSome_iff_exists.1 (hknown n hn)
    rw [Names.text, hu, Option.getD_some]
  have htext : (internAll texts {}).1.map d.text? = texts.map some := by
    rw [hplaces, List.map_map, ← htexts, List.map_map]
    exact List.map_congr_left fun n hn => hholds.text?_of_name hsize (hname n hn)
  refine ⟨hinverse, htext, fun i j => ?_, fun text => ?_, ?_, ?_, ?_, hholds.texts.symm⟩
  · have hget (k : Nat) : (internAll texts {}).1[k]?.map d.text? = texts[k]?.map some := by
      rw [← List.getElem?_map, htext, List.getElem?_map]
    constructor
    · intro heq
      exact Option.map_injective (fun _ _ h => Option.some.inj h) (by rw [← hget i, heq, hget j])
    · intro heq
      exact eq_of_map_text? hinverse (hget i) (heq ▸ hget j)
  · rw [hinverse, hholds.text?_eq]
    have hempty := names.2.text?_unnamed
    exact ⟨fun htext => Option.some.inj (htext.symm.trans hempty), fun htext => htext ▸ hempty⟩
  · rintro before after rfl
    refine ⟨?_, fun place u hu => ?_⟩
    · rw [internAll_append]
      exact List.prefix_append _ _
    · have hlater := (holds_new.internAll before).2.text?_internAll after hu
      rwa [← show d = _ from congrArg Prod.snd (internAll_append before after {})] at hlater
  · rw [← Array.length_toList, hholds.texts, (Names.perm_texts_internAll texts).length_eq,
      List.length_cons, Nat.add_comm]
  · rw [hplaces, List.map_map]
    refine (List.map_id _).symm.trans (List.map_congr_left fun n hn => ?_)
    have hlt : n.index < names.2.size := (List.getElem?_eq_some_iff.1 (hname n hn)).1
    rw [Function.comp_apply, UInt32.toNat_ofNat_of_lt' (Nat.lt_of_lt_of_le hlt hsize)]
    rfl

/-- A text that is interned again, and the empty text. -/
theorem registered_again :
    let texts := ["a", "", "b", "a"]
    texts.dedup.length < UInt32.size ∧ (internAll texts {}).1 = [1, 0, 2, 1] ∧
      Registers texts (internAll texts {}).1 (internAll texts {}).2 := by
  intro texts
  have h : texts.dedup.length < UInt32.size := by decide +kernel
  exact ⟨h, by decide +kernel, registers_internAll texts h⟩

end Directory

end Binder
