/-!
# Names

An identifier is handled as a *name*, the place of its text in a table of names. The table starts
with the empty text, holds no text twice and only grows, so within one table equal names mean equal
texts and a name keeps its text for good.

In memory a name is a word of 32 bits, as it is in a directory (`Binder.Directory`). Here it is the
place itself, a number without a bound, which is the same as long as there are no more than 2 ^ 32
texts.

* `Names.intern_fst`, `Names.intern_texts`: the name of a text is its place in the table, which
  holds the text afterwards and keeps all it held.
* `Names.text?_intern`: the name given to a text has that text.
* `Names.text?_intern_of_some`: interning changes the text of no name.
* `Names.text?_inj`: two names with one text are one name.
* `Names.isUnnamed_intern`: only the empty text has the name of what is unnamed.
-/

namespace Binder

/-- An identifier, by its place in a table of names. -/
structure Name where
  index : Nat
deriving DecidableEq, Inhabited

namespace Name

/-- The name of the empty text in every table: what an unnamed declaration is called. -/
def unnamed : Name := ⟨0⟩

def isUnnamed (n : Name) : Bool := n.index == 0

/-- How a name is shown when its text is not at hand. -/
def debugText (n : Name) : String := "Name(" ++ toString n.index ++ ")"

end Name

/-- A table of names. -/
structure Names where
  /-- The texts, each at the place that is its name. -/
  texts : List String := [""]
  nodup : texts.Nodup := by decide
  head : texts.head? = some "" := by decide

namespace Names

instance : Inhabited Names := ⟨{}⟩

/-- The text of a name, if the table gave it out. -/
def text? (t : Names) (n : Name) : Option String := t.texts[n.index]?

/-- The text of a name; the empty text for a name of another table. -/
def text (t : Names) (n : Name) : String := (t.text? n).getD ""

/-- The table with `text` in it, added at the end if it is new. -/
def insert (t : Names) (text : String) : Names :=
  if h : text ∈ t.texts then t
  else
    { texts := t.texts ++ [text]
      nodup := List.nodup_append.2
        ⟨t.nodup, List.pairwise_singleton _ _, fun _ ha _ hb hab =>
          h (List.mem_singleton.1 hb ▸ hab ▸ ha)⟩
      head := by rw [List.head?_append, t.head]; rfl }

/-- The name of `text`, and the table that has it: the place where the text is already, or the
    first free one. -/
def intern (t : Names) (text : String) : Name × Names :=
  (⟨t.texts.idxOf text⟩, t.insert text)

/-- The names of several texts, in order, and the table that has them. -/
def internAll (t : Names) : List String → List Name × Names
  | [] => ([], t)
  | s :: rest =>
    let (name, t) := t.intern s
    let (names, t) := t.internAll rest
    (name :: names, t)

/-- How many texts the table holds, the empty one included. -/
def size (t : Names) : Nat := t.texts.length

/-- Whether nothing but the empty text has been interned. -/
def isEmpty (t : Names) : Bool := t.size ≤ 1

def debugText (t : Names) : String := "Interner \x7b count: " ++ toString t.size ++ " \x7d"

/-! ## Interning -/

variable (t : Names) (s : String)

theorem intern_fst : (t.intern s).1 = ⟨t.texts.idxOf s⟩ := rfl

theorem intern_texts :
    (t.intern s).2.texts = if s ∈ t.texts then t.texts else t.texts ++ [s] := by
  simp only [intern, insert]
  split <;> rfl

theorem prefix_intern : t.texts <+: (t.intern s).2.texts := by
  rw [intern_texts]
  split
  · exact List.prefix_rfl
  · exact List.prefix_append _ _

@[simp] theorem text?_intern : (t.intern s).2.text? (t.intern s).1 = some s := by
  rw [text?, intern_texts, intern_fst]
  by_cases h : s ∈ t.texts
  · simp [h, List.idxOf_lt_length_iff]
  · rw [if_neg h, List.idxOf_eq_length h]
    simp

/-- A name keeps its text. -/
theorem text?_intern_of_some {n : Name} {u : String} (h : t.text? n = some u) :
    (t.intern s).2.text? n = some u := by
  obtain ⟨r, hr⟩ := prefix_intern t s
  rw [text?, ← hr, List.getElem?_append_left (List.getElem?_eq_some_iff.1 h).1]
  exact h

theorem text?_inj {m n : Name} {u : String} (hm : t.text? m = some u) (hn : t.text? n = some u) :
    m = n := by
  have hlt := (List.getElem?_eq_some_iff.1 hm).1
  cases m; cases n
  exact congrArg Name.mk ((List.getElem?_inj hlt t.nodup).1 (hm.trans hn.symm))

theorem text?_unnamed : t.text? Name.unnamed = some "" := by
  rw [text?, Name.unnamed, ← List.head?_eq_getElem?, t.head]

/-- Only the empty text has the name of what is unnamed. -/
theorem isUnnamed_intern : (t.intern s).1.isUnnamed = true ↔ s = "" := by
  obtain ⟨l, hl⟩ := List.head?_eq_some_iff.1 t.head
  rw [intern_fst, Name.isUnnamed, beq_iff_eq, hl, List.idxOf_cons]
  by_cases h : s = ""
  · simp [h]
  · simp [h, beq_eq_false_iff_ne.2 (Ne.symm h)]

end Names

end Binder
