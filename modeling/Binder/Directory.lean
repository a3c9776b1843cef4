import Binder.Assoc
import Binder.Name

/-!
# Directories

A table of names as it is kept in memory, in two parts: the place of each text, and the text at each
place. A place is a word of 32 bits. A new text goes to the end of the one part and its place into
the other, and nothing but that keeps the two parts together.

* `Directory.intern`, `Directory.internAll`: the places of texts.
* `Directory.place?`, `Directory.text?`: look-up in the two parts.
-/

namespace Binder

structure Directory where
  /-- The places, by the texts. -/
  places : List (String × UInt32) := [("", 0)]
  /-- The texts, by their places. -/
  texts : Array String := #[""]

namespace Directory

variable (d : Directory)

/-- The place of a text, if it has one. -/
def place? (text : String) : Option UInt32 := d.places.lookup text

/-- The text at a place, if there is one. -/
def text? (place : UInt32) : Option String := d.texts[place.toNat]?

/-- The place of `text`, which may be a new one, and the directory that has it. The number of texts
    is cut down to a word of 32 bits. -/
def intern (text : String) : UInt32 × Directory :=
  match d.place? text with
  | some place => (place, d)
  | none =>
    let place := d.texts.size.toUInt32
    (place, { places := Assoc.put text place d.places, texts := d.texts.push text })

/-- The places of several texts, in order, and the directory that has them. -/
def internAll : List String → Directory → List UInt32 × Directory
  | [], d => ([], d)
  | text :: rest, d =>
    let (place, d) := d.intern text
    let (places, d) := internAll rest d
    (place :: places, d)

end Directory

end Binder
