import Mathlib.Data.List.Basic

/-!
# Indexing that may fail

What a language with checked indexing does to a buffer: a range of it, the rest of it, an array of
a fixed size and the difference of two lengths.  `none` stands for the failure, so that a program
written with these fails where the original would, and that it never does can be proved.
-/

namespace Slices

variable {Item : Type} {items : List Item} {first last : ℕ}

/-- `items[first..last]`. -/
def range (items : List Item) (first last : ℕ) : Option (List Item) :=
  if first ≤ last ∧ last ≤ items.length then some ((items.drop first).take (last - first))
  else none

/-- `items[first..]`. -/
def from_ (items : List Item) (first : ℕ) : Option (List Item) :=
  if first ≤ items.length then some (items.drop first) else none

/-- The items as an array of a fixed size. -/
def array (size : ℕ) (items : List Item) : Option {array : List Item // array.length = size} :=
  if fits : items.length = size then some ⟨items, fits⟩ else none

/-- A difference of unsigned numbers. -/
def minus (whole part : ℕ) : Option ℕ :=
  if part ≤ whole then some (whole - part) else none

theorem range_eq (ordered : first ≤ last) (inside : last ≤ items.length) :
    range items first last = some ((items.drop first).take (last - first)) :=
  if_pos ⟨ordered, inside⟩

theorem from_eq (inside : first ≤ items.length) : from_ items first = some (items.drop first) :=
  if_pos inside

theorem array_eq {size : ℕ} (fits : items.length = size) :
    array size items = some ⟨items, fits⟩ :=
  dif_pos fits

theorem minus_eq {whole part : ℕ} (enough : part ≤ whole) :
    minus whole part = some (whole - part) :=
  if_pos enough

end Slices
