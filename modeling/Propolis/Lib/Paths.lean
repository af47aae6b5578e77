import Propolis.Lib.Bytes
import Mathlib.Data.List.Infix

/-!
# Absolute paths

A path is the list of its names, and a name is a nonempty text without a slash, so that a path
cannot be built from anything else.  Programs that keep paths as texts compare them by their first
bytes; the lemmas here say what such a comparison means for the names.
-/

namespace Paths

def slash : UInt8 := 47

abbrev Name := {text : Bytes // text ≠ [] ∧ slash ∉ text}

abbrev Path := List Name

def nameOf (text : Bytes) : Option Name :=
  if valid : text ≠ [] ∧ slash ∉ text then some ⟨text, valid⟩ else none

/-- The names between the slashes of a text. -/
def namesOf (text : Bytes) : List Name :=
  (text.splitOn slash).filterMap nameOf

/-- Every name behind a slash. -/
def joined (path : Path) : Bytes :=
  path.flatMap fun name => slash :: name.val

def text (path : Path) : Bytes :=
  if path = [] then [slash] else joined path

/-- How the texts of the paths in a directory begin. -/
def childStart (path : Path) : Bytes :=
  if path = [] then [slash] else text path ++ [slash]

/-- The text of the key begins with that of the path and a slash. -/
def below (path key : Path) : Bool :=
  (text path ++ [slash]).isPrefixOf (text key)

/-- The name that the text of the key adds to the start of the directory, if it is one. -/
def childName (path key : Path) : Option Name :=
  if (childStart path).isPrefixOf (text key) then
    nameOf ((text key).drop (childStart path).length)
  else none

section Texts

@[simp]
theorem joined_nil : joined [] = [] := rfl

@[simp]
theorem joined_cons (name : Name) (path : Path) :
    joined (name :: path) = slash :: (name.val ++ joined path) := rfl

@[simp]
theorem joined_append (front back : Path) : joined (front ++ back) = joined front ++ joined back :=
  List.flatMap_append

theorem nameOf_val (name : Name) : nameOf name.val = some name :=
  dif_pos name.property

theorem nameOf_eq_some {bytes : Bytes} {name : Name} : nameOf bytes = some name ↔
    bytes = name.val := by
  constructor
  · intro found
    rw [nameOf] at found
    split at found
    · cases found
      rfl
    · cases found
  · rintro rfl
    exact nameOf_val name

theorem childStart_eq (path : Path) : childStart path = joined path ++ [slash] := by
  by_cases root : path = []
  · simp [childStart, root]
  · simp [childStart, text, root]

/-- A name ends where the next slash is. -/
theorem name_of_isPrefix {first second : Name} {rest : Bytes} {path : Path}
    (start : first.val ++ slash :: rest <+: second.val ++ joined path) :
    first = second ∧ slash :: rest <+: joined path := by
  obtain ⟨more, same⟩ := start
  rw [List.append_assoc] at same
  rcases List.append_eq_append_iff.mp same with ⟨between, longer, tail⟩ | ⟨between, shorter, tail⟩
  · -- the second name continues the first one: with a slash, unless it ends there
    cases between with
    | nil =>
        refine ⟨Subtype.ext (by simpa using longer.symm), more, ?_⟩
        simpa using tail
    | cons =>
        obtain ⟨rfl, -⟩ := List.cons.inj tail
        exact absurd (longer ▸ by simp) second.property.2
  · cases between with
    | nil =>
        refine ⟨Subtype.ext (by simpa using shorter), more, ?_⟩
        simpa using tail.symm
    | cons =>
        cases path with
        | nil => simp at tail
        | cons =>
            obtain ⟨rfl, -⟩ := List.cons.inj tail
            exact absurd (shorter ▸ by simp) first.property.2

/-- The joined names of a path and a slash begin those of the paths that go on from it. -/
theorem joined_isPrefix_iff {path key : Path} : joined path ++ [slash] <+: joined key ↔
    ∃ name rest, key = path ++ name :: rest := by
  constructor
  · intro start
    induction path generalizing key with
    | nil =>
        cases key with
        | nil => simp at start
        | cons name rest => exact ⟨name, rest, rfl⟩
    | cons first path ih =>
        cases key with
        | nil => simp at start
        | cons =>
            rw [joined_cons, joined_cons, List.cons_append, List.cons_prefix_cons] at start
            -- what follows the first name begins with a slash, whether names follow or not
            obtain ⟨rest, slashed⟩ : ∃ rest, joined path ++ [slash] = slash :: rest := by
              cases path with
              | nil => exact ⟨[], rfl⟩
              | cons => exact ⟨_, rfl⟩
            rw [List.append_assoc, slashed] at start
            obtain ⟨rfl, tail⟩ := name_of_isPrefix start.2
            rw [← slashed] at tail
            obtain ⟨name, more, rfl⟩ := ih tail
            exact ⟨name, more, rfl⟩
  · rintro ⟨name, rest, rfl⟩
    refine ⟨name.val ++ joined rest, ?_⟩
    simp

end Texts

section Below

variable {path key : Path}

theorem below_iff :
    below path key = true ↔ path ≠ [] ∧ ∃ name rest, key = path ++ name :: rest := by
  rw [below, List.isPrefixOf_iff_prefix]
  by_cases root : path = []
  · -- two slashes begin the text of no path
    subst root
    simp only [ne_eq, not_true_eq_false, false_and, iff_false]
    intro start
    cases key with
    | nil => simp [text] at start
    | cons name rest =>
        have slashed : [slash] <+: name.val ++ joined rest := by simpa [text] using start
        obtain ⟨more, same⟩ := slashed
        obtain ⟨valid, free⟩ := name.property
        cases letters : name.val with
        | nil => exact valid letters
        | cons =>
            rw [letters] at same
            obtain ⟨rfl, -⟩ := List.cons.inj same
            exact free (letters ▸ List.mem_cons_self)
  · by_cases top : key = []
    · subst top
      simp only [text, if_true]
      constructor
      · intro start
        have short := start.length_le
        cases path with
        | nil => exact absurd rfl root
        | cons => simp at short
      · rintro ⟨-, name, rest, same⟩
        simp at same
    · simp [text, root, top, joined_isPrefix_iff]

theorem childName_eq_some {name : Name} : childName path key = some name ↔
    key = path ++ [name] := by
  rw [childName, childStart_eq]
  by_cases top : key = []
  · subst top
    constructor
    · intro found
      split at found
      case isTrue =>
        rw [nameOf_eq_some] at found
        have empty : ([slash] : Bytes).drop (joined path ++ [slash]).length = [] :=
          List.drop_eq_nil_of_le (by simp)
        exact absurd (found.symm.trans empty) name.property.1
      case isFalse => cases found
    · intro same
      simp at same
  · simp only [text, top, if_false]
    constructor
    · intro found
      split at found
      case isTrue start =>
        obtain ⟨first, rest, rfl⟩ := joined_isPrefix_iff.mp (List.isPrefixOf_iff_prefix.mp start)
        rw [nameOf_eq_some] at found
        have added : first.val ++ joined rest = name.val := by
          simpa using found
        cases rest with
        | nil => exact congrArg (path ++ [·]) (Subtype.ext (by simpa using added))
        | cons => exact absurd (added ▸ by simp) name.property.2
      case isFalse => cases found
    · rintro rfl
      rw [if_pos (List.isPrefixOf_iff_prefix.mpr (joined_isPrefix_iff.mpr ⟨name, [], rfl⟩))]
      rw [nameOf_eq_some]
      simp

end Below

section Names

theorem namesOf_append (front back : Bytes) :
    namesOf (front ++ slash :: back) = namesOf front ++ namesOf back := by
  simp only [namesOf, List.splitOn]
  rw [List.splitOnP_append_cons _ _ (by simp), List.filterMap_append]

theorem splitOn_name {bytes : Bytes} (free : slash ∉ bytes) : bytes.splitOn slash = [bytes] := by
  induction bytes with
  | nil => rfl
  | cons byte rest ih =>
      have other : slash ≠ byte := fun same => free (same ▸ List.mem_cons_self)
      have tail := ih fun member => free (List.mem_cons_of_mem _ member)
      simp only [List.splitOn] at tail ⊢
      rw [List.splitOnP_cons_eq_if_modifyHead, if_neg (by simpa using Ne.symm other), tail]
      rfl

theorem namesOf_name (name : Name) : namesOf name.val = [name] := by
  rw [namesOf, splitOn_name name.property.2, List.filterMap_cons, nameOf_val]
  rfl

theorem namesOf_child (front : Bytes) (name : Name) :
    namesOf (front ++ slash :: name.val) = namesOf front ++ [name] := by
  rw [namesOf_append, namesOf_name]

theorem namesOf_joined (path : Path) : namesOf (joined path) = path := by
  induction path using List.reverseRecOn with
  | nil => rfl
  | append_singleton front name ih =>
      rw [joined_append, joined_cons, joined_nil, List.append_nil, namesOf_child, ih]

end Names

end Paths
