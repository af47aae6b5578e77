import Propolis.Lib.Bytes
import Mathlib.Data.List.Induction

/-!
# Lines of a byte string

Files that hold one record a line.  `terminated` writes lines, each followed by a
newline; `linesOf` reads the complete lines back and leaves an unfinished last
one out.  A string is clean at its end when the next byte written starts a line.
-/

namespace Bytes

def newline : UInt8 := 10

def terminated (lines : List Bytes) : Bytes :=
  lines.flatMap fun line => line ++ [newline]

@[simp]
theorem terminated_nil : terminated [] = [] := rfl

theorem terminated_cons (line : Bytes) (lines : List Bytes) :
    terminated (line :: lines) = line ++ newline :: terminated lines := by
  simp [terminated]

theorem terminated_cons_length (line : Bytes) (lines : List Bytes) :
    (terminated (line :: lines)).length = line.length + 1 + (terminated lines).length := by
  rw [terminated_cons, List.length_append, List.length_cons]
  omega

theorem terminated_append (front back : List Bytes) :
    terminated (front ++ back) = terminated front ++ terminated back :=
  List.flatMap_append

def EndsClean (bytes : Bytes) : Prop :=
  bytes = [] ∨ bytes.getLast? = some newline

instance (bytes : Bytes) : Decidable (EndsClean bytes) :=
  inferInstanceAs (Decidable (_ ∨ _))

theorem EndsClean.append_terminated {bytes : Bytes} (clean : EndsClean bytes)
    (lines : List Bytes) : EndsClean (bytes ++ terminated lines) := by
  cases lines using List.reverseRecOn with
  | nil => simpa using clean
  | append_singleton =>
      right
      simp [terminated_append, terminated_cons]

/-- `line` stands in `bytes` as a line of its own, starting at `position`. -/
def OwnLineAt (bytes : Bytes) (position : ℕ) (line : Bytes) : Prop :=
  ∃ before after, bytes = before ++ (line ++ newline :: after) ∧ before.length = position ∧
    EndsClean before

variable {bytes line : Bytes} {lines : List Bytes} {position : ℕ}

theorem ownLineAt_iff :
    OwnLineAt bytes position line ↔
      position ≤ bytes.length ∧ EndsClean (bytes.take position) ∧
        (line ++ [newline]) <+: bytes.drop position := by
  constructor
  · rintro ⟨before, after, rfl, rfl, clean⟩
    refine ⟨by simp, by simpa using clean, after, ?_⟩
    simp
  · rintro ⟨inside, clean, after, rest⟩
    refine ⟨bytes.take position, after, ?_, by simpa using inside, clean⟩
    have whole := List.take_append_drop position bytes
    rw [← rest] at whole
    simpa using whole.symm

instance (bytes line : Bytes) (position : ℕ) : Decidable (OwnLineAt bytes position line) :=
  decidable_of_iff _ ownLineAt_iff.symm

theorem OwnLineAt.append (own : OwnLineAt bytes position line)
    (more : Bytes) : OwnLineAt (bytes ++ more) position line := by
  obtain ⟨before, after, rfl, length, clean⟩ := own
  exact ⟨before, after ++ more, by simp, length, clean⟩

theorem OwnLineAt.lt (own : OwnLineAt bytes position line) :
    position < bytes.length := by
  obtain ⟨before, after, rfl, rfl, -⟩ := own
  simp only [List.length_append, List.length_cons]
  omega

def OwnLine (bytes line : Bytes) : Prop :=
  ∃ position, OwnLineAt bytes position line

theorem ownLine_iff :
    OwnLine bytes line ↔ ∃ position < bytes.length + 1, OwnLineAt bytes position line := by
  constructor
  · rintro ⟨position, own⟩
    exact ⟨position, Nat.lt_succ_of_le (ownLineAt_iff.mp own).1, own⟩
  · rintro ⟨position, -, own⟩
    exact ⟨position, own⟩

instance (bytes line : Bytes) : Decidable (OwnLine bytes line) :=
  decidable_of_iff _ ownLine_iff.symm

section Reading

/-- The complete lines of a string, and what follows the last newline. -/
def splitLines : Bytes → List Bytes × Bytes
  | [] => ([], [])
  | byte :: rest =>
      let later := splitLines rest
      if byte = newline then ([] :: later.1, later.2)
      else
        match later.1 with
        | [] => ([], byte :: later.2)
        | line :: lines => ((byte :: line) :: lines, later.2)

def linesOf (bytes : Bytes) : List Bytes :=
  (splitLines bytes).1

theorem terminated_splitLines (bytes : Bytes) :
    terminated (splitLines bytes).1 ++ (splitLines bytes).2 = bytes := by
  induction bytes with
  | nil => rfl
  | cons byte rest ih =>
      simp only [splitLines]
      split
      · rename_i ended
        simp [terminated_cons, ended, ih]
      · split
        · rename_i none
          rw [none] at ih
          simpa using ih
        · rename_i line lines some
          rw [some] at ih
          simpa [terminated_cons] using ih

theorem newline_notMem_of_mem_linesOf (member : line ∈ linesOf bytes) :
    newline ∉ line := by
  rw [linesOf] at member
  induction bytes generalizing line with
  | nil => cases member
  | cons byte rest ih =>
      simp only [splitLines] at member
      split at member
      · rcases List.mem_cons.mp member with rfl | later
        · simp
        · exact ih later
      · rename_i unfinished
        split at member
        · cases member
        · rename_i first lines some
          rcases List.mem_cons.mp member with rfl | later
          · have clean := ih (some ▸ List.mem_cons_self)
            simp [clean, Ne.symm unfinished]
          · exact ih (some ▸ List.mem_cons_of_mem _ later)

theorem newline_notMem_unfinished (bytes : Bytes) : newline ∉ (splitLines bytes).2 := by
  induction bytes with
  | nil => simp [splitLines]
  | cons byte rest ih =>
      simp only [splitLines]
      split
      · exact ih
      · rename_i unfinished
        split
        · simp [ih, Ne.symm unfinished]
        · exact ih

theorem EndsClean.eq_terminated (clean : EndsClean bytes) :
    bytes = terminated (linesOf bytes) := by
  have whole := terminated_splitLines bytes
  have unfinished := newline_notMem_unfinished bytes
  cases tail : (splitLines bytes).2 using List.reverseRecOn with
  | nil =>
      rw [tail, List.append_nil] at whole
      exact whole.symm
  | append_singleton =>
      rw [tail] at whole unfinished
      rcases clean with empty | ended
      · simp [empty] at whole
      · rw [← whole, ← List.append_assoc, List.getLast?_concat] at ended
        simp [Option.some.inj ended] at unfinished

end Reading

section Splitting

theorem linesOf_line_append (clean : newline ∉ line) (rest : Bytes) :
    linesOf (line ++ newline :: rest) = line :: linesOf rest := by
  induction line with
  | nil => simp [linesOf, splitLines]
  | cons byte line ih =>
      have first : byte ≠ newline := fun same => clean (by simp [same])
      have later := ih fun member => clean (List.mem_cons_of_mem _ member)
      simp only [linesOf] at later
      simp [linesOf, splitLines, if_neg first, later]

theorem linesOf_terminated_append (clean : ∀ line ∈ lines, newline ∉ line)
    (rest : Bytes) : linesOf (terminated lines ++ rest) = lines ++ linesOf rest := by
  induction lines with
  | nil => rfl
  | cons line lines ih =>
      have later := ih fun other member => clean other (List.mem_cons_of_mem _ member)
      rw [terminated_cons, List.append_assoc, List.cons_append,
        linesOf_line_append (clean line List.mem_cons_self), later, List.cons_append]

theorem linesOf_terminated (clean : ∀ line ∈ lines, newline ∉ line) :
    linesOf (terminated lines) = lines := by
  have whole := linesOf_terminated_append clean []
  simpa [linesOf, splitLines] using whole

/-- Behind a clean end the lines of what follows are lines of the whole. -/
theorem EndsClean.linesOf_append (clean : EndsClean bytes) (rest : Bytes) :
    linesOf (bytes ++ rest) = linesOf bytes ++ linesOf rest := by
  conv_lhs => rw [clean.eq_terminated]
  exact linesOf_terminated_append (fun line => newline_notMem_of_mem_linesOf) rest

theorem linesOf_mono {longer : Bytes} (extends_ : bytes <+: longer) :
    linesOf bytes <+: linesOf longer := by
  rcases extends_ with ⟨more, rfl⟩
  have whole : terminated (linesOf bytes) ++ (splitLines bytes).2 = bytes :=
    terminated_splitLines bytes
  refine ⟨linesOf ((splitLines bytes).2 ++ more), ?_⟩
  rw [← linesOf_terminated_append (fun line => newline_notMem_of_mem_linesOf),
    ← List.append_assoc, whole]

/-- Some of the complete lines of a string stand at its front, and the others behind them. -/
theorem take_drop_of_linesOf_eq {taken others : List Bytes}
    (split : taken ++ others = linesOf bytes) :
    bytes.take (terminated taken).length = terminated taken ∧
      linesOf (bytes.drop (terminated taken).length) = others := by
  have whole : bytes = terminated taken ++ (terminated others ++ (splitLines bytes).2) := by
    rw [← List.append_assoc, ← terminated_append, split]
    exact (terminated_splitLines bytes).symm
  have clean : ∀ line ∈ taken, newline ∉ line := by
    intro line member
    apply newline_notMem_of_mem_linesOf
    rw [← split]
    exact List.mem_append_left _ member
  have front : bytes.take (terminated taken).length = terminated taken := by
    conv_lhs => rw [whole]
    exact List.take_left' rfl
  have rejoined : terminated taken ++ bytes.drop (terminated taken).length = bytes := by
    conv_rhs => rw [← List.take_append_drop (terminated taken).length bytes, front]
  refine ⟨front, ?_⟩
  have lines := linesOf_terminated_append clean (bytes.drop (terminated taken).length)
  rw [rejoined, ← split] at lines
  exact (List.append_cancel_left lines).symm

section Behind

variable {content : Bytes} {offset : ℕ} {taken : List Bytes}
  (ahead : taken <+: linesOf (content.drop offset))
include ahead

/-- What stands before the place behind some of the lines ahead. -/
theorem take_behind : content.take (offset + (terminated taken).length) =
    content.take offset ++ terminated taken := by
  rcases ahead with ⟨others, split⟩
  rw [List.take_add, (take_drop_of_linesOf_eq split).1]

theorem inside_behind (inside : offset ≤ content.length) :
    offset + (terminated taken).length ≤ content.length := by
  have reached := congrArg List.length (take_behind ahead)
  rw [List.length_append, List.length_take, List.length_take] at reached
  omega

theorem clean_behind (clean : EndsClean (content.take offset)) :
    EndsClean (content.take (offset + (terminated taken).length)) := by
  rw [take_behind ahead]
  exact clean.append_terminated taken

theorem linesOf_behind (clean : EndsClean (content.take offset)) :
    linesOf (content.take (offset + (terminated taken).length)) =
      linesOf (content.take offset) ++ taken := by
  rw [take_behind ahead, clean.linesOf_append, linesOf_terminated]
  intro line member
  exact newline_notMem_of_mem_linesOf (ahead.subset member)

end Behind

end Splitting

end Bytes
