import Propolis.Tailer.LogTailer

/-!
# What one read of a file takes

The loop of `read_lines_from` takes a beginning of the complete lines ahead, each
as its entry, and stops when it has enough lines, when the byte budget is used up
or when there are no more.  The spans it records for the lines it returns add up
to the position behind any of them: `uptoLine` is what stands before that
position.
-/

namespace Propolis

open Bytes

def TailEntry.of (line : Bytes) : TailEntry :=
  if line.length ≤ maxLineBytes then .line (lossy line) else .discarded (line.length + 1)

/-- A line that is not discarded for its length. -/
def Short (line : Bytes) : Prop :=
  line.length ≤ maxLineBytes

instance (line : Bytes) : Decidable (Short line) :=
  inferInstanceAs (Decidable (_ ≤ _))

/-- The texts a reader gets of some lines. -/
def texts (lines : List Bytes) : List Bytes :=
  (lines.filter Short).map lossy

/-- The spans of the short lines, the bytes discarded before each of them included. -/
def lineSpans : ℕ → List Bytes → List ℕ
  | _, [] => []
  | discarded, line :: rest =>
      if Short line then (discarded + (line.length + 1)) :: lineSpans 0 rest
      else lineSpans (discarded + (line.length + 1)) rest

/-- The lines up to the `count`-th short one. -/
def uptoLine : ℕ → List Bytes → List Bytes
  | 0, _ => []
  | _, [] => []
  | count + 1, line :: rest =>
      if Short line then line :: uptoLine count rest else line :: uptoLine (count + 1) rest

/-- The bytes of the short lines that are not text, by their number. -/
def lossyRaws : ℕ → List Bytes → List (ℕ × Bytes)
  | _, [] => []
  | index, line :: rest =>
      if Short line then
        if lossy line = line then lossyRaws (index + 1) rest
        else (index, line) :: lossyRaws (index + 1) rest
      else lossyRaws index rest

variable {maxLines : ℕ} {budget : LineBudget}

section Texts

@[simp]
theorem texts_nil : texts [] = [] := rfl

theorem texts_append (front back : List Bytes) :
    texts (front ++ back) = texts front ++ texts back := by
  simp [texts]

theorem texts_cons_of_short {line : Bytes} (short : Short line) (rest : List Bytes) :
    texts (line :: rest) = lossy line :: texts rest := by
  simp [texts, short]

theorem texts_cons_of_not_short {line : Bytes} (long : ¬Short line) (rest : List Bytes) :
    texts (line :: rest) = texts rest := by
  simp [texts, long]

theorem texts_of_entries (lines : List Bytes) :
    (lines.map TailEntry.of).filterMap TailEntry.text = texts lines := by
  induction lines with
  | nil => rfl
  | cons line rest ih =>
      by_cases short : Short line
      · rw [texts_cons_of_short short, ← ih]
        simp [TailEntry.of, TailEntry.text, show line.length ≤ maxLineBytes from short]
      · rw [texts_cons_of_not_short short, ← ih]
        simp [TailEntry.of, TailEntry.text, List.filterMap_cons,
          show ¬line.length ≤ maxLineBytes from short]

theorem countLines_of_entries (lines : List Bytes) :
    countLines (lines.map TailEntry.of) = (texts lines).length := by
  rw [countLines, texts_of_entries]

end Texts

section Loop

variable {lineBytes discarded : ℕ}

/-- What the loop took, and why it stopped. -/
structure LoopTook (maxLines : ℕ) (lines : List Bytes) (already discarded : ℕ) (read : LineRead)
    (taken : List Bytes) : Prop where
  ahead : taken <+: lines
  entries : read.entries = taken.map TailEntry.of
  consumed : read.consumed = (terminated taken).length
  spans : read.spans = lineSpans discarded taken
  lens : read.lens = (taken.filter Short).map fun line => line.length + 1
  raws : read.rawLossy = lossyRaws already taken
  enough : already + (texts taken).length ≤ max maxLines already
  stopped : maxLines ≤ already + (texts taken).length ∨ read.budgetHit = true ∨ taken = lines

theorem readLinesLoop_took (lines : List Bytes) (already lineBytes discarded : ℕ) :
    ∃ taken, LoopTook maxLines lines already discarded
      (readLinesLoop maxLines budget lines already lineBytes discarded) taken := by
  induction lines generalizing already lineBytes discarded with
  | nil =>
      refine ⟨[], ⟨List.prefix_rfl, rfl, rfl, rfl, rfl, rfl, ?_, Or.inr (Or.inr rfl)⟩⟩
      simp
  | cons line rest ih =>
      rw [readLinesLoop]
      split
      · rename_i full
        refine ⟨[], ⟨List.nil_prefix, rfl, rfl, rfl, rfl, rfl, ?_, Or.inl (by simpa using full)⟩⟩
        simp
      split
      · rename_i short
        split
        · refine ⟨[], ⟨List.nil_prefix, rfl, rfl, rfl, rfl, rfl, ?_, Or.inr (Or.inl rfl)⟩⟩
          simp
        · rcases ih (already + 1) (lineBytes + (line.length + 1)) 0 with ⟨taken, took⟩
          have counted : (texts (line :: taken)).length = (texts taken).length + 1 := by
            rw [texts_cons_of_short short, List.length_cons]
          refine ⟨line :: taken, ⟨?_, ?_, ?_, ?_, ?_, ?_, ?_, ?_⟩⟩
          · exact (List.prefix_cons_inj line).mpr took.ahead
          · simp [took.entries, TailEntry.of, short]
          · simp only [took.consumed, terminated_cons_length]
          · simp only [took.spans, lineSpans, if_pos (show Short line from short)]
          · simp only [took.lens, List.filter_cons, decide_eq_true (show Short line from short),
              if_true, List.map_cons]
          · simp only [took.raws, lossyRaws, if_pos (show Short line from short)]
          · have enough := took.enough
            omega
          · rcases took.stopped with full | hit | all
            · exact Or.inl (by omega)
            · exact Or.inr (Or.inl hit)
            · exact Or.inr (Or.inr (by rw [all]))
      · rename_i long
        rcases ih already lineBytes (discarded + (line.length + 1)) with ⟨taken, took⟩
        have counted : texts (line :: taken) = texts taken := texts_cons_of_not_short long taken
        refine ⟨line :: taken, ⟨?_, ?_, ?_, ?_, ?_, ?_, ?_, ?_⟩⟩
        · exact (List.prefix_cons_inj line).mpr took.ahead
        · simp [took.entries, TailEntry.of, long]
        · simp only [took.consumed, terminated_cons_length]
        · simp only [took.spans, lineSpans, if_neg (show ¬Short line from long)]
        · simp only [took.lens, List.filter_cons, decide_eq_false (show ¬Short line from long),
            Bool.false_eq_true, if_false]
        · simp only [took.raws, lossyRaws, if_neg (show ¬Short line from long)]
        · rw [counted]
          exact took.enough
        · rw [counted]
          rcases took.stopped with full | hit | all
          · exact Or.inl full
          · exact Or.inr (Or.inl hit)
          · exact Or.inr (Or.inr (by rw [all]))

/-- A read with bytes to spare for every line it may still take stops at no budget. -/
theorem readLinesLoop_texts (lines : List Bytes) {already left : ℕ}
    (count : maxLines = already + left)
    (spare : lineBytes + left * (maxLineBytes + 1) ≤ budget.left) :
    (readLinesLoop maxLines budget lines already lineBytes discarded).entries.filterMap
      TailEntry.text = (texts lines).take left := by
  induction lines generalizing already left lineBytes discarded with
  | nil => simp [readLinesLoop]
  | cons line rest ih =>
      rw [readLinesLoop]
      cases left with
      | zero => simp [count]
      | succ left =>
          rw [if_neg (by omega)]
          by_cases short : Short line
          · have fits : line.length ≤ maxLineBytes := short
            rw [Nat.succ_mul] at spare
            rw [if_pos fits, if_neg (by omega), texts_cons_of_short short, List.take_succ_cons]
            exact congrArg _ (ih (show maxLines = already + 1 + left by omega) (by omega))
          · rw [if_neg (show ¬line.length ≤ maxLineBytes from short),
              texts_cons_of_not_short short]
            exact ih count spare

/-- Where the first line is free, a read that may take a line takes one if there is one, and the
budget stops it behind a line only. -/
theorem readLinesLoop_progress {lines : List Bytes} (free : budget.firstIsFree = true)
    (more : 0 < maxLines ∧ texts lines ≠ [] ∨
      (readLinesLoop maxLines budget lines 0 lineBytes discarded).budgetHit = true) :
    ((readLinesLoop maxLines budget lines 0 lineBytes discarded).entries.filterMap
      TailEntry.text) ≠ [] := by
  induction lines generalizing discarded with
  | nil => simp [readLinesLoop] at more
  | cons line rest ih =>
      rw [readLinesLoop] at more ⊢
      by_cases full : maxLines ≤ 0
      · simp [Nat.le_zero.mp full] at more
      · rw [if_neg full] at more ⊢
        by_cases short : Short line
        · rw [if_pos (show line.length ≤ maxLineBytes from short), if_neg (by simp [free])]
          simp [TailEntry.text]
        · rw [if_neg (show ¬line.length ≤ maxLineBytes from short)] at more ⊢
          rw [texts_cons_of_not_short short] at more
          simpa [TailEntry.text, List.filterMap_cons] using ih more

end Loop

section Spans

theorem lineSpans_length (discarded : ℕ) (lines : List Bytes) :
    (lineSpans discarded lines).length = (texts lines).length := by
  induction lines generalizing discarded with
  | nil => rfl
  | cons line rest ih =>
      rw [lineSpans]
      split
      · rename_i short
        simp [texts_cons_of_short short, ih]
      · rename_i long
        simp [texts_cons_of_not_short long, ih]

/-- The first `count` spans reach to the end of the `count`-th short line. -/
theorem lineSpans_sum {count discarded : ℕ} {lines : List Bytes} (positive : 0 < count)
    (inside : count ≤ (texts lines).length) :
    ((lineSpans discarded lines).take count).sum =
      discarded + (terminated (uptoLine count lines)).length := by
  induction lines generalizing count discarded with
  | nil => simp at inside; omega
  | cons line rest ih =>
      cases count with
      | zero => omega
      | succ count =>
          rw [lineSpans, uptoLine]
          split
          · rename_i short
            rw [texts_cons_of_short short, List.length_cons] at inside
            cases count with
            | zero => simp [uptoLine, terminated_cons]
            | succ count =>
                rw [List.take_succ_cons, List.sum_cons, ih (by omega) (by omega)]
                rw [terminated_cons_length]
                omega
          · rename_i long
            rw [texts_cons_of_not_short long] at inside
            rw [ih (by omega) inside]
            rw [terminated_cons_length]
            omega

theorem uptoLine_initial (count : ℕ) (lines : List Bytes) : uptoLine count lines <+: lines := by
  induction lines generalizing count with
  | nil => cases count <;> simp [uptoLine]
  | cons line rest ih =>
      cases count with
      | zero => simp [uptoLine]
      | succ count =>
          rw [uptoLine]
          split
          · exact (List.prefix_cons_inj line).mpr (ih count)
          · exact (List.prefix_cons_inj line).mpr (ih (count + 1))

theorem texts_uptoLine (count : ℕ) (lines : List Bytes) :
    texts (uptoLine count lines) = (texts lines).take count := by
  induction lines generalizing count with
  | nil => cases count <;> simp [uptoLine]
  | cons line rest ih =>
      cases count with
      | zero => simp [uptoLine]
      | succ count =>
          rw [uptoLine]
          split
          · rename_i short
            rw [texts_cons_of_short short, texts_cons_of_short short, ih, List.take_succ_cons]
          · rename_i long
            rw [texts_cons_of_not_short long, texts_cons_of_not_short long, ih]

end Spans

section Files

variable {content : Bytes} {offset : ℕ} {read : LineRead} {taken : List Bytes}

/-- A read of a file from a position took these lines. -/
@[reducible]
def FileRead (content : Bytes) (offset maxLines : ℕ) (read : LineRead) (taken : List Bytes) :
    Prop :=
  LoopTook maxLines (linesOf (content.drop offset)) 0 0 read taken

theorem readLinesFrom_fileRead (content : Bytes) (offset maxLines : ℕ) (budget : LineBudget) :
    ∃ taken, FileRead content offset maxLines (readLinesFrom content offset maxLines budget)
      taken :=
  readLinesLoop_took _ _ _ _

theorem FileRead.texts_eq (fileRead : FileRead content offset maxLines read taken) :
    read.entries.filterMap TailEntry.text = texts taken := by
  rw [fileRead.entries, texts_of_entries]

theorem readLinesFrom_progress (fileRead : FileRead content offset maxLines
      (readLinesFrom content offset maxLines budget) taken)
    (free : budget.firstIsFree = true)
    (more : 0 < maxLines ∧ texts (linesOf (content.drop offset)) ≠ [] ∨
      (readLinesFrom content offset maxLines budget).budgetHit = true) : texts taken ≠ [] := by
  rw [← fileRead.texts_eq]
  exact readLinesLoop_progress free more

theorem readLinesFrom_nil (offset maxLines : ℕ) (budget : LineBudget) :
    readLinesFrom [] offset maxLines budget = {} := by
  rw [readLinesFrom, List.drop_nil]
  rfl

end Files

theorem refreshLastKnownSize_eq (fs : Fs) (tailer : LogTailer) :
    tailer.refreshLastKnownSize fs =
      { tailer with
        lastKnownSize := fs.logLen.getD tailer.lastKnownSize
        sizeObserved := tailer.sizeObserved || fs.logLen.isSome } := by
  rw [LogTailer.refreshLastKnownSize]
  cases fs.logLen with
  | none => simp
  | some len => simp

end Propolis
