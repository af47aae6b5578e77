import Mathlib.Data.List.Forall2
import Propolis.Tailer.Reading

/-!
# One batch over several files

A batch reads the files being drained, oldest first, and then the log itself.
`takens` are the lines it takes of each drain, `live` those of the log.  What a
batch records (`sourceSpans`, `lineLens`, `lossyRaws`) is that of the lines of
each source in turn, the log being the source behind the last drain.

`linesAhead` are the lines a tailer has still to read, in order: a batch takes
them from the front.
-/

namespace Propolis

open Bytes

/-- The drains once some lines of each have been read. -/
def advanced (drains : List (ℕ × ℕ)) (takens : List (List Bytes)) : List (ℕ × ℕ) :=
  List.zipWith (fun drain taken => (drain.1, drain.2 + (terminated taken).length)) drains takens

/-- The spans of the lines of each source, numbered from `source` on. -/
def sourceSpans : ℕ → List (List Bytes) → List (ℕ × ℕ)
  | _, [] => []
  | source, taken :: later =>
      (lineSpans 0 taken).map (fun bytes => (source, bytes)) ++ sourceSpans (source + 1) later

def lineLens (lines : List Bytes) : List ℕ :=
  (lines.filter Short).map fun line => line.length + 1

/-- The complete lines of a drained file behind its offset. -/
def drainAhead (fs : Fs) (drain : ℕ × ℕ) : List Bytes :=
  linesOf ((fs.data drain.1).drop drain.2)

section Lists

variable {drain : ℕ × ℕ} {drains : List (ℕ × ℕ)} {taken : List Bytes} {takens : List (List Bytes)}

theorem advanced_cons :
    advanced (drain :: drains) (taken :: takens) =
      (drain.1, drain.2 + (terminated taken).length) :: advanced drains takens := rfl

theorem advanced_replicate (drains : List (ℕ × ℕ)) :
    advanced drains (List.replicate drains.length []) = drains := by
  induction drains with
  | nil => rfl
  | cons drain later ih => simp [List.replicate_succ, advanced_cons, ih]

theorem sourceSpans_replicate (count source : ℕ) :
    sourceSpans source (List.replicate count []) = [] := by
  induction count generalizing source with
  | zero => rfl
  | succ count ih => simp [List.replicate_succ, sourceSpans, lineSpans, ih]

theorem sourceSpans_length (source : ℕ) (takens : List (List Bytes)) :
    (sourceSpans source takens).length = (texts takens.flatten).length := by
  induction takens generalizing source with
  | nil => rfl
  | cons taken later ih =>
      simp [sourceSpans, lineSpans_length, ih, texts_append]

theorem sourceSpans_append (source : ℕ) (front back : List (List Bytes)) :
    sourceSpans source (front ++ back) =
      sourceSpans source front ++ sourceSpans (source + front.length) back := by
  induction front generalizing source with
  | nil => rfl
  | cons taken later ih =>
      simp only [List.cons_append, sourceSpans, ih, List.length_cons, List.append_assoc]
      congr 3
      omega

theorem lossyRaws_append (index : ℕ) (front back : List Bytes) :
    lossyRaws index (front ++ back) =
      lossyRaws index front ++ lossyRaws (index + (texts front).length) back := by
  induction front generalizing index with
  | nil => simp [lossyRaws]
  | cons line rest ih =>
      by_cases short : Short line
      · have count : index + (texts (line :: rest)).length =
            index + 1 + (texts rest).length := by
          rw [texts_cons_of_short short, List.length_cons]
          omega
        rw [count]
        by_cases same : lossy line = line <;> simp [lossyRaws, short, same, ih]
      · simp [lossyRaws, short, ih, texts_cons_of_not_short short]

/-- Raw lines are numbered from where their file's lines begin in the batch. -/
theorem lossyRaws_shift (shift index : ℕ) (lines : List Bytes) :
    (lossyRaws index lines).map (fun raw => (shift + raw.1, raw.2)) =
      lossyRaws (shift + index) lines := by
  induction lines generalizing index with
  | nil => rfl
  | cons line rest ih =>
      by_cases short : Short line
      · by_cases same : lossy line = line <;> simp [lossyRaws, short, same, ih, Nat.add_assoc]
      · simp [lossyRaws, short, ih]

theorem lineLens_append (front back : List Bytes) :
    lineLens (front ++ back) = lineLens front ++ lineLens back := by
  simp [lineLens]

end Lists

/-- An uncommitted batch with more lines read into it: those of each source from `source` on,
numbered from `index` on. -/
def UncommittedRead.extended (uncommitted : UncommittedRead) (spans : List (ℕ × ℕ))
    (lines : List Bytes) : UncommittedRead :=
  { uncommitted with
    spans := uncommitted.spans ++ spans
    lens := uncommitted.lens ++ lineLens lines
    rawLossy := uncommitted.rawLossy ++ lossyRaws uncommitted.spans.length lines }

theorem recordRead_eq {content : Bytes} {offset maxLines : ℕ} {read : LineRead}
    {taken : List Bytes} (fileRead : FileRead content offset maxLines read taken)
    (uncommitted : UncommittedRead) (source : ℕ) :
    uncommitted.recordRead source read =
      uncommitted.extended ((lineSpans 0 taken).map fun bytes => (source, bytes)) taken := by
  simp [UncommittedRead.recordRead, UncommittedRead.extended, fileRead.spans,
    fileRead.lens, fileRead.raws, lossyRaws_shift, lineLens]

section Drains

variable {fs : Fs} {maxLines maxBytes : ℕ} {later : List (ℕ × ℕ)} {uncommitted : UncommittedRead}

/-- What the loop over the drains did: it read `exhausted` of them to their ends, perhaps some
lines of the next one, and nothing of the others. -/
structure DrainTook (fs : Fs) (maxLines : ℕ) (drains : List (ℕ × ℕ))
    (uncommitted : UncommittedRead) (progress : BatchProgress) (takens : List (List Bytes))
    (exhausted : ℕ) (result : List (ℕ × ℕ) × UncommittedRead × BatchProgress) : Prop where
  each : List.Forall₂ (fun drain taken => taken <+: drainAhead fs drain) drains takens
  counted : exhausted ≤ drains.length
  whole : takens.take exhausted = (drains.take exhausted).map (drainAhead fs)
  untouched : ∀ taken ∈ takens.drop (exhausted + 1), taken = []
  pending : result.1 = (advanced drains takens).drop exhausted
  recorded : result.2.1 =
    { uncommitted.extended (sourceSpans uncommitted.exhausted.length takens) takens.flatten with
      exhausted := uncommitted.exhausted ++ (drains.take exhausted).map Prod.fst }
  entries : result.2.2.entries = progress.entries ++ takens.flatten.map TailEntry.of
  lineCount : result.2.2.lineCount = progress.lineCount + (texts takens.flatten).length
  full : (maxLines ≤ result.2.2.lineCount ∨ result.2.2.budgetHit = true) ↔
    exhausted < drains.length
  begun : progress.lineCount = 0 → exhausted < drains.length → texts takens.flatten ≠ []

/-- A drain read to its end, and then the others. -/
theorem DrainTook.exhausted {drain : ℕ × ℕ}
    {progress taken : BatchProgress} {takens : List (List Bytes)} {exhausted : ℕ}
    {result : List (ℕ × ℕ) × UncommittedRead × BatchProgress}
    (others : DrainTook fs maxLines later
      { uncommitted.extended ((lineSpans 0 (drainAhead fs drain)).map
          fun bytes => (uncommitted.exhausted.length, bytes)) (drainAhead fs drain) with
        exhausted := uncommitted.exhausted ++ [drain.1] } taken takens exhausted result)
    (entries : taken.entries = progress.entries ++ (drainAhead fs drain).map TailEntry.of)
    (lineCount : taken.lineCount = progress.lineCount + (texts (drainAhead fs drain)).length) :
    DrainTook fs maxLines (drain :: later) uncommitted progress (drainAhead fs drain :: takens)
      (exhausted + 1) result := by
  refine ⟨.cons List.prefix_rfl others.each, ?_, ?_, others.untouched, others.pending, ?_, ?_, ?_,
    ?_, ?_⟩
  · exact Nat.succ_le_succ others.counted
  · simp [others.whole]
  · rw [others.recorded]
    simp [UncommittedRead.extended, sourceSpans, lineLens_append, lossyRaws_append,
      lineSpans_length]
  · rw [others.entries, entries]
    simp
  · rw [others.lineCount, List.flatten_cons, texts_append, List.length_append]
    omega
  · rw [others.full, List.length_cons]
    omega
  · intro none early
    rw [List.flatten_cons, texts_append]
    by_cases front : texts (drainAhead fs drain) = []
    · rw [front]
      apply others.begun
      · rw [lineCount, front, none]
        rfl
      · exact Nat.lt_of_succ_lt_succ early
    · simp [front]

/-- A drain the batch stopped in. -/
theorem DrainTook.stopped {drain : ℕ × ℕ} {progress after : BatchProgress} {taken : List Bytes}
    (ahead : taken <+: drainAhead fs drain)
    (entries : after.entries = progress.entries ++ taken.map TailEntry.of)
    (lineCount : after.lineCount = progress.lineCount + (texts taken).length)
    (full : maxLines ≤ after.lineCount ∨ after.budgetHit = true)
    (moved : progress.lineCount = 0 → texts taken ≠ []) :
    DrainTook fs maxLines (drain :: later) uncommitted progress
      (taken :: List.replicate later.length []) 0
      ((drain.1, drain.2 + (terminated taken).length) :: later,
        uncommitted.extended ((lineSpans 0 taken).map
          fun bytes => (uncommitted.exhausted.length, bytes)) taken, after) := by
  have each : List.Forall₂ (fun drain taken => taken <+: drainAhead fs drain) later
      (List.replicate later.length []) := by
    induction later with
    | nil => exact .nil
    | cons next others ih => exact .cons List.nil_prefix ih
  refine ⟨.cons ahead each, Nat.zero_le _, rfl, ?_, ?_, ?_, ?_, ?_, ?_, ?_⟩
  · intro other member
    exact List.eq_of_mem_replicate member
  · rw [List.drop_zero, advanced_cons, advanced_replicate]
  · simp [UncommittedRead.extended, sourceSpans, sourceSpans_replicate]
  · simp [entries]
  · simp [lineCount]
  · simp [full]
  · intro none _
    simpa using moved none

theorem drainLoop_took (drains : List (ℕ × ℕ)) (uncommitted : UncommittedRead)
    {progress : BatchProgress} (room : ¬(maxLines ≤ progress.lineCount ∨ progress.budgetHit)) :
    ∃ takens exhausted, DrainTook fs maxLines drains uncommitted progress takens exhausted
      (LogTailer.drainLoop fs maxLines maxBytes drains uncommitted progress) := by
  induction drains generalizing uncommitted progress with
  | nil =>
      refine ⟨[], 0, .nil, le_rfl, rfl, ?_, rfl, ?_, ?_, rfl, ?_, ?_⟩
      · intro taken member
        exact absurd member List.not_mem_nil
      · simp [LogTailer.drainLoop, sourceSpans, UncommittedRead.extended, lineLens, lossyRaws]
      · simp [LogTailer.drainLoop]
      · simpa [LogTailer.drainLoop] using room
      · intro _ early
        exact absurd early (Nat.lt_irrefl 0)
  | cons drain later ih =>
      rcases readLinesFrom_fileRead (fs.data drain.1) drain.2 (maxLines - progress.lineCount)
        ⟨maxBytes - progress.bytesTaken, progress.lineCount = 0⟩ with ⟨taken, took⟩
      have first := fun none : progress.lineCount = 0 =>
        fun hit => readLinesFrom_progress took (decide_eq_true none) (.inr hit)
      rw [LogTailer.drainLoop, if_neg room]
      dsimp only
      generalize readLinesFrom (fs.data drain.1) drain.2 (maxLines - progress.lineCount)
        ⟨maxBytes - progress.bytesTaken, progress.lineCount = 0⟩ = read at took first
      have counted := countLines_of_entries taken
      rw [← took.entries] at counted
      simp only [recordRead_eq took, counted]
      by_cases more : (texts taken).length < maxLines - progress.lineCount ∧
          ¬read.budgetHit = true
      · rw [if_pos more]
        have all : taken = drainAhead fs drain := by
          rcases took.stopped with enough | hit | all
          · omega
          · exact absurd hit more.2
          · exact all
        subst all
        have left : ¬(maxLines ≤ progress.lineCount + (texts (drainAhead fs drain)).length ∨
            read.budgetHit = true) := by
          rintro (full | hit)
          · omega
          · exact more.2 hit
        rcases @ih _ ⟨progress.entries ++ read.entries, _, progress.bytesTaken + read.lineBytes,
          read.budgetHit⟩ left with ⟨takens, exhausted, others⟩
        refine ⟨_, _, others.exhausted ?_ rfl⟩
        rw [took.entries]
      · rw [if_neg more, took.consumed]
        have full : maxLines ≤ progress.lineCount + (texts taken).length ∨
            read.budgetHit = true := by
          by_cases hit : read.budgetHit = true
          · exact Or.inr hit
          · have enough : ¬(texts taken).length < maxLines - progress.lineCount :=
              fun few => more ⟨few, hit⟩
            exact Or.inl (by omega)
        refine ⟨_, _, DrainTook.stopped took.ahead ?_ rfl full ?_⟩
        · rw [took.entries]
        · intro none
          by_cases hit : read.budgetHit = true
          · exact first none hit
          · intro nothing
            apply more
            rw [nothing]
            refine ⟨?_, hit⟩
            simp only [List.length_nil]
            omega

end Drains

section Reads

variable {hash : Bytes → Digest} {look : Look → Fs} {maxLines maxBytes : ℕ} {tailer : LogTailer}

/-- What a call finds in the log it opens. -/
def liveContent (look : Look → Fs) : Bytes :=
  match (look .openLog).log with
  | none => []
  | some inode => (look .readLog).data inode

/-- The lines ahead of a tailer: those of the drains, then those of the log. -/
def linesAhead (look : Look → Fs) (tailer : LogTailer) : List Bytes :=
  (tailer.pendingDrains.map (drainAhead (look .drain))).flatten ++
    linesOf ((liveContent look).drop tailer.state.offset)

/-- What a batch took from the tailer behind `handle_rotation`, and what it recorded. -/
structure BatchRead (look : Look → Fs) (start : LogTailer) (takens : List (List Bytes))
    (exhausted : ℕ) (live : List Bytes) (result : List TailEntry × LogTailer) : Prop where
  each : List.Forall₂ (fun drain taken => taken <+: drainAhead (look .drain) drain)
    start.pendingDrains takens
  counted : exhausted ≤ start.pendingDrains.length
  whole : takens.take exhausted =
    (start.pendingDrains.take exhausted).map (drainAhead (look .drain))
  untouched : ∀ taken ∈ takens.drop (exhausted + 1), taken = []
  ahead : live <+: linesOf ((liveContent look).drop start.state.offset)
  drained : exhausted < start.pendingDrains.length → live = []
  entries : result.1 = (takens.flatten ++ live).map TailEntry.of
  pending : result.2.pendingDrains = (advanced start.pendingDrains takens).drop exhausted
  state : result.2.state =
    { start.state with offset := start.state.offset + (terminated live).length }
  recorded : result.2.uncommitted = some
    { start.snapshot.extended (sourceSpans start.snapshot.exhausted.length takens ++
        (lineSpans 0 live).map fun bytes => (start.snapshot.snapshotDrains, bytes))
        (takens.flatten ++ live) with
      exhausted := start.snapshot.exhausted ++
        (start.pendingDrains.take exhausted).map Prod.fst }
  resumes : result.2.resumes = start.resumes
  file : result.2.file = if exhausted < start.pendingDrains.length then start.file
    else (look .openLog).log <|> start.file
  moved : texts (linesAhead look start) ≠ [] → texts (takens.flatten ++ live) ≠ []

theorem readEntries_batchRead (some : 0 < maxLines) :
    ∃ takens exhausted live, BatchRead look (tailer.handleRotation hash look) takens exhausted live
      (tailer.readEntries hash maxLines maxBytes look) := by
  rw [LogTailer.readEntries, if_neg (Nat.pos_iff_ne_zero.mp some)]
  generalize tailer.handleRotation hash look = start
  rcases @drainLoop_took (look .drain) maxLines maxBytes start.pendingDrains start.snapshot {}
    (by simpa using Nat.pos_iff_ne_zero.mp some) with ⟨takens, exhausted, took⟩
  dsimp only
  generalize LogTailer.drainLoop (look .drain) maxLines maxBytes start.pendingDrains
    start.snapshot {} = drained at took
  rcases drained with ⟨pending, uncommitted, progress⟩
  have pendingEq := took.pending
  have recordedEq := took.recorded
  have entriesEq := took.entries
  dsimp only at recordedEq
  by_cases full : maxLines ≤ progress.lineCount ∨ progress.budgetHit = true
  · have early := took.full.mp full
    rw [if_pos full, refreshLastKnownSize_eq]
    refine ⟨takens, exhausted, [], took.each, took.counted, took.whole, took.untouched,
      List.nil_prefix, fun _ => rfl, ?_, pendingEq, ?_, ?_, rfl, ?_, ?_⟩
    · simpa using entriesEq
    · rfl
    · simp [recordedEq, lineSpans]
    · rw [if_pos early]
    · intro _
      simpa using took.begun rfl early
  · have last : exhausted = start.pendingDrains.length :=
      Nat.le_antisymm took.counted (Nat.not_lt.mp fun early => full (took.full.mpr early))
    have all : takens = start.pendingDrains.map (drainAhead (look .drain)) := by
      have whole := took.whole
      rwa [last, List.take_length, took.each.length_eq, List.take_length] at whole
    rw [if_neg full]
    cases opened : (look .openLog).log with
    | none =>
        have nothing : liveContent look = [] := by simp [liveContent, opened]
        refine ⟨takens, exhausted, [], took.each, took.counted, took.whole, took.untouched,
          List.nil_prefix, fun _ => rfl, ?_, pendingEq, ?_, ?_, rfl, ?_, ?_⟩
        · simpa using entriesEq
        · rfl
        · simp [recordedEq, lineSpans]
        · simp [opened]
        · intro ahead
          simpa [linesAhead, nothing, linesOf, splitLines, ← all] using ahead
    | some inode =>
        have content : liveContent look = (look .readLog).data inode := by
          simp [liveContent, opened]
        rcases readLinesFrom_fileRead ((look .readLog).data inode) start.state.offset
          (maxLines - progress.lineCount)
          ⟨maxBytes - progress.bytesTaken, progress.lineCount = 0⟩ with ⟨live, fileRead⟩
        have first := fun none : progress.lineCount = 0 => fun ahead =>
          readLinesFrom_progress fileRead (decide_eq_true none) (.inl ⟨by omega, ahead⟩)
        dsimp only
        rw [refreshLastKnownSize_eq]
        refine ⟨takens, exhausted, live, took.each, took.counted, took.whole, took.untouched,
          ?_, ?_, ?_, pendingEq, ?_, ?_, rfl, ?_, ?_⟩
        · rw [content]
          exact fileRead.ahead
        · intro early
          omega
        · rw [entriesEq, fileRead.entries]
          simp
        · rw [fileRead.consumed]
        · rw [recordRead_eq fileRead, recordedEq]
          simp [UncommittedRead.extended, lineLens_append, lossyRaws_append, sourceSpans_length]
        · simp [last, opened]
        · intro ahead
          have lineCount := took.lineCount
          rw [linesAhead, ← all, content, texts_append] at ahead
          rw [texts_append]
          by_cases none : texts takens.flatten = []
          · rw [none] at ahead ⊢
            apply first
            · rw [lineCount, none]
              rfl
            · exact ahead
          · simp [none]

end Reads

end Propolis
