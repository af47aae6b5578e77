import Propolis.Tailer.Batch

/-!
# Where a batch leaves the tailer

A rewind puts every position back to where the batch began.  Committing a batch
through some of its lines moves every position over its own lines among them
(`uptoLines`), by the spans recorded when they were read.  `batchPlaces` are the
lines of a batch with where each begins in its file, which is what
`uncommitted_line` says of them.
-/

namespace Propolis

open Bytes

variable {tailer start : LogTailer} {α : Type} {source : ℕ} {look : Look → Fs}
  {takens : List (List Bytes)} {exhausted : ℕ} {live : List Bytes}
  {result : List TailEntry × LogTailer} {offsets : List ℕ} {first : ℕ}

section Rewinding

variable {uncommitted : UncommittedRead}

theorem zip_append_drop {β : Type} (front back : List α) (others : List β) :
    (front ++ back).zip others = front.zip others ++ back.zip (others.drop front.length) := by
  induction front generalizing others with
  | nil => simp
  | cons first rest ih => cases others <;> simp [ih]

/-- Every slot of the batch has the offset it goes back to. -/
def Aligned (uncommitted : UncommittedRead) (drains : List (ℕ × ℕ)) : Prop :=
  uncommitted.drainOffsets.length = uncommitted.exhausted.length + drains.length

/-- The drains a rewind restores. -/
def rewoundDrains (uncommitted : UncommittedRead) (drains : List (ℕ × ℕ)) : List (ℕ × ℕ) :=
  (uncommitted.exhausted ++ drains.map Prod.fst).zip uncommitted.drainOffsets

theorem rewindBatch_eq (batch : tailer.uncommitted = some uncommitted)
    (aligned : Aligned uncommitted tailer.pendingDrains) :
    tailer.rewindBatch =
      { tailer with
        uncommitted := none
        pendingDrains := rewoundDrains uncommitted tailer.pendingDrains
        state := { tailer.state with offset := uncommitted.offset } } := by
  have slots : (tailer.pendingDrains.zip
      (uncommitted.drainOffsets.drop uncommitted.exhausted.length)).map
        (fun slot => (slot.1.1, slot.2)) =
      (tailer.pendingDrains.map Prod.fst).zip
        (uncommitted.drainOffsets.drop uncommitted.exhausted.length) := by
    rw [List.zip_map_left]
    rfl
  have all : tailer.pendingDrains.length ≤ ((tailer.pendingDrains.map Prod.fst).zip
      (uncommitted.drainOffsets.drop uncommitted.exhausted.length)).length := by
    rw [Aligned] at aligned
    rw [List.length_zip, List.length_map, List.length_drop]
    omega
  simp only [LogTailer.rewindBatch, batch, slots, List.drop_eq_nil_of_le all, List.append_nil,
    rewoundDrains, zip_append_drop]

end Rewinding

section Advancing

variable {snapshotDrains : ℕ}

/-- Of each source, the lines up to the `count`-th short one of them all. -/
def uptoLines : ℕ → List (List Bytes) → List (List Bytes)
  | _, [] => []
  | count, taken :: later =>
      uptoLine (min count (texts taken).length) taken ::
        uptoLines (count - (texts taken).length) later

theorem lineSpans_take_sum (count : ℕ) (lines : List Bytes) :
    ((lineSpans 0 lines).take count).sum =
      (terminated (uptoLine (min count (texts lines).length) lines)).length := by
  have cut : (lineSpans 0 lines).take count =
      (lineSpans 0 lines).take (min count (texts lines).length) := by
    rw [← lineSpans_length 0 lines]
    simp
  rw [cut]
  by_cases none : min count (texts lines).length = 0
  · simp [none, uptoLine]
  · rw [lineSpans_sum (Nat.pos_of_ne_zero none) (Nat.min_le_right _ _), Nat.zero_add]

theorem advanceSpans_append (front back : List (ℕ × ℕ)) :
    tailer.advanceSpans snapshotDrains (front ++ back) =
      (tailer.advanceSpans snapshotDrains front).advanceSpans snapshotDrains back :=
  List.foldl_append

theorem advanceSpans_cons (span : ℕ × ℕ) (rest : List (ℕ × ℕ)) :
    tailer.advanceSpans snapshotDrains (span :: rest) =
      (if span.1 < snapshotDrains then
        { tailer with
          pendingDrains := tailer.pendingDrains.modify span.1 fun drain =>
            (drain.1, drain.2 + span.2) }
      else
        { tailer with
          state := { tailer.state with
            offset := tailer.state.offset + span.2 } }).advanceSpans snapshotDrains rest := rfl

theorem advanceSpans_drain (drain : source < snapshotDrains) (spans : List ℕ) :
    tailer.advanceSpans snapshotDrains (spans.map fun bytes => (source, bytes)) =
      { tailer with
        pendingDrains := tailer.pendingDrains.modify source fun slot =>
          (slot.1, slot.2 + spans.sum) } := by
  induction spans generalizing tailer with
  | nil =>
      have same : (fun slot : ℕ × ℕ => (slot.1, slot.2 + ([] : List ℕ).sum)) = id := rfl
      rw [same, List.modify_id]
      rfl
  | cons bytes rest ih =>
      rw [List.map_cons, advanceSpans_cons, if_pos drain, ih, List.modify_modify_eq]
      simp [Function.comp_def, Nat.add_assoc]

theorem advanceSpans_live (live : snapshotDrains ≤ source) (spans : List ℕ) :
    tailer.advanceSpans snapshotDrains (spans.map fun bytes => (source, bytes)) =
      { tailer with
        state := { tailer.state with offset := tailer.state.offset + spans.sum } } := by
  induction spans generalizing tailer with
  | nil => rfl
  | cons bytes rest ih =>
      rw [List.map_cons, advanceSpans_cons, if_neg (Nat.not_lt.mpr live), ih]
      simp [Nat.add_assoc]

theorem modify_behind (front : List α) (first : α) (rest : List α) (change : α → α) :
    (front ++ first :: rest).modify front.length change = front ++ change first :: rest := by
  simp [List.modify_eq_take_cons_drop]

/-- Moving over the first spans moves every drain over its lines among them. -/
theorem advanceSpans_drains {front drains : List (ℕ × ℕ)}
    (slots : tailer.pendingDrains = front ++ drains) (paired : drains.length = takens.length)
    (inside : front.length + drains.length ≤ snapshotDrains) (count : ℕ) :
    tailer.advanceSpans snapshotDrains ((sourceSpans front.length takens).take count) =
      { tailer with pendingDrains := front ++ advanced drains (uptoLines count takens) } := by
  induction takens generalizing tailer front drains count with
  | nil =>
      have none : drains = [] := List.length_eq_zero_iff.mp paired
      subst none
      simp [sourceSpans, LogTailer.advanceSpans, advanced, ← slots]
  | cons taken later ih =>
      cases drains with
      | nil => simp at paired
      | cons drain others =>
          have here : front.length < snapshotDrains := by
            rw [List.length_cons] at inside
            omega
          have next := @ih { tailer with pendingDrains := front ++
              [(drain.1, drain.2 + ((lineSpans 0 taken).take count).sum)] ++ others }
            (front ++ [(drain.1, drain.2 + ((lineSpans 0 taken).take count).sum)]) others rfl
            (Nat.succ.inj paired) (by simpa [Nat.add_comm, Nat.add_left_comm] using inside)
            (count - (texts taken).length)
          rw [sourceSpans, List.take_append, advanceSpans_append, ← List.map_take,
            advanceSpans_drain here, slots, List.length_map, lineSpans_length]
          rw [modify_behind]
          simp only [List.append_assoc, List.cons_append, List.nil_append, List.length_append,
            List.length_cons, List.length_nil] at next
          rw [next, uptoLines, advanced_cons, lineSpans_take_sum]

end Advancing

section Committing

variable {hash : Bytes → Digest} {later : Look → Fs}

theorem snapshot_of_fresh (fresh : start.uncommitted = none) :
    start.snapshot =
      { offset := start.state.offset
        drainOffsets := start.pendingDrains.map Prod.snd
        snapshotDrains := start.pendingDrains.length } := by
  simp [LogTailer.snapshot, fresh]

theorem advanced_map_fst {drains : List (ℕ × ℕ)} (paired : drains.length = takens.length) :
    (advanced drains takens).map Prod.fst = drains.map Prod.fst := by
  induction drains generalizing takens with
  | nil => rfl
  | cons drain others ih =>
      cases takens with
      | nil => simp at paired
      | cons => simp [advanced_cons, ih (Nat.succ.inj paired)]

theorem BatchRead.paired (read : BatchRead look start takens exhausted live result) :
    start.pendingDrains.length = takens.length :=
  read.each.length_eq

/-- The drains a batch took from are still those it began with. -/
theorem BatchRead.slots (read : BatchRead look start takens exhausted live result) :
    (start.pendingDrains.take exhausted).map Prod.fst ++ result.2.pendingDrains.map Prod.fst =
      start.pendingDrains.map Prod.fst := by
  rw [read.pending, List.map_drop, advanced_map_fst read.paired, List.map_take,
    List.take_append_drop]

theorem zip_fst_snd (drains : List (ℕ × ℕ)) :
    (drains.map Prod.fst).zip (drains.map Prod.snd) = drains :=
  (List.zip_of_prod rfl rfl).symm

/-- Rewinding a batch that began with this call undoes it. -/
theorem BatchRead.rewind (read : BatchRead look start takens exhausted live result)
    (fresh : start.uncommitted = none) :
    result.2.rewindBatch =
      { result.2 with
        uncommitted := none, pendingDrains := start.pendingDrains, state := start.state } := by
  have slots := read.slots
  have aligned := congrArg List.length slots
  rw [rewindBatch_eq read.recorded]
  · simp only [rewoundDrains, UncommittedRead.extended, snapshot_of_fresh fresh, List.nil_append,
      slots, zip_fst_snd, read.state]
  · simp only [Aligned, UncommittedRead.extended, snapshot_of_fresh fresh]
    simpa using aligned.symm

/-- The tailer with its positions moved over the first `count` lines of a batch. -/
def movedThrough (count : ℕ) (takens : List (List Bytes)) (live : List Bytes)
    (start after : LogTailer) : LogTailer :=
  { after with
    uncommitted := none
    pendingDrains := advanced start.pendingDrains (uptoLines count takens)
    state := { start.state with
      offset := start.state.offset + (terminated (uptoLine
        (min (count - (texts takens.flatten).length) (texts live).length) live)).length } }

variable (read : BatchRead look start takens exhausted live result)
  (fresh : start.uncommitted = none)
include read fresh

theorem BatchRead.advance (count : ℕ) :
    result.2.rewindBatch.advanceSpans start.pendingDrains.length
        ((sourceSpans 0 takens ++ (lineSpans 0 live).map fun bytes =>
          (start.pendingDrains.length, bytes)).take count) =
      movedThrough count takens live start result.2 := by
  have drains := @advanceSpans_drains result.2.rewindBatch takens start.pendingDrains.length []
    start.pendingDrains (by rw [read.rewind fresh]; rfl) read.paired (by simp) count
  rw [List.length_nil] at drains
  rw [List.take_append, advanceSpans_append, drains, ← List.map_take,
    advanceSpans_live le_rfl, lineSpans_take_sum, sourceSpans_length, read.rewind fresh]
  rfl

/-- Committing a batch through its first `count` lines either refuses or moves each position over
its lines among them, from where the batch began. -/
theorem BatchRead.commitThrough (hash : Bytes → Digest) (count : ℕ) (later : Look → Fs) :
    result.2.commitBatchThrough hash count later = (false, result.2) ∨
      result.2.commitBatchThrough hash count later =
        (true, movedThrough count takens live start result.2) := by
  have moved := read.advance fresh count
  simp only [LogTailer.commitBatchThrough, read.recorded, UncommittedRead.extended,
    snapshot_of_fresh fresh, List.nil_append, List.length_nil]
  rw [moved]
  split
  · exact Or.inl rfl
  · exact ite_eq_or_eq _ _ _

/-- It does not refuse while the log is not found truncated or replaced. -/
theorem BatchRead.commitThrough_of_unchanged {count : ℕ}
    (inside : count ≤ (texts (takens.flatten ++ live)).length)
    (unchanged : detectRotation hash (later .stat) (later .head) result.2.state = .none ∨
      detectRotation hash (later .stat) (later .head) result.2.state = .inodeChanged ∨
      detectRotation hash (later .stat) (later .head) result.2.state = .replaced ∧
        result.2.maybeFalsePositiveReplaced (later .grown) = true) :
    result.2.commitBatchThrough hash count later =
      (true, movedThrough count takens live start result.2) := by
  have moved := read.advance fresh count
  have total : (sourceSpans 0 takens ++ (lineSpans 0 live).map fun bytes =>
      (start.pendingDrains.length, bytes)).length = (texts (takens.flatten ++ live)).length := by
    rw [List.length_append, List.length_map, sourceSpans_length, lineSpans_length, texts_append,
      List.length_append]
  simp only [LogTailer.commitBatchThrough, read.recorded, UncommittedRead.extended,
    snapshot_of_fresh fresh, List.nil_append, List.length_nil]
  rw [moved, if_neg]
  · rcases unchanged with event | event | ⟨event, grown⟩
    · simp [event]
    · simp [event]
    · simp [event, grown]
  · simp only [not_true_eq_false, false_or]
    omega

end Committing

section Places

variable {lines : List Bytes} {place : ℕ × Bytes}

/-- The short lines of a file from `start` on, each with where it begins. -/
def linePlaces : ℕ → List Bytes → List (ℕ × Bytes)
  | _, [] => []
  | start, line :: rest =>
      if Short line then (start, line) :: linePlaces (start + (line.length + 1)) rest
      else linePlaces (start + (line.length + 1)) rest

/-- The short lines of several files, each read from its own offset. -/
def sourcePlaces : List ℕ → List (List Bytes) → List (ℕ × Bytes)
  | offset :: offsets, taken :: later => linePlaces offset taken ++ sourcePlaces offsets later
  | _, _ => []

theorem linePlaces_map_snd (start : ℕ) (lines : List Bytes) :
    (linePlaces start lines).map Prod.snd = lines.filter Short := by
  induction lines generalizing start with
  | nil => rfl
  | cons line rest ih =>
      by_cases short : Short line <;> simp [linePlaces, short, ih]

theorem linePlaces_texts (start : ℕ) (lines : List Bytes) :
    (linePlaces start lines).map (fun place => lossy place.2) = texts lines := by
  rw [texts, ← linePlaces_map_snd start, List.map_map]
  rfl

theorem linePlaces_append (start : ℕ) (front back : List Bytes) :
    linePlaces start (front ++ back) =
      linePlaces start front ++ linePlaces (start + (terminated front).length) back := by
  induction front generalizing start with
  | nil => rfl
  | cons line rest ih =>
      rw [List.cons_append, linePlaces, linePlaces, ih, terminated_cons_length, Nat.add_assoc start]
      split <;> rfl

theorem linePlaces_uptoLine (start count : ℕ) (lines : List Bytes) :
    linePlaces start (uptoLine count lines) = (linePlaces start lines).take count := by
  induction lines generalizing start count with
  | nil => cases count <;> simp [uptoLine, linePlaces]
  | cons line rest ih =>
      cases count with
      | zero => simp [uptoLine, linePlaces]
      | succ count =>
          by_cases short : Short line
          · rw [uptoLine, if_pos short, linePlaces, if_pos short, linePlaces, if_pos short, ih,
              List.take_succ_cons]
          · rw [uptoLine, if_neg short, linePlaces, if_neg short, linePlaces, if_neg short, ih]

theorem linePlaces_length (start : ℕ) (lines : List Bytes) :
    (linePlaces start lines).length = (texts lines).length := by
  rw [← linePlaces_texts start, List.length_map]

theorem linePlaces_bounds {start : ℕ} (member : place ∈ linePlaces start lines) :
    start ≤ place.1 ∧ place.1 < start + (terminated lines).length := by
  induction lines generalizing start with
  | nil => exact absurd member List.not_mem_nil
  | cons line rest ih =>
      have reach := terminated_cons_length line rest
      rw [linePlaces] at member
      have later : place ∈ linePlaces (start + (line.length + 1)) rest →
          start ≤ place.1 ∧ place.1 < start + (terminated (line :: rest)).length := by
        intro behind
        have bounds := ih behind
        omega
      split at member
      · rcases List.mem_cons.mp member with rfl | behind
        · omega
        · exact later behind
      · exact later member

theorem linePlaces_ordered (start : ℕ) (lines : List Bytes) :
    (linePlaces start lines).Pairwise fun first second => first.1 < second.1 := by
  induction lines generalizing start with
  | nil => exact .nil
  | cons line rest ih =>
      rw [linePlaces]
      split
      · refine .cons ?_ (ih _)
        intro place member
        have bounds := linePlaces_bounds member
        omega
      · exact ih _

theorem sourcePlaces_map_snd (paired : offsets.length = takens.length) :
    (sourcePlaces offsets takens).map Prod.snd = takens.flatten.filter Short := by
  induction takens generalizing offsets with
  | nil => cases offsets <;> rfl
  | cons taken later ih =>
      cases offsets with
      | nil => simp at paired
      | cons =>
          rw [sourcePlaces, List.map_append, linePlaces_map_snd, ih (Nat.succ.inj paired),
            List.flatten_cons, List.filter_append]

theorem sourcePlaces_texts (paired : offsets.length = takens.length) :
    (sourcePlaces offsets takens).map (fun place => lossy place.2) = texts takens.flatten := by
  rw [texts, ← sourcePlaces_map_snd paired, List.map_map]
  rfl

/-- What the first `count` lines of several files are, file by file. -/
theorem sourcePlaces_uptoLines (count : ℕ) (offsets : List ℕ) (takens : List (List Bytes)) :
    sourcePlaces offsets (uptoLines count takens) = (sourcePlaces offsets takens).take count := by
  induction takens generalizing offsets count with
  | nil => cases offsets <;> simp [uptoLines, sourcePlaces]
  | cons taken later ih =>
      cases offsets with
      | nil => simp [sourcePlaces]
      | cons offset offsets =>
          rw [uptoLines, sourcePlaces, sourcePlaces, ih, linePlaces_uptoLine, List.take_append]
          rw [← linePlaces_length offset taken]
          simp

/-- Where a line of one file begins, from the spans recorded before it and its own length. -/
theorem linePlaces_of_spans {start discarded index : ℕ}
    (found : (linePlaces start lines)[index]? = some place) :
    ∃ span, (lineSpans discarded lines)[index]? = some span ∧
      (lineLens lines)[index]? = some (place.2.length + 1) ∧
      start + ((lineSpans discarded lines).take index).sum + (span - (place.2.length + 1)) =
        place.1 + discarded := by
  induction lines generalizing start discarded index with
  | nil => simp [linePlaces] at found
  | cons line rest ih =>
      by_cases short : Short line
      · rw [linePlaces, if_pos short] at found
        rw [lineSpans, if_pos short]
        cases index with
        | zero =>
            simp only [List.getElem?_cons_zero, Option.some.injEq] at found
            subst found
            refine ⟨_, rfl, ?_, ?_⟩
            · simp [lineLens, short]
            · simp
        | succ index =>
            rcases @ih (start + (line.length + 1)) 0 index found with ⟨span, here, len, begins⟩
            refine ⟨span, here, ?_, ?_⟩
            · simpa [lineLens, short] using len
            · rw [List.take_succ_cons, List.sum_cons]
              omega
      · rw [linePlaces, if_neg short] at found
        rw [lineSpans, if_neg short]
        rcases @ih (start + (line.length + 1)) (discarded + (line.length + 1)) index found with
          ⟨span, here, len, begins⟩
        refine ⟨span, here, ?_, ?_⟩
        · simpa [lineLens, short] using len
        · omega

/-- The spans of one source recorded before a line of it. -/
def spansBefore (spans : List (ℕ × ℕ)) (index source : ℕ) : ℕ :=
  (((spans.take index).filter (·.1 = source)).map Prod.snd).sum

theorem spansBefore_append {front back : List (ℕ × ℕ)} {index : ℕ}
    (others : ∀ span ∈ front, span.1 ≠ source) (behind : front.length ≤ index) :
    spansBefore (front ++ back) index source =
      spansBefore back (index - front.length) source := by
  have none : front.filter (·.1 = source) = [] := by
    apply List.filter_eq_nil_iff.mpr
    intro span member
    simpa using others span member
  rw [spansBefore, List.take_append, List.take_of_length_le behind, List.filter_append, none,
    List.nil_append, spansBefore]

/-- Where a line of a batch begins. -/
theorem sourcePlaces_of_spans {index : ℕ}
    (found : (sourcePlaces offsets takens)[index]? = some place) :
    ∃ source span base, (sourceSpans first takens)[index]? = some (first + source, span) ∧
      (lineLens takens.flatten)[index]? = some (place.2.length + 1) ∧
      offsets[source]? = some base ∧
      base + spansBefore (sourceSpans first takens) index (first + source) +
        (span - (place.2.length + 1)) = place.1 := by
  induction takens generalizing offsets first index with
  | nil => cases offsets <;> simp [sourcePlaces] at found
  | cons taken later ih =>
      cases offsets with
      | nil => simp [sourcePlaces] at found
      | cons offset offsets =>
          have mine : ((lineSpans 0 taken).map fun bytes => (first, bytes)).length =
              (linePlaces offset taken).length := by
            rw [List.length_map, lineSpans_length, linePlaces_length]
          have lens : (lineLens taken).length = (linePlaces offset taken).length := by
            rw [linePlaces_length, lineLens, texts, List.length_map, List.length_map]
          rw [sourcePlaces] at found
          rw [sourceSpans, List.flatten_cons, lineLens_append]
          by_cases here : index < (linePlaces offset taken).length
          · rw [List.getElem?_append_left here] at found
            rcases linePlaces_of_spans found with ⟨span, this, len, begins⟩
            refine ⟨0, span, offset, ?_, ?_, rfl, ?_⟩
            · rw [List.getElem?_append_left (by rwa [mine]), List.getElem?_map, this]
              rfl
            · rw [List.getElem?_append_left (by rwa [lens])]
              exact len
            · rw [spansBefore, List.take_append_of_le_length (by omega), ← List.map_take,
                List.filter_eq_self.mpr]
              · simpa [Function.comp_def] using begins
              · intro span member
                rcases List.mem_map.mp member with ⟨bytes, -, rfl⟩
                simp
          · rw [List.getElem?_append_right (Nat.not_lt.mp here)] at found
            rcases @ih offsets (first + 1) _ found with ⟨source, span, base, this, len, own, begins⟩
            refine ⟨source + 1, span, base, ?_, ?_, own, ?_⟩
            · rw [List.getElem?_append_right (by omega), mine, this]
              simp only [Option.some.injEq, Prod.mk.injEq, and_true]
              omega
            · rw [List.getElem?_append_right (by omega), lens]
              exact len
            · rw [spansBefore_append, mine, ← begins]
              · congr 3
                omega
              · intro other member
                rcases List.mem_map.mp member with ⟨bytes, -, rfl⟩
                omega
              · omega

theorem le_of_mem_lossyRaws {raw : ℕ × Bytes} (member : raw ∈ lossyRaws first lines) :
    first ≤ raw.1 := by
  induction lines generalizing first with
  | nil => exact absurd member List.not_mem_nil
  | cons line rest ih =>
      rw [lossyRaws] at member
      split at member
      · split at member
        · exact (Nat.le_succ first).trans (ih member)
        · rcases List.mem_cons.mp member with rfl | later
          · exact le_rfl
          · exact (Nat.le_succ first).trans (ih later)
      · exact ih member

/-- The bytes kept for a line that is not text. -/
theorem lossyRaws_find {index : ℕ} {line : Bytes}
    (found : (lines.filter Short)[index]? = some line) :
    (lossyRaws first lines).find? (·.1 = first + index) =
      if lossy line = line then none else some (first + index, line) := by
  induction lines generalizing first index with
  | nil => simp at found
  | cons other rest ih =>
      by_cases short : Short other
      · simp only [List.filter_cons, decide_eq_true short, if_true] at found
        rw [lossyRaws, if_pos short]
        cases index with
        | zero =>
            simp only [List.getElem?_cons_zero, Option.some.injEq] at found
            subst found
            by_cases same : lossy other = other
            · rw [if_pos same, if_pos same, List.find?_eq_none]
              intro raw member
              have behind := le_of_mem_lossyRaws member
              simp only [decide_eq_true_eq]
              omega
            · rw [if_neg same, if_neg same]
              simp
        | succ index =>
            have number : first + (index + 1) = first + 1 + index := by omega
            rw [number]
            by_cases same : lossy other = other
            · rw [if_pos same]
              exact ih found
            · rw [if_neg same, List.find?_cons_of_neg]
              · exact ih found
              · simp only [decide_eq_true_eq]
                omega
      · simp only [List.filter_cons, decide_eq_false short] at found
        rw [lossyRaws, if_neg short]
        exact ih found

end Places

section Locating

/-- The lines of a batch, each with where it begins in its file. -/
def batchPlaces (start : LogTailer) (takens : List (List Bytes)) (live : List Bytes) :
    List (ℕ × Bytes) :=
  sourcePlaces (start.pendingDrains.map Prod.snd ++ [start.state.offset]) (takens ++ [live])

variable (read : BatchRead look start takens exhausted live result)
include read

theorem BatchRead.offsets_paired :
    (start.pendingDrains.map Prod.snd ++ [start.state.offset]).length =
      (takens ++ [live]).length := by
  simp [read.paired]

theorem BatchRead.texts_places :
    result.1.filterMap TailEntry.text =
      (batchPlaces start takens live).map fun place => lossy place.2 := by
  rw [read.entries, texts_of_entries, batchPlaces, sourcePlaces_texts read.offsets_paired]
  simp

/-- The tailer knows where each line of its batch begins, and what its bytes were. -/
theorem BatchRead.uncommittedLine (fresh : start.uncommitted = none) {index : ℕ} {place : ℕ × Bytes}
    (found : (batchPlaces start takens live)[index]? = some place) :
    result.2.uncommittedLine index =
      some (place.1, if lossy place.2 = place.2 then none else some place.2) := by
  have spansEq : sourceSpans 0 takens ++ (lineSpans 0 live).map
      (fun bytes => (start.pendingDrains.length, bytes)) = sourceSpans 0 (takens ++ [live]) := by
    rw [sourceSpans_append, ← read.paired]
    simp [sourceSpans]
  have linesEq : takens.flatten ++ live = (takens ++ [live]).flatten := by simp
  have short : ((takens ++ [live]).flatten.filter Short)[index]? = some place.2 := by
    rw [← sourcePlaces_map_snd read.offsets_paired, List.getElem?_map]
    rw [batchPlaces] at found
    rw [found]
    rfl
  have raw := @lossyRaws_find 0 _ _ _ short
  rcases sourcePlaces_of_spans found with
    ⟨source, span, base, spanAt, lenAt, own, begins⟩
  rw [Nat.zero_add] at spanAt begins raw
  have baseAt : (if source < start.pendingDrains.length then
      (start.pendingDrains.map Prod.snd)[source]? else some start.state.offset) = some base := by
    by_cases drain : source < start.pendingDrains.length
    · rw [if_pos drain, ← own, List.getElem?_append_left (by simpa using drain)]
    · rw [if_neg drain, ← own, List.getElem?_append_right (by simpa using drain)]
      have last := (List.getElem?_eq_some_iff.mp own).1
      simp only [List.length_append, List.length_map, List.length_cons, List.length_nil] at last
      have here : source - start.pendingDrains.length = 0 := by omega
      simp [here]
  have counted : (lineLens (takens ++ [live]).flatten).length =
      (sourceSpans 0 (takens ++ [live])).length := by
    rw [sourceSpans_length, lineLens, texts, List.length_map, List.length_map]
  simp only [LogTailer.uncommittedLine, read.recorded, UncommittedRead.extended,
    snapshot_of_fresh fresh, List.nil_append, List.length_nil, spansEq, linesEq,
    Option.bind_eq_bind, Option.bind_some, counted, ne_eq, not_true_eq_false, or_self, if_false,
    spanAt, lenAt, raw]
  rw [spansBefore] at begins
  have bytes : Option.map Prod.snd (if lossy place.2 = place.2 then none
      else some (index, place.2)) = if lossy place.2 = place.2 then none else some place.2 := by
    split <;> rfl
  by_cases drain : source < start.pendingDrains.length
  · rw [if_pos drain] at baseAt
    rw [if_pos drain, baseAt, Option.bind_some, begins, bytes]
  · rw [if_neg drain, Option.some.injEq] at baseAt
    rw [if_neg drain, baseAt, begins, bytes]

end Locating

section Parts

variable {parts : List (List Bytes)}

/-- The positions once some lines of each source have been passed. -/
def movedPositions (offsets : List ℕ) (parts : List (List Bytes)) : List ℕ :=
  List.zipWith (fun offset part => offset + (terminated part).length) offsets parts

theorem advanced_map_snd (drains : List (ℕ × ℕ)) (parts : List (List Bytes)) :
    (advanced drains parts).map Prod.snd = movedPositions (drains.map Prod.snd) parts := by
  rw [advanced, movedPositions, List.map_zipWith, List.zipWith_map_left]

theorem uptoLines_append (count : ℕ) (front back : List (List Bytes)) :
    uptoLines count (front ++ back) =
      uptoLines count front ++ uptoLines (count - (texts front.flatten).length) back := by
  induction front generalizing count with
  | nil => simp [uptoLines]
  | cons taken later ih =>
      rw [List.cons_append, uptoLines, ih, List.flatten_cons, texts_append, List.length_append,
        Nat.sub_sub]
      rfl

theorem uptoLines_length (count : ℕ) (takens : List (List Bytes)) :
    (uptoLines count takens).length = takens.length := by
  induction takens generalizing count with
  | nil => rfl
  | cons taken later ih => rw [uptoLines, List.length_cons, List.length_cons, ih]

theorem uptoLines_prefixes (count : ℕ) (takens : List (List Bytes)) :
    List.Forall₂ (fun part taken => part <+: taken) (uptoLines count takens) takens := by
  induction takens generalizing count with
  | nil => exact .nil
  | cons taken later ih => exact .cons (uptoLine_initial _ taken) (ih _)

theorem movedPositions_uptoLines_zero (paired : offsets.length = takens.length) :
    movedPositions offsets (uptoLines 0 takens) = offsets := by
  induction takens generalizing offsets with
  | nil =>
      have none : offsets = [] := List.length_eq_zero_iff.mp paired
      rw [none]
      rfl
  | cons taken later ih =>
      cases offsets with
      | nil => simp at paired
      | cons =>
          have rest := ih (Nat.succ.inj paired)
          rw [movedPositions] at rest
          simp [movedPositions, uptoLines, uptoLine, rest]

/-- The offsets a batch reads from. -/
def sourceOffsets (start : LogTailer) : List ℕ :=
  start.pendingDrains.map Prod.snd ++ [start.state.offset]

/-- A tailer that has passed the given lines of each source, and keeps no batch. -/
structure Passed (start : LogTailer) (parts : List (List Bytes)) (tailer : LogTailer) : Prop where
  live : tailer.state.offset ∈ movedPositions (sourceOffsets start) parts
  drains : ∀ offset ∈ tailer.pendingDrains.map Prod.snd,
    offset ∈ movedPositions (sourceOffsets start) parts
  quiet : tailer.uncommitted = none

theorem passed_of_moved {part : List Bytes} (paired : start.pendingDrains.length = parts.length)
    (live : tailer.state.offset = start.state.offset + (terminated part).length)
    (drains : tailer.pendingDrains ⊆ advanced start.pendingDrains parts)
    (quiet : tailer.uncommitted = none) : Passed start (parts ++ [part]) tailer := by
  have split : movedPositions (sourceOffsets start) (parts ++ [part]) =
      (advanced start.pendingDrains parts).map Prod.snd ++ [tailer.state.offset] := by
    rw [movedPositions, sourceOffsets, List.zipWith_append (by simpa using paired),
      advanced_map_snd, live]
    rfl
  refine ⟨?_, ?_, quiet⟩
  · simp [split]
  · rw [split]
    exact fun offset member => List.mem_append_left _ (List.map_subset _ drains member)

variable (read : BatchRead look start takens exhausted live result)
include read

theorem BatchRead.passed_commit : Passed start (takens ++ [live]) result.2.commitBatch := by
  apply passed_of_moved read.paired _ _ rfl
  · simp [LogTailer.commitBatch, read.state]
  · rw [LogTailer.commitBatch, read.pending]
    exact List.drop_subset _ _

theorem BatchRead.passed_through (count : ℕ) :
    Passed start (uptoLines count (takens ++ [live])) (movedThrough count takens live start
      result.2) := by
  rw [uptoLines_append]
  apply passed_of_moved _ rfl (List.Subset.refl _) rfl
  rw [uptoLines_length, read.paired]

theorem BatchRead.passed_rewind (fresh : start.uncommitted = none) :
    Passed start (uptoLines 0 (takens ++ [live])) result.2.rewindBatch := by
  have same := movedPositions_uptoLines_zero read.offsets_paired
  rw [read.rewind fresh]
  refine ⟨?_, ?_, rfl⟩
  · rw [sourceOffsets, same]
    simp
  · intro offset member
    rw [sourceOffsets, same]
    exact List.mem_append_left _ member

end Parts

end Propolis
