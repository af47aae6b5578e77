import Propolis.Tailer.Steady

/-!
# Tailing a log that only grows

`LogTailer` on a file that is only appended to.  Of its state there remain the
read offset and the offset to rewind to.

On such a file `handle_rotation` can still raise a false alarm: a file stamped
while it was empty, and written before it was read, no longer matches its stamp.
The tailer then starts the file over.  `startsOver` says whether it does.

`LogTailer.view` is what is left of a log tailer.  Every operation does to the
view what the reduced one does, as long as a call that finds no log opens none.
-/

namespace Propolis

open Bytes

structure Tailer where
  offset : ℕ
  uncommitted : Option ℕ
  deriving DecidableEq

namespace Tailer

/-- `LogTailer::new` with a persisted cursor. -/
def resume (persisted : ℕ) : Tailer := ⟨persisted, none⟩

/-- `reset_to_current_file`. -/
def startOver (tailer : Tailer) : Tailer :=
  ⟨0, tailer.uncommitted.map fun _ => 0⟩

/-- `handle_rotation`. -/
def handleRotation (startsOver : Bool) (tailer : Tailer) : Tailer :=
  if startsOver then tailer.startOver else tailer

def readBatch (maxLines : ℕ) (startsOver : Bool) (content : Bytes) (tailer : Tailer) :
    List Bytes × Tailer :=
  if maxLines = 0 then ([], tailer)
  else
    let rotated := tailer.handleRotation startsOver
    let read := readLinesFrom content rotated.offset maxLines ⟨2 ^ 64 - 1, true⟩
    (read.entries.filterMap TailEntry.text,
      ⟨rotated.offset + read.consumed, some (rotated.uncommitted.getD rotated.offset)⟩)

def commitBatch (tailer : Tailer) : Tailer :=
  { tailer with uncommitted := none }

/-- The position that counts as read: everything before it has been committed. -/
def committed (tailer : Tailer) : ℕ :=
  tailer.uncommitted.getD tailer.offset

def rewindBatch (tailer : Tailer) : Tailer :=
  ⟨tailer.committed, none⟩

end Tailer

/-- What a read returns and where it leaves the tailer.  `start` is where it began. -/
theorem readBatch_spec (maxLines : ℕ) (startsOver : Bool) (content : Bytes) (tailer : Tailer) :
    ∃ start taken, (start = tailer ∨ start = tailer.startOver) ∧
      taken <+: linesOf (content.drop start.offset) ∧
      (tailer.readBatch maxLines startsOver content).1 = texts taken ∧
      (tailer.readBatch maxLines startsOver content).2.offset =
        start.offset + (terminated taken).length ∧
      (tailer.readBatch maxLines startsOver content).2.committed = start.committed ∧
      (texts taken).length ≤ maxLines := by
  simp only [Tailer.readBatch]
  split
  · exact ⟨tailer, [], Or.inl rfl, List.nil_prefix, by simp⟩
  · rcases readLinesFrom_fileRead content (tailer.handleRotation startsOver).offset maxLines
      ⟨2 ^ 64 - 1, true⟩ with ⟨taken, read⟩
    refine ⟨tailer.handleRotation startsOver, taken, ?_, read.ahead, read.texts_eq, ?_, rfl, ?_⟩
    · cases startsOver with
      | false => exact Or.inl rfl
      | true => exact Or.inr rfl
    · rw [read.consumed]
    · simpa using read.enough

theorem Tailer.committed_startOver (tailer : Tailer) : tailer.startOver.committed = 0 := by
  cases tailer with
  | mk offset uncommitted => cases uncommitted <;> rfl

section View

/-- The positions of a log tailer that has nothing to drain. -/
def LogTailer.view (tailer : LogTailer) : Tailer :=
  ⟨tailer.state.offset, tailer.uncommitted.map (·.offset)⟩

/-- Nothing is being drained, and a file is open only under its own inode. -/
structure Undrained (tailer : LogTailer) : Prop where
  drains : tailer.pendingDrains = []
  exhausted : ∀ batch ∈ tailer.uncommitted, batch.exhausted = []
  unopened : tailer.state.inode ≠ 1 → tailer.file = none

/-- The tailer behind `handle_rotation`: where the log was found it is open under its inode. -/
structure Turned (watch : Watch) (before after : LogTailer) : Prop where
  view : ∃ startsOver, after.view = before.view.handleRotation startsOver
  undrained : Undrained after
  inode : watch.sight .stat ≠ none → after.state.inode = 1

variable {hash : Bytes → Digest} {watch : Watch} {tailer : LogTailer}

theorem detectRotation_inodeChanged_iff {stat : Option Bytes} {head : Fs} {state : CursorState} :
    detectRotation hash (logFs stat) head state = .inodeChanged ↔
      stat ≠ none ∧ state.inode ≠ 1 := by
  cases stat with
  | none => simp [detectRotation]
  | some content => grind [detectRotation, logFs_log_some]

theorem view_new (fs : Fs) (saved : CursorState) :
    (LogTailer.new fs (some saved)).view = .resume saved.offset ∧
      Undrained (LogTailer.new fs (some saved)) := by
  refine ⟨rfl, rfl, ?_, fun _ => rfl⟩
  intro batch none
  cases none

section Operations

variable (undrained : Undrained tailer)
include undrained

theorem Undrained.commit :
    tailer.commitBatch.view = tailer.view.commitBatch ∧ Undrained tailer.commitBatch := by
  refine ⟨rfl, undrained.drains, ?_, undrained.unopened⟩
  intro batch none
  cases none

theorem Undrained.rewind :
    tailer.rewindBatch.view = tailer.view.rewindBatch ∧ Undrained tailer.rewindBatch := by
  rw [LogTailer.rewindBatch]
  cases open_ : tailer.uncommitted with
  | none =>
      exact ⟨by simp [LogTailer.view, Tailer.rewindBatch, Tailer.committed, open_], undrained⟩
  | some batch =>
      have none := undrained.exhausted batch open_
      refine ⟨?_, ?_, ?_, undrained.unopened⟩
      · simp [LogTailer.view, Tailer.rewindBatch, Tailer.committed, open_]
      · simp [none, undrained.drains]
      · intro batch none
        cases none

theorem Undrained.reset {before : LogTailer} (drains : before.pendingDrains = tailer.pendingDrains)
    (batch : before.uncommitted = tailer.uncommitted)
    (seen : watch.sight .stat ≠ none → before.state.inode = 1) (stamp : Fs) :
    Turned watch tailer (before.resetToCurrentFile hash stamp) := by
  rw [LogTailer.resetToCurrentFile, batch]
  refine ⟨⟨true, ?_⟩, ⟨drains.trans undrained.drains, ?_, fun _ => rfl⟩, seen⟩
  · simp [LogTailer.view, LogTailer.stampFingerprint, Tailer.handleRotation, Tailer.startOver,
      Function.comp_def]
  · intro reread member
    rcases Option.mem_map.mp member with ⟨old, among, rfl⟩
    exact undrained.exhausted old among

theorem Undrained.turned : Turned watch tailer (tailer.handleRotation hash watch.look) := by
  by_cases changed : detectRotation hash (watch.look .stat) (watch.look .head) tailer.state =
      .inodeChanged
  · rcases detectRotation_inodeChanged_iff.mp changed with ⟨found, other⟩
    rcases Option.ne_none_iff_exists'.mp found with ⟨content, stat⟩
    have later := watch.grows .stat .inode (by decide)
    rw [stat] at later
    rcases later.of_some with ⟨between, atInode, -⟩
    simp only [LogTailer.handleRotation, changed, LogTailer.queueFile, undrained.unopened other]
    refine undrained.reset ?_ ?_ ?_ _
    · rfl
    · rfl
    · simp [Fs.getInode, Watch.look, atInode]
  · have seen : watch.sight .stat ≠ none → tailer.state.inode = 1 := by
      simpa [detectRotation_inodeChanged_iff] using changed
    have stays : Turned watch tailer tailer := ⟨⟨false, rfl⟩, undrained, seen⟩
    have stamped : ∀ stamp, Turned watch tailer (tailer.stampFingerprint hash stamp) :=
      fun _ => ⟨⟨false, rfl⟩, { undrained with }, seen⟩
    have recovered : ∀ recover stamp, Turned watch tailer
        (tailer.recoverCopytruncated hash (logFs recover) (logFs stamp)) := by
      intro recover stamp
      rcases recoverCopytruncated_logFs hash tailer recover stamp with
        ⟨before, recovered, state, drains, batch⟩
      rw [recovered]
      exact undrained.reset drains batch (by rwa [state]) _
    rw [LogTailer.handleRotation]
    split
    · split
      · split
        · exact stamped _
        · exact stays
      · exact stays
    · exact recovered _ _
    · split
      · exact stamped _
      · exact recovered _ _
    · contradiction

/-- A read of the log does to the view what the reduced tailer does. -/
theorem Undrained.read (maxLines : ℕ)
    (unfound : watch.sight .stat = none → watch.sight .openLog = none) :
    (∃ startsOver, tailer.view.readBatch maxLines startsOver watch.content =
      ((tailer.readBatch hash maxLines watch.look).1,
        (tailer.readBatch hash maxLines watch.look).2.view)) ∧
      Undrained (tailer.readBatch hash maxLines watch.look).2 := by
  rcases Nat.eq_zero_or_pos maxLines with rfl | some
  · exact ⟨⟨false, rfl⟩, undrained⟩
  have turned : Turned watch tailer (tailer.handleRotation hash watch.look) := undrained.turned
  generalize rotated : tailer.handleRotation hash watch.look = start at turned
  rcases turned.view with ⟨startsOver, view⟩
  have kept : start.snapshot.offset = start.view.uncommitted.getD start.view.offset ∧
      start.snapshot.exhausted = [] := by
    rw [LogTailer.snapshot, LogTailer.view]
    cases open_ : start.uncommitted with
    | none => exact ⟨rfl, rfl⟩
    | some batch => exact ⟨rfl, turned.undrained.exhausted batch open_⟩
  simp only [LogTailer.readBatch, LogTailer.readBatchBounded, LogTailer.readEntries, some.ne',
    rotated, turned.undrained.drains, LogTailer.drainLoop, Nat.le_zero, Bool.false_eq_true,
    or_self, if_false, Nat.sub_zero, decide_true, Tailer.readBatch]
  cases opened : watch.sight .openLog with
  | none =>
      simp only [Watch.look, opened, logFs_log_none, Watch.content]
      refine ⟨⟨startsOver, ?_⟩, rfl, ?_, turned.undrained.unopened⟩
      · rw [← view, ← kept.1, readLinesFrom_nil]
        rfl
      · rintro batch ⟨⟩
        exact kept.2
  | some content =>
      have inode := turned.inode fun missing => by simp [unfound missing] at opened
      simp only [Watch.look, opened, logFs_log_some, Watch.content, logFs_data,
        refreshLastKnownSize_eq]
      refine ⟨⟨startsOver, ?_⟩, rfl, ?_, fun other => absurd inode other⟩
      · rw [← view, ← kept.1]
        rfl
      · rintro batch ⟨⟩
        exact kept.2

theorem Undrained.persistCursor : tailer.persistCursor.offset = tailer.view.offset := by
  simp [LogTailer.persistCursor, undrained.drains, LogTailer.view]

end Operations

end View

end Propolis
