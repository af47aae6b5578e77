import Propolis.Tailer.Held
import Propolis.Tailer.Steady

/-!
# Noticing a rotation

What `handle_rotation` makes of a tailer when the files stand still during the
call.  It keeps its place in a file it knows; it goes over to a new file at the log
path with the old one queued behind the drains; and behind a copytruncate it
queues the copy, unless nothing of it is unread.  In every case the tailer ends up
`Ready`: with the fingerprint of the log as it stands.
-/

namespace Propolis

open Bytes

section Noticing

variable {hash : Bytes → Digest} {fs : Fs} {inode : ℕ} {tailer after : LogTailer}

/-- The tailer knows the file at the log path. -/
structure Ready (hash : Bytes → Digest) (fs : Fs) (inode : ℕ) (tailer : LogTailer) : Prop where
  same : tailer.state.inode = inode
  stamped : ∃ window, Stamped hash (fs.data inode) tailer.state window ∧
    (window = 0 → fs.data inode = [])
  file : tailer.file = none ∨ tailer.file = some inode

/-- The positions of the tailer are as they were. -/
structure KeepsPlace (tailer after : LogTailer) : Prop where
  drains : after.pendingDrains = tailer.pendingDrains
  offset : after.state.offset = tailer.state.offset
  batch : after.uncommitted = tailer.uncommitted
  resumes : after.resumes = tailer.resumes ∨ after.resumes =
    tailer.resumes.filter fun resume => resume.1 ∈ tailer.pendingDrains.map Prod.fst

theorem Held.keep {prior : List Bytes} {content : Bytes} {committed handed : List Bytes}
    (held : Held fs prior content committed handed tailer) (keeps : KeepsPlace tailer after) :
    Held fs prior content committed handed after := by
  refine ⟨?_, ?_, ?_⟩
  · rw [keeps.offset, keeps.drains]
    exact held.holds
  · rw [keeps.batch]
    exact held.quiet
  · rw [keeps.batch, keeps.drains, keeps.offset]
    exact held.batch

/-- Going to the beginning of a file changes nothing for a tailer that stands there. -/
theorem LeftBehind.keeps (left : LeftBehind tailer after) (start : tailer.state.offset = 0)
    (back : ∀ uncommitted, tailer.uncommitted = some uncommitted →
      uncommitted.offset ≤ tailer.state.offset) :
    KeepsPlace tailer after := by
  refine ⟨left.drains, left.offset.trans start.symm, ?_, left.resumes⟩
  rw [left.batch]
  cases batch : tailer.uncommitted with
  | none => rfl
  | some uncommitted =>
      have zero : uncommitted.offset = 0 := by
        have before := back uncommitted batch
        omega
      rw [Option.map_some, ← zero]

/-- The log is not there: nothing is noticed. -/
theorem handleRotation_of_missing (missing : fs.log = none) :
    tailer.handleRotation hash (fun _ => fs) = tailer := by
  have event : detectRotation hash fs fs tailer.state = .none := by
    rw [detectRotation, missing]
  have nothing : (fingerprintWithLen hash fs).2 = 0 := by
    simp [fingerprintWithLen, Fs.readHead, missing]
  rw [LogTailer.handleRotation, event]
  cases tailer.state.fingerprintLen with
  | none => rfl
  | some window =>
      dsimp only
      rw [if_neg (by omega)]

/-- The generations go behind the drains and the tailer to the beginning of the log. -/
structure Recovered (generations : List Generation) (tailer after : LogTailer) : Prop where
  drains : after.pendingDrains =
    tailer.pendingDrains ++ generations.map fun gen => (gen.inode, gen.offset)
  offset : after.state.offset = 0
  batch : after.uncommitted = tailer.uncommitted.map fun uncommitted =>
    { uncommitted with
      drainOffsets := uncommitted.drainOffsets ++
        generations.map fun gen => if gen.isStored then uncommitted.offset else 0
      offset := 0 }
  resumes : after.resumes =
    tailer.resumes.filter (fun resume => resume.1 ∈ tailer.pendingDrains.map Prod.fst) ++
      generations.map fun gen => (gen.inode, gen.fingerprint, gen.fingerprintLen)

theorem Recovered.left (recovered : Recovered [] tailer after) : LeftBehind tailer after := by
  refine ⟨?_, recovered.offset, ?_, Or.inr ?_⟩
  · rw [recovered.drains, List.map_nil, List.append_nil]
  · simpa only [List.map_nil, List.append_nil] using recovered.batch
  · simpa only [List.map_nil, List.append_nil] using recovered.resumes

section

variable (found : fs.log = some inode) (same : tailer.state.inode = inode)
include found same

theorem ready_of_stamp (file : tailer.file = none ∨ tailer.file = some inode) :
    Ready hash fs inode (tailer.stampFingerprint hash fs) := by
  refine ⟨same, ⟨_, stamped_of_fingerprint ?_ ?_, ?_⟩, file⟩
  · simp [LogTailer.stampFingerprint, fingerprintWithLen_of_log found]
  · simp [LogTailer.stampFingerprint, fingerprintWithLen_of_log found]
  · intro empty
    apply List.length_eq_zero_iff.mp
    omega

theorem ready_of_reset : Ready hash fs inode (tailer.resetToCurrentFile hash fs) :=
  ready_of_stamp found same (Or.inl rfl)

theorem recoverCopytruncated_recovered :
    Ready hash fs inode (tailer.recoverCopytruncated hash fs fs) ∧
      Recovered ((findGenerations hash fs tailer.state).getD ([], true)).1 tailer
        (tailer.recoverCopytruncated hash fs fs) := by
  rcases recoverCopytruncated_eq hash fs fs tailer with
    ⟨queued, recovers, state, drains, batch, resumes⟩
  rw [recovers]
  refine ⟨?_, drains, rfl, ?_, resumes⟩
  · apply ready_of_reset found
    rw [state]
    exact same
  · change queued.uncommitted.map _ = _
    rw [batch]
    exact Option.map_map _ _ _

/-- A cursor that fits the log stays, or starts a log over that was empty when fingerprinted. -/
theorem handleRotation_of_stamped {window : ℕ}
    (inside : tailer.state.offset ≤ (fs.data inode).length)
    (stamped : Stamped hash (fs.data inode) tailer.state window)
    (file : tailer.file = none ∨ tailer.file = some inode) :
    Ready hash fs inode (tailer.handleRotation hash (fun _ => fs)) ∧
      (KeepsPlace tailer (tailer.handleRotation hash (fun _ => fs)) ∨
        window = 0 ∧ LeftBehind tailer (tailer.handleRotation hash (fun _ => fs))) := by
  rw [LogTailer.handleRotation]
  rcases detectRotation_of_stamped found same inside (readHead_of_log found) stamped with
    event | ⟨empty, event⟩
  · simp only [event, stamped.len]
    by_cases narrow : window < 256 ∧ window < (fingerprintWithLen hash fs).2
    · rw [if_pos narrow]
      exact ⟨ready_of_stamp found same file, Or.inl ⟨rfl, rfl, rfl, Or.inl rfl⟩⟩
    · rw [if_neg narrow]
      refine ⟨⟨same, ⟨window, stamped, ?_⟩, file⟩, Or.inl ⟨rfl, rfl, rfl, Or.inl rfl⟩⟩
      intro none
      simp only [fingerprintWithLen_of_log found] at narrow
      apply List.length_eq_zero_iff.mp
      omega
  · have none : findGenerations hash fs tailer.state = none := by
      have unmatched : ∀ copy, storedIn hash fs tailer.state copy = none := by
        intro copy
        simp [storedIn, headMatches_of_empty_window (stamped.len.trans (congrArg some empty))]
      rw [findGenerations, unmatched, unmatched]
    simp only [event]
    split
    · exact ⟨ready_of_stamp found same file, Or.inl ⟨rfl, rfl, rfl, Or.inl rfl⟩⟩
    · rcases recoverCopytruncated_recovered found same with ⟨ready, recovered⟩
      rw [none] at recovered
      exact ⟨ready, Or.inr ⟨empty, recovered.left⟩⟩

/-- The log does not carry the stored fingerprint and a copy does. -/
theorem handleRotation_of_found {generations : List Generation × Bool}
    (nonempty : tailer.state.fingerprintLen ≠ some 0)
    (unlike : headMatches hash tailer.state ((fs.data inode).take 256) = false)
    (copies : findGenerations hash fs tailer.state = some generations) :
    Ready hash fs inode (tailer.handleRotation hash (fun _ => fs)) ∧
      Recovered generations.1 tailer (tailer.handleRotation hash (fun _ => fs)) := by
  have recovers : tailer.handleRotation hash (fun _ => fs) =
      tailer.recoverCopytruncated hash fs fs := by
    have event : detectRotation hash fs fs tailer.state = .truncated ∨
        detectRotation hash fs fs tailer.state = .replaced := by
      simp only [detectRotation, found, same, ne_eq, not_true_eq_false, if_false, unlike,
        readHead_of_log found, Bool.false_eq_true, nonempty, false_and]
      split
      · exact Or.inl rfl
      · exact Or.inr rfl
    rw [LogTailer.handleRotation]
    rcases event with truncated | replaced
    · rw [truncated]
    · simp [replaced, copies]
  have recovered := @recoverCopytruncated_recovered hash fs inode tailer found same
  rw [copies, Option.getD_some] at recovered
  rw [recovers]
  exact recovered

end

/-- Another file stands at the log path. -/
theorem handleRotation_of_inodeChanged (found : fs.log = some inode)
    (other : inode ≠ tailer.state.inode) :
    Ready hash fs inode (tailer.handleRotation hash (fun _ => fs)) ∧
      (∀ file, tailer.file = some file →
        QueuedBehind file tailer (tailer.handleRotation hash (fun _ => fs))) ∧
      (tailer.file = none → LeftBehind tailer (tailer.handleRotation hash (fun _ => fs))) := by
  have event : detectRotation hash fs fs tailer.state = .inodeChanged := by
    simp only [detectRotation, found, ne_eq, other, not_false_eq_true, if_true]
  rw [LogTailer.handleRotation, event]
  dsimp only
  refine ⟨?_, ?_, ?_⟩
  · apply ready_of_reset found
    simp [Fs.getInode, found]
  · intro file opened
    rw [LogTailer.queueFile, opened]
    refine ⟨rfl, rfl, ?_⟩
    cases tailer.uncommitted with
    | none => rfl
    | some => rfl
  · intro closed
    rw [LogTailer.queueFile, closed]
    exact ⟨rfl, rfl, rfl, Or.inl rfl⟩

theorem findGenerations_of_one {file window : ℕ} {state : CursorState} (copy : fs.one = some file)
    (stamped : Stamped hash (fs.data file) state window) (positive : window ≠ 0)
    (inside : state.offset ≤ (fs.data file).length) :
    findGenerations hash fs state = some (storedGeneration fs state file, false) := by
  have stored : storedIn hash fs state fs.one = some file := by
    simp [storedIn, copy, Fs.headOf, stamped.headMatches positive, inside]
  rw [findGenerations, stored]

/-- Something of the stored generation is unread. -/
theorem Recovered.queued {file : ℕ} (recovered :
      Recovered (storedGeneration fs tailer.state file) tailer after)
    (unread : tailer.state.offset < (fs.data file).length) : QueuedBehind file tailer after := by
  rw [storedGeneration, if_pos unread] at recovered
  exact ⟨recovered.drains, recovered.offset, recovered.batch⟩

end Noticing

end Propolis
