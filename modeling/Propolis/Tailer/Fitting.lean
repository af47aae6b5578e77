import Propolis.Tailer.Noticing

/-!
# A cursor that fits the log

Whatever state a tailer is in, a read leaves its cursor fitting the log it found: the
position lies inside the file and the fingerprint was taken of its beginning.  As long
as the log is only appended to, the next look at it finds the same file: either the
fingerprint still matches, or the file was shorter than a whole window and has grown,
which is taken for what it is.  A cursor of an older version, stored without its window,
is told from a copytruncate only if no rotated copy carries its fingerprint.
-/

namespace Propolis

open Bytes

variable {hash : Bytes → Digest} {fs : Fs} {inode : ℕ} {content longer : Bytes}
  {state : CursorState} {tailer : LogTailer}

section Fits

/-- The fingerprint of the cursor is one of this content. -/
inductive FitsLog (hash : Bytes → Digest) (content : Bytes) (state : CursorState) : Prop where
  | window {window : ℕ} (len : state.fingerprintLen = some window)
      (fits : window ≤ content.length) (narrow : window ≤ 256)
      (taken : state.fingerprint = hash (content.take window)) (positive : window ≠ 0)
  | empty (len : state.fingerprintLen = some 0) (nothing : content = [])
  | unmeasured (len : state.fingerprintLen = none)
      (taken : state.fingerprint = hash (content.take 256))

theorem FitsLog.congr {other : CursorState} (fits : FitsLog hash content state)
    (fingerprint : other.fingerprint = state.fingerprint)
    (len : other.fingerprintLen = state.fingerprintLen) : FitsLog hash content other := by
  cases fits with
  | window recorded fits narrow taken positive =>
      exact .window (len.trans recorded) fits narrow (fingerprint.trans taken) positive
  | empty recorded nothing => exact .empty (len.trans recorded) nothing
  | unmeasured recorded taken => exact .unmeasured (len.trans recorded) (fingerprint.trans taken)

/-- A cursor that was just stamped fits. -/
theorem fits_stampFingerprint (found : fs.log = some inode) :
    FitsLog hash (fs.data inode) (tailer.stampFingerprint hash fs).state := by
  have stamped : Stamped hash (fs.data inode) (tailer.stampFingerprint hash fs).state
      (min 256 (fs.data inode).length) := by
    apply stamped_of_fingerprint <;>
      simp [LogTailer.stampFingerprint, fingerprintWithLen_of_log found]
  by_cases empty : fs.data inode = []
  · refine .empty ?_ empty
    rw [stamped.len, empty]
    rfl
  · refine .window stamped.len stamped.fits stamped.narrow stamped.taken ?_
    have positive := List.length_pos_iff.mpr empty
    omega

/-- What `detect_rotation` says of a log that is there. -/
inductive Sighted (hash : Bytes → Digest) (fs : Fs) (inode : ℕ) (state : CursorState) :
    RotationEvent → Prop where
  | inodeChanged (other : inode ≠ state.inode) : Sighted hash fs inode state .inodeChanged
  | truncated (same : state.inode = inode) (short : (fs.data inode).length < state.offset) :
      Sighted hash fs inode state .truncated
  | unrotated (same : state.inode = inode) (inside : state.offset ≤ (fs.data inode).length)
      (found : headMatches hash state ((fs.data inode).take 256) = true ∨
        state.fingerprintLen = some 0 ∧ fs.data inode = []) :
      Sighted hash fs inode state .none
  | replaced (same : state.inode = inode) (inside : state.offset ≤ (fs.data inode).length)
      (unlike : headMatches hash state ((fs.data inode).take 256) = false)
      (changed : ¬(state.fingerprintLen = some 0 ∧ fs.data inode = [])) :
      Sighted hash fs inode state .replaced

theorem detectRotation_sighted (found : fs.log = some inode) (state : CursorState) :
    Sighted hash fs inode state (detectRotation hash fs fs state) := by
  have nothing : (fs.data inode).take 256 = [] ↔ fs.data inode = [] := by
    simp [List.take_eq_nil_iff]
  simp only [detectRotation, found, readHead_of_log found, nothing]
  split
  case isTrue other => exact .inodeChanged other
  case isFalse same =>
    have same := (not_ne_iff.mp same).symm
    split
    case isTrue short => exact .truncated same short
    case isFalse inside =>
      have inside := Nat.not_lt.mp inside
      split
      case isTrue matched => exact .unrotated same inside (.inl matched)
      case isFalse unlike =>
        split
        case isTrue still => exact .unrotated same inside (.inr still)
        case isFalse changed =>
          exact .replaced same inside (Bool.eq_false_iff.mpr unlike) changed

theorem fits_of_unrotated (found : headMatches hash state (content.take 256) = true ∨
      state.fingerprintLen = some 0 ∧ content = []) : FitsLog hash content state := by
  rcases found with matched | ⟨len, nothing⟩
  · rw [headMatches] at matched
    split at matched
    · rename_i len
      exact .unmeasured len (of_decide_eq_true matched).symm
    · cases matched
    · rename_i window positive len
      simp only [decide_eq_true_eq, List.length_take] at matched
      have narrow : window ≤ 256 := by omega
      refine .window len (by omega) narrow ?_ ?_
      · rw [← matched.2, List.take_take, Nat.min_eq_left narrow]
      · intro zero
        exact positive zero
  · exact .empty len nothing

/-- Whatever its state was, a tailer that finds the log has a cursor that fits it. -/
theorem handleRotation_fits (found : fs.log = some inode) (tailer : LogTailer) :
    (tailer.handleRotation hash (fun _ => fs)).state.inode = inode ∧
      (tailer.handleRotation hash (fun _ => fs)).state.offset ≤ (fs.data inode).length ∧
      FitsLog hash (fs.data inode) (tailer.handleRotation hash (fun _ => fs)).state := by
  have recovered (same : tailer.state.inode = inode) :
      (tailer.recoverCopytruncated hash fs fs).state.inode = inode ∧
        (tailer.recoverCopytruncated hash fs fs).state.offset ≤ (fs.data inode).length ∧
        FitsLog hash (fs.data inode) (tailer.recoverCopytruncated hash fs fs).state := by
    obtain ⟨ready, recovered⟩ := @recoverCopytruncated_recovered hash fs inode tailer found same
    refine ⟨ready.same, ?_, fits_stampFingerprint found⟩
    rw [recovered.offset]
    exact Nat.zero_le _
  have sighted := @detectRotation_sighted hash fs inode found tailer.state
  rw [LogTailer.handleRotation]
  generalize detectRotation hash fs fs tailer.state = event at sighted
  cases sighted with
  | inodeChanged other =>
      refine ⟨?_, Nat.zero_le _, fits_stampFingerprint found⟩
      simp [LogTailer.resetToCurrentFile, LogTailer.stampFingerprint, Fs.getInode, found]
  | truncated same short => exact recovered same
  | replaced same inside =>
      dsimp only
      split
      · exact ⟨same, inside, fits_stampFingerprint found⟩
      · exact recovered same
  | unrotated same inside matched =>
      have fits := fits_of_unrotated matched
      dsimp only
      split
      · split
        · exact ⟨same, inside, fits_stampFingerprint found⟩
        · exact ⟨same, inside, fits⟩
      · exact ⟨same, inside, fits⟩

theorem handleRotation_quiet (look : Look → Fs) (quiet : tailer.uncommitted = none) :
    (tailer.handleRotation hash look).uncommitted = none := by
  have recovered : (tailer.recoverCopytruncated hash (look .recover)
      (look .stamp)).uncommitted = none := by
    rcases recoverCopytruncated_eq hash (look .recover) (look .stamp) tailer with
      ⟨queued, recovers, -, -, batch, -⟩
    rw [recovers, LogTailer.resetToCurrentFile, batch]
    simp [LogTailer.stampFingerprint, LogTailer.queueGenerations, quiet]
  rw [LogTailer.handleRotation]
  split
  · split
    · split <;> exact quiet
    · exact quiet
  · exact recovered
  · split
    · exact quiet
    · exact recovered
  · cases opened : tailer.file with
    | none => simp [LogTailer.resetToCurrentFile, LogTailer.stampFingerprint, LogTailer.queueFile,
        opened, quiet]
    | some file => simp [LogTailer.resetToCurrentFile, LogTailer.stampFingerprint,
        LogTailer.queueFile, opened, quiet]

end Fits

section StandsIn

/-- The tailer stands in the file with this number, which held the content when it last looked. -/
structure StandsIn (hash : Bytes → Digest) (inode : ℕ) (content : Bytes) (tailer : LogTailer) :
    Prop where
  same : tailer.state.inode = inode
  inside : tailer.state.offset ≤ content.length
  fits : FitsLog hash content tailer.state
  sized : tailer.lastKnownSize = content.length

/-- No rotated copy carries the fingerprint. -/
def Unlike (hash : Bytes → Digest) (state : CursorState) (fs : Fs) : Prop :=
  ∀ inode, fs.one = some inode ∨ fs.two = some inode →
    headMatches hash state (fs.headOf inode) = false

theorem Unlike.findGenerations (unlike : Unlike hash state fs) :
    findGenerations hash fs state = none := by
  have one : storedIn hash fs state fs.one = none := by
    cases copy : fs.one with
    | none => rfl
    | some inode => simp [storedIn, unlike inode (.inl copy)]
  have two : storedIn hash fs state fs.two = none := by
    cases copy : fs.two with
    | none => rfl
    | some inode => simp [storedIn, unlike inode (.inr copy)]
  rw [Propolis.findGenerations, one, two]

variable (knows : StandsIn hash inode content tailer) (found : fs.log = some inode)
  (grown : content <+: fs.data inode)
include knows found grown

/-- A log that was appended to is found unchanged, or taken for one that has grown. -/
theorem StandsIn.detectRotation :
    detectRotation hash fs fs tailer.state = .none ∨
      detectRotation hash fs fs tailer.state = .replaced ∧
        tailer.maybeFalsePositiveReplaced fs = true ∧
        (tailer.state.fingerprintLen = some 0 ∨ tailer.state.fingerprintLen = none) := by
  have longer := grown.length_le
  have inside := knows.inside
  have sighted := @detectRotation_sighted hash fs inode found tailer.state
  generalize Propolis.detectRotation hash fs fs tailer.state = event at sighted
  cases sighted with
  | inodeChanged other => exact absurd knows.same.symm other
  | truncated => omega
  | unrotated => exact .inl rfl
  | replaced same _ unlike changed =>
      right
      have falsePositive (short : content.length < 256)
          (more : content.length < (fs.data inode).length) :
          tailer.maybeFalsePositiveReplaced fs = true := by
        simp [LogTailer.maybeFalsePositiveReplaced, knows.sized, short, Fs.logLen, found, more]
      cases knows.fits with
      | window len fits narrow taken positive =>
          have stamped : Stamped hash content tailer.state _ := ⟨len, fits, narrow, taken⟩
          rw [(stamped.grow grown).headMatches positive] at unlike
          cases unlike
      | empty len nothing =>
          have filled : fs.data inode ≠ [] := fun still => changed ⟨len, still⟩
          have positive := List.length_pos_iff.mpr filled
          refine ⟨rfl, falsePositive ?_ ?_, .inl len⟩
          · simp [nothing]
          · simpa [nothing] using positive
      | unmeasured len taken =>
          -- The head has changed, so it was shorter than the window.
          have different : (fs.data inode).take 256 ≠ content.take 256 := by
            intro equal
            simp [headMatches, len, equal, taken] at unlike
          have short : content.length < 256 := by
            by_contra long
            apply different
            obtain ⟨more, extended⟩ := grown
            rw [← extended, List.take_append_of_le_length (by omega)]
          have more : content.length < (fs.data inode).length := by
            by_contra same
            apply different
            rw [grown.eq_of_length_le (by omega)]
          exact ⟨rfl, falsePositive short more, .inr len⟩

/-- A tailer that finds its log appended to keeps its place in it. -/
theorem StandsIn.handleRotation
    (unlike : tailer.state.fingerprintLen = none → Unlike hash tailer.state fs) :
    tailer.handleRotation hash (fun _ => fs) = tailer ∨
      tailer.handleRotation hash (fun _ => fs) = tailer.stampFingerprint hash fs := by
  rw [LogTailer.handleRotation]
  rcases knows.detectRotation found grown with event | ⟨event, growth, len⟩
  · simp only [event]
    split
    · split
      · exact .inr rfl
      · exact .inl rfl
    · exact .inl rfl
  · have none_ : findGenerations hash fs tailer.state = none := by
      apply Unlike.findGenerations
      rcases len with empty | unmeasured
      · intro copy _
        exact headMatches_of_empty_window empty _
      · exact unlike unmeasured
    simp [event, none_, growth, Option.isNone_none, and_self]

end StandsIn

end Propolis
