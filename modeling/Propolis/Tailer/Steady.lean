import Propolis.Tailer.Reading

/-!
# Polls of a log that is only appended to

A writer appends to the log at any time, between two looks of one call too.
`Watch` is how the log stands at each look of a call; it only grows.

`Placed` says that a cursor fits the log: its fingerprint is that of the first
bytes of the log, over the window it names.  Such a cursor is never taken for one
of another file, with one exception: a fingerprint taken while the log was empty
fits no log that is not.  The tailer then starts the file over, unless it sees that
a short log has grown.  That does no harm as long as nothing was read under such a
fingerprint.  `Watch.Undisturbed` is that: a call that fingerprints the log while
it is empty reads no complete line, and a call that finds no log opens none.
`Watch.Calm` also lets it read some where the next call sees the log grown.
-/

namespace Propolis

open Bytes

variable {window : ℕ} {state : CursorState} {watch : Watch} {inode : ℕ} {log : Option Bytes}
  {tailer : LogTailer} {hash : Bytes → Digest} {excused : Prop}

/-- The log after more was written; `none` is a log that does not exist yet. -/
def Grown : Option Bytes → Option Bytes → Prop
  | none, _ => True
  | some content, some longer => content <+: longer
  | some _, none => False

instance : (before after : Option Bytes) → Decidable (Grown before after)
  | none, _ => isTrue trivial
  | some content, some longer => inferInstanceAs (Decidable (content <+: longer))
  | some _, none => isFalse id

namespace Grown

theorem refl (log : Option Bytes) : Grown log log := by
  cases log with
  | none => trivial
  | some content => exact List.prefix_rfl

theorem trans {first second third : Option Bytes} (before : Grown first second)
    (after : Grown second third) : Grown first third := by
  cases first with
  | none => trivial
  | some content =>
      cases second with
      | none => exact before.elim
      | some longer =>
          cases third with
          | none => exact after.elim
          | some longest => exact List.IsPrefix.trans before after

theorem of_some {content : Bytes} {later : Option Bytes} (grown : Grown (some content) later) :
    ∃ longer, later = some longer ∧ content <+: longer := by
  cases later with
  | none => exact grown.elim
  | some longer => exact ⟨longer, rfl, grown⟩

end Grown

/-- The file system of a log that was never rotated.  Its inode is 1. -/
def logFs (log : Option Bytes) : Fs where
  data := fun _ => log.getD []
  log := log.map fun _ => 1
  one := none
  two := none

/-- How the log stands at each look of a call. -/
structure Watch where
  sight : Look → Option Bytes
  grows : ∀ earlier later : Look, earlier.rank ≤ later.rank → Grown (sight earlier) (sight later)

namespace Watch

@[reducible]
def look (watch : Watch) : Look → Fs := fun moment => logFs (watch.sight moment)

/-- What a call reads: nothing of a log it did not find. -/
def content (watch : Watch) : Bytes :=
  match watch.sight .openLog with
  | none => []
  | some _ => (watch.sight .readLog).getD []

/-- A call that finds no log opens none, and one that fingerprints an empty log reads no line. -/
def Undisturbed (watch : Watch) : Prop :=
  (watch.sight .stat = none → watch.sight .openLog = none) ∧
    (watch.sight .stamp = some [] → linesOf watch.content = [])

instance (watch : Watch) : Decidable watch.Undisturbed :=
  inferInstanceAs (Decidable (_ ∧ _))

/-- A call that finds no log opens none, and where one fingerprints an empty log and reads a line,
the log is still short behind it and has grown when the next call looks. -/
def Calm (watch : Watch) (next : Option Bytes) : Prop :=
  (watch.sight .stat = none → watch.sight .openLog = none) ∧
    (watch.sight .stamp = some [] → linesOf watch.content = [] ∨
      ((watch.sight .refresh).getD []).length < min 256 (next.getD []).length)

instance (watch : Watch) (next : Option Bytes) : Decidable (watch.Calm next) :=
  inferInstanceAs (Decidable (_ ∧ _))

theorem Undisturbed.calm (undisturbed : watch.Undisturbed) (next : Option Bytes) :
    watch.Calm next :=
  ⟨undisturbed.1, fun empty => Or.inl (undisturbed.2 empty)⟩

/-- A log nobody writes to during the call. -/
def still (log : Option Bytes) : Watch where
  sight := fun _ => log
  grows := fun _ _ _ => Grown.refl log

/-- A log that is written right before the given look. -/
def writtenBefore (moment : Look) (before after : Option Bytes) (grown : Grown before after) :
    Watch where
  sight := fun look => if look.rank < moment.rank then before else after
  grows := by
    intro earlier later order
    by_cases first : later.rank < moment.rank
    · simp only [if_pos first, if_pos (order.trans_lt first)]
      exact Grown.refl before
    · by_cases second : earlier.rank < moment.rank
      · simp only [if_neg first, if_pos second]
        exact grown
      · simp only [if_neg first, if_neg second]
        exact Grown.refl after

theorem still_undisturbed (log : Option Bytes) : (still log).Undisturbed := by
  refine ⟨id, ?_⟩
  intro empty
  simp only [still] at empty
  rw [empty]
  rfl

end Watch

section Placed

variable (hash)

/-- The window the fingerprint was taken on is a beginning of the content. -/
structure Stamped (content : Bytes) (state : CursorState) (window : ℕ) : Prop where
  len : state.fingerprintLen = some window
  fits : window ≤ content.length
  narrow : window ≤ 256
  taken : state.fingerprint = hash (content.take window)

/-- The cursor fits the log.  Under a fingerprint of the empty log nothing was read, or there is
an excuse for it. -/
inductive Placed (excused : Prop) : Option Bytes → CursorState → Prop where
  | unseen {log : Option Bytes} {state : CursorState} (inode : state.inode = 0)
      (offset : state.offset = 0) (len : state.fingerprintLen = none) : Placed excused log state
  | seen {content : Bytes} {state : CursorState} {window : ℕ} (inode : state.inode = 1)
      (inside : state.offset ≤ content.length) (stamped : Stamped hash content state window)
      (unread : window = 0 → state.offset = 0 ∨ excused) : Placed excused (some content) state

variable {hash}

theorem Stamped.grow {content longer : Bytes}
    (stamped : Stamped hash content state window) (grown : content <+: longer) :
    Stamped hash longer state window := by
  rcases grown with ⟨more, rfl⟩
  refine ⟨stamped.len, ?_, stamped.narrow, ?_⟩
  · have fits := stamped.fits
    rw [List.length_append]
    omega
  · rw [stamped.taken, List.take_append_of_le_length stamped.fits]

theorem Placed.grow {before after : Option Bytes}
    (placed : Placed hash excused before state) (grown : Grown before after) :
    Placed hash excused after state := by
  cases placed with
  | unseen inode offset len => exact .unseen inode offset len
  | seen inode inside stamped unread =>
      rcases grown.of_some with ⟨longer, rfl, extended⟩
      exact .seen inode (inside.trans extended.length_le) (stamped.grow extended) unread

/-- A fingerprint over a window that is not empty is recognised. -/
theorem Stamped.headMatches {content : Bytes}
    (stamped : Stamped hash content state window) (positive : window ≠ 0) :
    headMatches hash state (content.take 256) = true := by
  have fits := stamped.fits
  have narrow := stamped.narrow
  simp only [Propolis.headMatches, stamped.len, decide_eq_true_eq, List.length_take]
  refine ⟨by omega, ?_⟩
  rw [List.take_take, Nat.min_eq_left narrow, stamped.taken]

theorem headMatches_of_empty_window (len : state.fingerprintLen = some 0)
    (head : Bytes) : headMatches hash state head = false := by
  simp [Propolis.headMatches, len]

end Placed

variable {content : Bytes}

section Detection

@[simp]
theorem logFs_log_some (content : Bytes) : (logFs (some content)).log = some 1 := rfl

@[simp]
theorem logFs_log_none : (logFs none).log = none := rfl

@[simp]
theorem logFs_data (log : Option Bytes) (inode : ℕ) : (logFs log).data inode = log.getD [] := rfl

theorem findGenerations_logFs (log : Option Bytes) (state : CursorState) :
    findGenerations hash (logFs log) state = none := rfl

theorem readHead_of_log {fs : Fs} (found : fs.log = some inode) :
    fs.readHead = some ((fs.data inode).take 256) := by
  simp [Fs.readHead, found, Fs.headOf]

theorem fingerprintWithLen_of_log {fs : Fs} (found : fs.log = some inode) :
    fingerprintWithLen hash fs =
      (hash ((fs.data inode).take 256), min 256 (fs.data inode).length) := by
  simp [fingerprintWithLen, readHead_of_log found]

theorem fingerprintWithLen_logFs (content : Bytes) :
    fingerprintWithLen hash (logFs (some content)) =
      (hash (content.take 256), min 256 content.length) :=
  fingerprintWithLen_of_log rfl

/-- A stamp of the log as it stands. -/
theorem stamped_of_fingerprint (fingerprint : state.fingerprint = hash (content.take 256))
    (len : state.fingerprintLen = some (min 256 content.length)) :
    Stamped hash content state (min 256 content.length) := by
  refine ⟨len, Nat.min_le_right _ _, Nat.min_le_left _ _, ?_⟩
  rw [fingerprint]
  rcases Nat.le_total 256 content.length with long | short
  · rw [Nat.min_eq_left long]
  · rw [Nat.min_eq_right short, List.take_of_length_le short, List.take_of_length_le le_rfl]

/-- What `detect_rotation` says of a cursor that fits the log. -/
theorem detectRotation_of_stamped {stat head : Fs} (found : stat.log = some inode)
    (same : state.inode = inode) (inside : state.offset ≤ (stat.data inode).length)
    (atHead : head.readHead = some (content.take 256))
    (stamped : Stamped hash content state window) :
    detectRotation hash stat head state = .none ∨
      window = 0 ∧ detectRotation hash stat head state = .replaced := by
  simp only [detectRotation, found, same, ne_eq, not_true_eq_false, if_false,
    Nat.not_lt.mpr inside, atHead]
  by_cases empty : window = 0
  · subst empty
    rw [headMatches_of_empty_window stamped.len]
    by_cases still : content.take 256 = []
    · left
      simp [still, stamped.len]
    · right
      simp [still]
  · left
    rw [if_pos (stamped.headMatches empty)]

theorem detectRotation_of_seen (inode : state.inode = 1)
    (inside : state.offset ≤ content.length) (stamped : Stamped hash content state window)
    {stat head : Option Bytes} (before : Grown (some content) stat) (between : Grown stat head) :
    detectRotation hash (logFs stat) (logFs head) state = .none ∨
      window = 0 ∧ detectRotation hash (logFs stat) (logFs head) state = .replaced := by
  rcases before.of_some with ⟨longer, rfl, extended⟩
  rcases between.of_some with ⟨longest, rfl, further⟩
  apply detectRotation_of_stamped (logFs_log_some longer) inode
  · exact inside.trans extended.length_le
  · exact readHead_of_log (logFs_log_some longest)
  · exact stamped.grow (extended.trans further)

end Detection

section Rotation

/-- A tailer with nothing to drain whose cursor fits the log. -/
structure Settled (hash : Bytes → Digest) (excused : Prop) (log : Option Bytes)
    (tailer : LogTailer) : Prop where
  drains : tailer.pendingDrains = []
  placed : Placed hash excused log tailer.state
  unopened : tailer.state.inode = 0 → tailer.file = none

/-- The tailer once it has looked for a rotation: the log is not there, or it is stamped. -/
inductive LookedAt (hash : Bytes → Digest) (watch : Watch) (before after : LogTailer) : Prop where
  | absent (missing : watch.sight .stat = none) (unseen : before.state.inode = 0)
      (same : after = before)
  | present {content : Bytes} {window : ℕ} (found : watch.sight .stamp = some content)
      (inode : after.state.inode = 1) (inside : after.state.offset ≤ content.length)
      (stamped : Stamped hash content after.state window)
      (nonempty : window = 0 → content = [])

/-- A tailer that stamps the log it stands in. -/
theorem lookedAt_of_stamp {before : LogTailer}
    (found : watch.sight .stamp = some content) (inode : tailer.state.inode = 1)
    (inside : tailer.state.offset ≤ content.length) :
    LookedAt hash watch before (tailer.stampFingerprint hash (logFs (watch.sight .stamp))) := by
  rw [found]
  apply LookedAt.present found
  · exact inode
  · exact inside
  · apply stamped_of_fingerprint <;> simp [LogTailer.stampFingerprint, fingerprintWithLen_logFs]
  · intro empty
    apply List.length_eq_zero_iff.mp
    omega

theorem recordLoss_fields (tailer : LogTailer) :
    tailer.recordLoss.state = tailer.state ∧
      tailer.recordLoss.pendingDrains = tailer.pendingDrains ∧
      tailer.recordLoss.uncommitted = tailer.uncommitted ∧
      tailer.recordLoss.resumes = tailer.resumes := by
  rw [LogTailer.recordLoss]
  split <;> exact ⟨rfl, rfl, rfl, rfl⟩

/-- The generations go behind the drains and the log is started over; a loss changes no position. -/
theorem recoverCopytruncated_eq (hash : Bytes → Digest) (recover stamp : Fs) (tailer : LogTailer) :
    let generations := ((findGenerations hash recover tailer.state).getD ([], true)).1
    ∃ queued : LogTailer,
      tailer.recoverCopytruncated hash recover stamp = queued.resetToCurrentFile hash stamp ∧
      queued.state = tailer.state ∧
      queued.pendingDrains = (tailer.queueGenerations generations).pendingDrains ∧
      queued.uncommitted = (tailer.queueGenerations generations).uncommitted ∧
      queued.resumes = (tailer.queueGenerations generations).resumes := by
  refine ⟨_, rfl, ?_⟩
  split
  · exact recordLoss_fields _
  · exact ⟨rfl, rfl, rfl, rfl⟩

/-- Starting the log over, where there is no rotated copy. -/
theorem recoverCopytruncated_logFs (hash : Bytes → Digest) (tailer : LogTailer)
    (recover stamp : Option Bytes) :
    ∃ before : LogTailer, tailer.recoverCopytruncated hash (logFs recover) (logFs stamp) =
        before.resetToCurrentFile hash (logFs stamp) ∧
      before.state = tailer.state ∧ before.pendingDrains = tailer.pendingDrains ∧
      before.uncommitted = tailer.uncommitted := by
  rcases recoverCopytruncated_eq hash (logFs recover) (logFs stamp) tailer with
    ⟨queued, recovers, state, drains, batch, -⟩
  refine ⟨queued, recovers, state, drains.trans ?_, batch.trans ?_⟩ <;>
    simp [findGenerations_logFs, LogTailer.queueGenerations]

/-- The tailer behind `handle_rotation`, ready to read on. -/
structure Rotated (hash : Bytes → Digest) (watch : Watch) (before after : LogTailer) : Prop where
  drains : after.pendingDrains = []
  quiet : after.uncommitted = none
  offset : after.state.offset = before.state.offset
  looked : LookedAt hash watch before after

theorem rotated_of_unseen (settled : Settled hash excused log tailer)
    (quiet : tailer.uncommitted = none) (inode : tailer.state.inode = 0)
    (offset : tailer.state.offset = 0) (len : tailer.state.fingerprintLen = none) :
    Rotated hash watch tailer (tailer.handleRotation hash watch.look) := by
  cases stat : watch.sight .stat with
  | none =>
      have event : detectRotation hash (watch.look .stat) (watch.look .head) tailer.state =
          .none := by
        simp [Watch.look, stat, detectRotation]
      simp only [LogTailer.handleRotation, event, len]
      exact ⟨settled.drains, quiet, rfl, .absent stat inode rfl⟩
  | some content =>
      have event : detectRotation hash (watch.look .stat) (watch.look .head) tailer.state =
          .inodeChanged := by
        simp [Watch.look, stat, detectRotation, inode]
      have later := watch.grows .stat .inode (by decide)
      have stamping := watch.grows .stat .stamp (by decide)
      rw [stat] at later stamping
      rcases later.of_some with ⟨between, atInode, -⟩
      rcases stamping.of_some with ⟨longer, atStamp, -⟩
      simp only [LogTailer.handleRotation, event, LogTailer.queueFile, settled.unopened inode,
        quiet]
      refine ⟨settled.drains, rfl, offset.symm, ?_⟩
      apply lookedAt_of_stamp atStamp
      · simp [Fs.getInode, Watch.look, atInode]
      · exact Nat.zero_le _

theorem rotated_of_seen (drains : tailer.pendingDrains = [])
    (quiet : tailer.uncommitted = none) (inode : tailer.state.inode = 1)
    (inside : tailer.state.offset ≤ content.length)
    (stamped : Stamped hash content tailer.state window)
    (unread : window = 0 → tailer.state.offset = 0 ∨ excused)
    (excuse : excused → tailer.maybeFalsePositiveReplaced (logFs (watch.sight .grown)) = true)
    (grown : Grown (some content) (watch.sight .stat)) :
    Rotated hash watch tailer (tailer.handleRotation hash watch.look) := by
  have between := watch.grows .stat .head (by decide)
  have stamping := grown.trans (watch.grows .stat .stamp (by decide))
  rcases stamping.of_some with ⟨longer, atStamp, extended⟩
  have reach : tailer.state.offset ≤ longer.length := inside.trans extended.length_le
  have stamps : LookedAt hash watch tailer
      (tailer.stampFingerprint hash (logFs (watch.sight .stamp))) :=
    lookedAt_of_stamp atStamp inode reach
  rw [LogTailer.handleRotation]
  rcases detectRotation_of_seen inode inside stamped grown between with event | ⟨empty, event⟩
  · simp only [event, stamped.len]
    by_cases narrow : window < 256 ∧
        window < (fingerprintWithLen hash (logFs (watch.sight .stamp))).2
    · rw [if_pos narrow]
      exact ⟨drains, quiet, rfl, stamps⟩
    · rw [if_neg narrow]
      refine ⟨drains, quiet, rfl, .present atStamp inode reach (stamped.grow extended) ?_⟩
      intro empty
      simp only [atStamp, fingerprintWithLen_logFs] at narrow
      apply List.length_eq_zero_iff.mp
      omega
  · simp only [event]
    by_cases grew : (findGenerations hash (logFs (watch.sight .probe)) tailer.state).isNone ∧
        tailer.maybeFalsePositiveReplaced (logFs (watch.sight .grown))
    · rw [if_pos grew]
      exact ⟨drains, quiet, rfl, stamps⟩
    · rw [if_neg grew]
      have start := (unread empty).resolve_right fun seen => grew ⟨rfl, excuse seen⟩
      rcases recoverCopytruncated_logFs hash tailer (watch.sight .recover)
        (watch.sight .stamp) with ⟨before, recovered, state, sameDrains, batch⟩
      rw [recovered, LogTailer.resetToCurrentFile, batch, quiet]
      refine ⟨sameDrains.trans drains, rfl, start.symm, ?_⟩
      apply lookedAt_of_stamp atStamp
      · rw [state]
        exact inode
      · exact Nat.zero_le _

theorem handleRotation_settled (settled : Settled hash excused log tailer)
    (quiet : tailer.uncommitted = none)
    (excuse : excused → tailer.maybeFalsePositiveReplaced (logFs (watch.sight .grown)) = true)
    (grown : Grown log (watch.sight .stat)) :
    Rotated hash watch tailer (tailer.handleRotation hash watch.look) := by
  cases settled.placed with
  | unseen inode offset len => exact rotated_of_unseen settled quiet inode offset len
  | seen inode inside stamped unread =>
      exact rotated_of_seen settled.drains quiet inode inside stamped unread excuse grown

/-- Positions that are old ones, or the beginning of the log. -/
structure NoFurther (before after : LogTailer) : Prop where
  quiet : after.uncommitted = none
  positions : ∀ offset ∈ after.state.offset :: after.pendingDrains.map Prod.snd,
    offset = 0 ∨ offset ∈ before.state.offset :: before.pendingDrains.map Prod.snd

theorem noFurther_of_same {after : LogTailer} (quiet : after.uncommitted = none)
    (offset : after.state.offset = 0 ∨ after.state.offset = tailer.state.offset)
    (drains : after.pendingDrains = tailer.pendingDrains) : NoFurther tailer after := by
  refine ⟨quiet, ?_⟩
  intro position member
  rcases List.mem_cons.mp member with rfl | drain
  · rcases offset with zero | same
    · exact Or.inl zero
    · rw [same]
      exact Or.inr List.mem_cons_self
  · rw [drains] at drain
    exact Or.inr (List.mem_cons_of_mem _ drain)

theorem recoverCopytruncated_noFurther (quiet : tailer.uncommitted = none)
    (recover stamp : Option Bytes) :
    NoFurther tailer (tailer.recoverCopytruncated hash (logFs recover) (logFs stamp)) := by
  rcases recoverCopytruncated_logFs hash tailer recover stamp with
    ⟨before, recovered, -, drains, batch⟩
  rw [recovered, LogTailer.resetToCurrentFile, batch, quiet]
  exact noFurther_of_same rfl (Or.inl rfl) drains

/-- Looking for a rotation, a tailer stays where it is or goes back to the beginning. -/
theorem handleRotation_noFurther (quiet : tailer.uncommitted = none) (hash : Bytes → Digest)
    (watch : Watch) : NoFurther tailer (tailer.handleRotation hash watch.look) := by
  have stamps : ∀ fs, NoFurther tailer (tailer.stampFingerprint hash fs) :=
    fun fs => noFurther_of_same quiet (Or.inr rfl) rfl
  rw [LogTailer.handleRotation]
  cases detectRotation hash (watch.look .stat) (watch.look .head) tailer.state with
  | none =>
      cases tailer.state.fingerprintLen with
      | none => exact noFurther_of_same quiet (Or.inr rfl) rfl
      | some window =>
          dsimp only
          split
          · exact stamps _
          · exact noFurther_of_same quiet (Or.inr rfl) rfl
  | truncated => exact recoverCopytruncated_noFurther quiet _ _
  | replaced =>
      dsimp only
      split
      · exact stamps _
      · exact recoverCopytruncated_noFurther quiet _ _
  | inodeChanged =>
      simp only [LogTailer.resetToCurrentFile, LogTailer.stampFingerprint, LogTailer.queueFile]
      cases tailer.file with
      | none =>
          apply noFurther_of_same
          · simp [quiet]
          · exact Or.inl rfl
          · rfl
      | some old =>
          refine ⟨by simp [quiet], ?_⟩
          intro position member
          rcases List.mem_cons.mp member with rfl | drain
          · exact Or.inl rfl
          · right
            simp only [List.map_append, List.map_cons, List.map_nil, List.mem_append,
              List.mem_singleton] at drain
            rcases drain with old | rfl
            · exact List.mem_cons_of_mem _ old
            · exact List.mem_cons_self

end Rotation

section Polls

variable {maxLines maxBytes : ℕ}

/-- What a poll reads from where the tailer stands. -/
def Watch.read (watch : Watch) (offset maxLines maxBytes : ℕ) : LineRead :=
  readLinesFrom watch.content offset maxLines ⟨maxBytes, true⟩

/-- The uncommitted batch of one poll. -/
def pollBatch (offset : ℕ) (read : LineRead) : UncommittedRead where
  offset := offset
  drainOffsets := []
  spans := read.spans.map fun bytes => (0, bytes)
  lens := read.lens
  rawLossy := read.rawLossy
  snapshotDrains := 0

/-- A poll of a settled tailer: it reads on from its offset, and settles again. -/
structure PollRead (hash : Bytes → Digest) (watch : Watch) (maxLines maxBytes : ℕ)
    (before : LogTailer) (polled : List TailEntry × LogTailer) : Prop where
  entries : polled.1 = (watch.read before.state.offset maxLines maxBytes).entries
  offset : polled.2.state.offset =
    before.state.offset + (watch.read before.state.offset maxLines maxBytes).consumed
  batch : polled.2.uncommitted =
    some (pollBatch before.state.offset (watch.read before.state.offset maxLines maxBytes))
  settled : ∀ excused, (watch.sight .stamp = some [] → linesOf watch.content = [] ∨ excused) →
    Settled hash excused (watch.sight .refresh) polled.2
  size : watch.sight .stamp = some [] →
    polled.2.lastKnownSize = ((watch.sight .refresh).getD []).length

/-- The cursor still fits once the read has moved it on. -/
theorem Stamped.placed_after_read {stampedContent : Bytes}
    (stamped : Stamped hash stampedContent state window) (grown : stampedContent <+: content)
    (inode : state.inode = 1) (inside : state.offset ≤ stampedContent.length)
    (unread : window = 0 → linesOf content = [] ∨ excused)
    (empty : window = 0 → stampedContent = []) (maxLines : ℕ) (budget : LineBudget) :
    Placed hash excused (some content)
      { state with offset :=
          state.offset + (readLinesFrom content state.offset maxLines budget).consumed } := by
  rcases readLinesFrom_fileRead content state.offset maxLines budget with ⟨taken, read⟩
  apply Placed.seen
  · exact inode
  · rw [read.consumed]
    exact inside_behind read.ahead (inside.trans grown.length_le)
  · exact ⟨stamped.len, (stamped.grow grown).fits, stamped.narrow, (stamped.grow grown).taken⟩
  · intro none
    apply (unread none).imp_left
    intro nothing
    have start : state.offset = 0 := by
      rw [empty none] at inside
      exact Nat.le_zero.mp inside
    simp only [start, readLinesFrom, List.drop_zero, nothing]
    rfl

theorem readEntries_settled (settled : Settled hash excused log tailer)
    (quiet : tailer.uncommitted = none)
    (excuse : excused → tailer.maybeFalsePositiveReplaced (logFs (watch.sight .grown)) = true)
    (grown : Grown log (watch.sight .stat))
    (opens : watch.sight .stat = none → watch.sight .openLog = none) (some : 0 < maxLines) :
    PollRead hash watch maxLines maxBytes tailer
      (tailer.readEntries hash maxLines maxBytes watch.look) := by
  have rotated := handleRotation_settled settled quiet excuse grown
  generalize after : tailer.handleRotation hash watch.look = start at rotated
  have batch : start.snapshot = pollBatch tailer.state.offset {} := by
    simp [LogTailer.snapshot, pollBatch, rotated.quiet, rotated.drains, rotated.offset]
  simp only [LogTailer.readEntries, if_neg (Nat.pos_iff_ne_zero.mp some), after, rotated.drains,
    LogTailer.drainLoop, batch, Nat.not_le.mpr some, Bool.false_eq_true, or_self, if_false,
    Nat.sub_zero, decide_true]
  cases rotated.looked with
  | absent missing unseen same =>
      have closed := opens missing
      have nothing : watch.read tailer.state.offset maxLines maxBytes = {} := by
        simp only [Watch.read, Watch.content, closed]
        exact readLinesFrom_nil _ _ _
      simp only [Watch.look, closed, logFs_log_none]
      refine ⟨?_, ?_, ?_, ?_, ?_⟩
      · rw [nothing]
      · rw [nothing, same]
        rfl
      · rw [nothing]
      · intro later _
        have position := settled.placed
        refine ⟨rfl, ?_, ?_⟩
        · cases position with
          | unseen inode offset len =>
              rw [same]
              exact .unseen inode offset len
          | seen => omega
        · intro _
          rw [same]
          exact settled.unopened unseen
      · intro stamp
        have opening := watch.grows .stamp .openLog (by decide)
        rw [stamp, closed] at opening
        exact opening.elim
  | @present stampedContent window found inode inside stamped nonempty =>
      have opening := watch.grows .stamp .openLog (by decide)
      have reading := watch.grows .stamp .readLog (by decide)
      rw [found] at opening reading
      rcases opening.of_some with ⟨opened, atOpen, -⟩
      rcases reading.of_some with ⟨content, atRead, extended⟩
      have same : watch.content = content := by simp [Watch.content, atOpen, atRead]
      have read : readLinesFrom content start.state.offset maxLines ⟨maxBytes, true⟩ =
          watch.read tailer.state.offset maxLines maxBytes := by
        rw [Watch.read, same, rotated.offset]
      have refreshed := watch.grows .readLog .refresh (by decide)
      rw [atRead] at refreshed
      simp only [Watch.look, atOpen, logFs_log_some, logFs_data, atRead, Option.getD_some, read]
      rw [refreshLastKnownSize_eq]
      refine ⟨rfl, ?_, ?_, ?_, ?_⟩
      · rw [rotated.offset]
      · simp [UncommittedRead.recordRead, pollBatch]
      · intro excused unread
        refine ⟨rfl, ?_, ?_⟩
        · rw [← read]
          refine (stamped.placed_after_read extended inode inside ?_ nonempty maxLines _).grow
            refreshed
          intro empty
          rw [← same]
          apply unread
          rw [found, nonempty empty]
        · intro impossible
          simp [inode] at impossible
      · intro _
        rcases refreshed.of_some with ⟨longer, atRefresh, -⟩
        simp [atRefresh, Fs.logLen]

/-- A log that is still short and has grown is no other file to the next call. -/
theorem PollRead.settled_of_calm {polled : List TailEntry × LogTailer} {next : Option Bytes}
    (read : PollRead hash watch maxLines maxBytes tailer polled) (calm : watch.Calm next) :
    Settled hash (polled.2.maybeFalsePositiveReplaced (logFs next)) (watch.sight .refresh)
      polled.2 := by
  apply read.settled
  intro stamp
  apply (calm.2 stamp).imp_right
  intro grown
  have size := read.size stamp
  rcases next with _ | longer
  · simp at grown
  · simpa [LogTailer.maybeFalsePositiveReplaced, Fs.logLen, size] using grown

end Polls

end Propolis
