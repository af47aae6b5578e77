import Propolis.Lib.Lines
import Propolis.Lib.Utf8
import Propolis.Wire.Frame

/-!
# The log tailer

`LogTailer` with rotation (`tailer.rs`, `cursor.rs`): the cursor with its
fingerprint, the queue of rotated-out files still being drained, the positions an
uncommitted batch goes back to, and the search for the generation a stored
position points into among `<log>.1` and `<log>.2`.

A call looks at the file system several times and the log may change between two
looks: `Look` names them in the order a call makes them, and every operation takes
the file system as it stands at each.  A file is an inode number, which is also
what an open descriptor is; number zero is never a file.

Compressed copies (`<log>.2.gz`) are left out: there is none, so the search ends
behind `<log>.2`.  The reason a copy was refused is only logged.
-/

namespace Propolis

open Bytes

/-- The files under a log path. -/
structure Fs where
  data : ℕ → Bytes
  log : Option ℕ
  one : Option ℕ
  two : Option ℕ

/-- The looks of one call at the file system, in order. -/
inductive Look where
  | stat | head | probe | grown | recover | inode | stamp | drain | openLog | readLog | refresh
  deriving DecidableEq

def Look.rank : Look → ℕ
  | stat => 0
  | head => 1
  | probe => 2
  | grown => 3
  | recover => 4
  | inode => 5
  | stamp => 6
  | drain => 7
  | openLog => 8
  | readLog => 9
  | refresh => 10

structure CursorState where
  inode : ℕ
  offset : ℕ
  fingerprint : Digest
  fingerprintLen : Option ℕ
  deriving DecidableEq

inductive RotationEvent where
  | none | truncated | inodeChanged | replaced
  deriving DecidableEq

namespace Fs

/-- The length of the log file; `none` where `metadata` fails. -/
def logLen (fs : Fs) : Option ℕ :=
  fs.log.map fun inode => (fs.data inode).length

def getInode (fs : Fs) : ℕ :=
  fs.log.getD 0

/-- The first up to 256 bytes of a file. -/
def headOf (fs : Fs) (inode : ℕ) : Bytes :=
  (fs.data inode).take 256

def readHead (fs : Fs) : Option Bytes :=
  fs.log.map fs.headOf

end Fs

section Fingerprints

variable (hash : Bytes → Digest)

/-- Whether `head` carries the stored fingerprint over the window it was taken on. -/
def headMatches (state : CursorState) (head : Bytes) : Bool :=
  match state.fingerprintLen with
  | none => hash head = state.fingerprint
  | some 0 => false
  | some window => window ≤ head.length ∧ hash (head.take window) = state.fingerprint

def fingerprintWithLen (fs : Fs) : Digest × ℕ :=
  match fs.readHead with
  | some head => (hash head, head.length)
  | none => (zeroHash, 0)

def detectRotation (stat head : Fs) (state : CursorState) : RotationEvent :=
  match stat.log with
  | none => .none
  | some inode =>
      if inode ≠ state.inode then .inodeChanged
      else if (stat.data inode).length < state.offset then .truncated
      else
        match head.readHead with
        | some bytes =>
            if headMatches hash state bytes then .none
            -- A file that was empty when stamped is unchanged while it is still empty.
            else if state.fingerprintLen = some 0 ∧ bytes = [] then .none
            else .replaced
        | none => .replaced

/-- One rotated generation to read. -/
structure Generation where
  inode : ℕ
  offset : ℕ
  fingerprint : Digest
  fingerprintLen : ℕ
  isStored : Bool

/-- The copy, if it is the generation the state points into. -/
def storedIn (fs : Fs) (state : CursorState) (copy : Option ℕ) : Option ℕ :=
  copy.filter fun inode =>
    headMatches hash state (fs.headOf inode) && state.offset ≤ (fs.data inode).length

/-- The stored generation from the read offset on, if anything is left of it. -/
def storedGeneration (fs : Fs) (state : CursorState) (inode : ℕ) : List Generation :=
  if state.offset < (fs.data inode).length then
    [{ inode, offset := state.offset, fingerprint := state.fingerprint,
       fingerprintLen := state.fingerprintLen.getD (fs.headOf inode).length, isStored := true }]
  else []

/-- A generation rotated after the stored one, from its beginning. -/
def newerGeneration (fs : Fs) (inode : ℕ) : List Generation :=
  if 0 < (fs.data inode).length then
    [{ inode, offset := 0, fingerprint := hash (fs.headOf inode),
       fingerprintLen := (fs.headOf inode).length, isStored := false }]
  else []

/-- The generations to read, oldest first, and whether one behind the stored one is missing. -/
def findGenerations (fs : Fs) (state : CursorState) : Option (List Generation × Bool) :=
  match storedIn hash fs state fs.one with
  | some inode => some (storedGeneration fs state inode, false)
  | none =>
      match storedIn hash fs state fs.two with
      | some inode =>
          match fs.one with
          | some newer =>
              some (storedGeneration fs state inode ++ newerGeneration hash fs newer, false)
          | none => some (storedGeneration fs state inode, true)
      | none => none

end Fingerprints

section Reading

def maxLineBytes : ℕ := 1024 * 1024

inductive TailEntry where
  | line (text : Bytes)
  | discarded (bytes : ℕ)
  deriving DecidableEq

def TailEntry.text : TailEntry → Option Bytes
  | .line text => some text
  | .discarded _ => none

structure LineBudget where
  left : ℕ
  firstIsFree : Bool

structure LineRead where
  entries : List TailEntry := []
  consumed : ℕ := 0
  lineBytes : ℕ := 0
  budgetHit : Bool := false
  spans : List ℕ := []
  lens : List ℕ := []
  rawLossy : List (ℕ × Bytes) := []
  deriving DecidableEq

/-- The loop of `read_lines_from` over the complete lines ahead.  `lines` and `lineBytes` are the
lines and bytes accepted so far, `discarded` the over-length bytes since the last of them. -/
def readLinesLoop (maxLines : ℕ) (budget : LineBudget) :
    List Bytes → (lines lineBytes discarded : ℕ) → LineRead
  | [], _, _, _ => {}
  | line :: rest, lines, lineBytes, discarded =>
      if maxLines ≤ lines then {}
      else if line.length ≤ maxLineBytes then
        -- The first line of a batch always goes through.
        if ¬(budget.firstIsFree ∧ lines = 0) ∧ budget.left < lineBytes + (line.length + 1) then
          { budgetHit := true }
        else
          let read := readLinesLoop maxLines budget rest (lines + 1)
            (lineBytes + (line.length + 1)) 0
          { read with
            entries := .line (lossy line) :: read.entries
            consumed := line.length + 1 + read.consumed
            lineBytes := line.length + 1 + read.lineBytes
            spans := (discarded + (line.length + 1)) :: read.spans
            lens := (line.length + 1) :: read.lens
            rawLossy := if lossy line = line then read.rawLossy
              else (lines, line) :: read.rawLossy }
      else
        let read := readLinesLoop maxLines budget rest lines lineBytes
          (discarded + (line.length + 1))
        { read with
          entries := .discarded (line.length + 1) :: read.entries
          consumed := line.length + 1 + read.consumed }

/-- `read_lines_from`.  An incomplete trailing line stays unread.  A file that grows under the
loop is read as it stands where the loop first meets its end. -/
def readLinesFrom (content : Bytes) (startOffset maxLines : ℕ) (budget : LineBudget) : LineRead :=
  readLinesLoop maxLines budget (linesOf (content.drop startOffset)) 0 0 0

def countLines (entries : List TailEntry) : ℕ :=
  (entries.filterMap TailEntry.text).length

end Reading

structure UncommittedRead where
  offset : ℕ
  drainOffsets : List ℕ
  exhausted : List ℕ := []
  spans : List (ℕ × ℕ) := []
  lens : List ℕ := []
  rawLossy : List (ℕ × Bytes) := []
  snapshotDrains : ℕ
  spansValid : Bool := true
  deriving DecidableEq

def UncommittedRead.recordRead (uncommitted : UncommittedRead) (source : ℕ) (read : LineRead) :
    UncommittedRead :=
  { uncommitted with
    spans := uncommitted.spans ++ read.spans.map fun bytes => (source, bytes)
    lens := uncommitted.lens ++ read.lens
    rawLossy := uncommitted.rawLossy ++
      read.rawLossy.map fun raw => (uncommitted.spans.length + raw.1, raw.2) }

/-- Input a truncation took that no rotated copy could supply. -/
structure RotationLoss where
  events : ℕ := 0
  bytesEstimated : ℕ := 0
  deriving DecidableEq

structure LogTailer where
  state : CursorState
  file : Option ℕ := none
  pendingDrains : List (ℕ × ℕ) := []
  lastKnownSize : ℕ
  uncommitted : Option UncommittedRead := none
  sizeObserved : Bool := false
  resumes : List (ℕ × Digest × ℕ) := []
  loss : RotationLoss := {}
  deriving DecidableEq

/-- What a batch has read so far. -/
structure BatchProgress where
  entries : List TailEntry := []
  lineCount : ℕ := 0
  bytesTaken : ℕ := 0
  budgetHit : Bool := false

namespace LogTailer

def withState (fs : Fs) (state : CursorState) : LogTailer :=
  { state, lastKnownSize := fs.logLen.getD 0 }

/-- `LogTailer::new` with the persisted cursor, or the zero state without one. -/
def new (fs : Fs) (saved : Option CursorState) : LogTailer :=
  withState fs (saved.getD ⟨0, 0, zeroHash, none⟩)

section Rotation

variable (hash : Bytes → Digest)

def stampFingerprint (stamp : Fs) (tailer : LogTailer) : LogTailer :=
  let taken := fingerprintWithLen hash stamp
  { tailer with
    state := { tailer.state with fingerprint := taken.1, fingerprintLen := some taken.2 } }

def resetToCurrentFile (stamp : Fs) (tailer : LogTailer) : LogTailer :=
  stampFingerprint hash stamp
    { tailer with
      state := { tailer.state with offset := 0 }
      uncommitted := tailer.uncommitted.map fun uncommitted => { uncommitted with offset := 0 }
      file := none }

def maybeFalsePositiveReplaced (grown : Fs) (tailer : LogTailer) : Bool :=
  tailer.lastKnownSize < 256 && (grown.logLen.any fun len => tailer.lastKnownSize < len)

def recordLoss (tailer : LogTailer) : LogTailer :=
  let estimate := tailer.lastKnownSize - tailer.state.offset
  if tailer.sizeObserved ∧ estimate = 0 then tailer
  else
    { tailer with
      loss :=
        { events := tailer.loss.events + 1
          bytesEstimated := tailer.loss.bytesEstimated +
            if tailer.sizeObserved then estimate else 0 } }

/-- Queues generations behind the drains; a rewind takes the stored one back to where the batch
began reading it. -/
def queueGenerations (generations : List Generation) (tailer : LogTailer) : LogTailer :=
  let queued := tailer.pendingDrains.map Prod.fst
  { tailer with
    pendingDrains := tailer.pendingDrains ++ generations.map fun gen => (gen.inode, gen.offset)
    resumes := tailer.resumes.filter (fun resume => resume.1 ∈ queued) ++
      generations.map fun gen => (gen.inode, gen.fingerprint, gen.fingerprintLen)
    uncommitted := tailer.uncommitted.map fun uncommitted =>
      { uncommitted with
        drainOffsets := uncommitted.drainOffsets ++
          generations.map fun gen => if gen.isStored then uncommitted.offset else 0 } }

def recoverCopytruncated (recover stamp : Fs) (tailer : LogTailer) : LogTailer :=
  let found := (findGenerations hash recover tailer.state).getD ([], true)
  let queued := tailer.queueGenerations found.1
  resetToCurrentFile hash stamp (if found.2 then queued.recordLoss else queued)

/-- The rotated-out file goes to the drains with the position reading of it stands at. -/
def queueFile (tailer : LogTailer) : LogTailer :=
  match tailer.file with
  | some old =>
      { tailer with
        file := none
        pendingDrains := tailer.pendingDrains ++ [(old, tailer.state.offset)]
        uncommitted := tailer.uncommitted.map fun uncommitted =>
          { uncommitted with drainOffsets := uncommitted.drainOffsets ++ [uncommitted.offset] } }
  | none => tailer

def handleRotation (look : Look → Fs) (tailer : LogTailer) : LogTailer :=
  match detectRotation hash (look .stat) (look .head) tailer.state with
  | .none =>
      -- A window narrower than a full fingerprint is widened once the file has grown past it.
      match tailer.state.fingerprintLen with
      | some window =>
          if window < 256 ∧ window < (fingerprintWithLen hash (look .stamp)).2 then
            tailer.stampFingerprint hash (look .stamp)
          else tailer
      | none => tailer
  | .truncated => tailer.recoverCopytruncated hash (look .recover) (look .stamp)
  | .replaced =>
      if (findGenerations hash (look .probe) tailer.state).isNone ∧
          tailer.maybeFalsePositiveReplaced (look .grown) then
        tailer.stampFingerprint hash (look .stamp)
      else tailer.recoverCopytruncated hash (look .recover) (look .stamp)
  | .inodeChanged =>
      let queued := tailer.queueFile
      resetToCurrentFile hash (look .stamp)
        { queued with state := { queued.state with inode := (look .inode).getInode } }

end Rotation

section Batches

variable (hash : Bytes → Digest)

/-- The uncommitted batch a read joins, or a new one from the positions of this moment. -/
def snapshot (tailer : LogTailer) : UncommittedRead :=
  match tailer.uncommitted with
  | some uncommitted => { uncommitted with spansValid := false }
  | none =>
      { offset := tailer.state.offset
        drainOffsets := tailer.pendingDrains.map Prod.snd
        snapshotDrains := tailer.pendingDrains.length }

/-- The drains, oldest first, each to exhaustion before the next. -/
def drainLoop (fs : Fs) (maxLines maxBytes : ℕ) :
    List (ℕ × ℕ) → UncommittedRead → BatchProgress →
      List (ℕ × ℕ) × UncommittedRead × BatchProgress
  | [], uncommitted, progress => ([], uncommitted, progress)
  | (inode, offset) :: rest, uncommitted, progress =>
      if maxLines ≤ progress.lineCount ∨ progress.budgetHit then
        ((inode, offset) :: rest, uncommitted, progress)
      else
        let want := maxLines - progress.lineCount
        let read := readLinesFrom (fs.data inode) offset want
          ⟨maxBytes - progress.bytesTaken, progress.lineCount = 0⟩
        let recorded := uncommitted.recordRead uncommitted.exhausted.length read
        let taken : BatchProgress :=
          { entries := progress.entries ++ read.entries
            lineCount := progress.lineCount + countLines read.entries
            bytesTaken := progress.bytesTaken + read.lineBytes
            budgetHit := read.budgetHit }
        if countLines read.entries < want ∧ ¬read.budgetHit then
          drainLoop fs maxLines maxBytes rest
            { recorded with exhausted := recorded.exhausted ++ [inode] } taken
        else ((inode, offset + read.consumed) :: rest, recorded, taken)

def refreshLastKnownSize (fs : Fs) (tailer : LogTailer) : LogTailer :=
  match fs.logLen with
  | some len => { tailer with lastKnownSize := len, sizeObserved := true }
  | none => tailer

def readEntries (maxLines maxBytes : ℕ) (look : Look → Fs) (tailer : LogTailer) :
    List TailEntry × LogTailer :=
  if maxLines = 0 then ([], tailer)
  else
    let rotated := tailer.handleRotation hash look
    let drained := drainLoop (look .drain) maxLines maxBytes rotated.pendingDrains
      rotated.snapshot {}
    let progress := drained.2.2
    let after :=
      { rotated with pendingDrains := drained.1, uncommitted := some drained.2.1 }
    if maxLines ≤ progress.lineCount ∨ progress.budgetHit then
      (progress.entries, after.refreshLastKnownSize (look .refresh))
    else
      match (look .openLog).log with
      | none => (progress.entries, after)
      | some inode =>
          let read := readLinesFrom ((look .readLog).data inode) after.state.offset
            (maxLines - progress.lineCount)
            ⟨maxBytes - progress.bytesTaken, progress.lineCount = 0⟩
          (progress.entries ++ read.entries,
            refreshLastKnownSize (look .refresh)
              { after with
                state := { after.state with offset := after.state.offset + read.consumed }
                uncommitted := some (drained.2.1.recordRead drained.2.1.snapshotDrains read)
                file := some inode })

def readBatchBounded (maxLines maxBytes : ℕ) (look : Look → Fs) (tailer : LogTailer) :
    List Bytes × LogTailer :=
  let read := tailer.readEntries hash maxLines maxBytes look
  (read.1.filterMap TailEntry.text, read.2)

/-- `read_batch`: the byte budget is `u64::MAX`. -/
def readBatch (maxLines : ℕ) (look : Look → Fs) (tailer : LogTailer) : List Bytes × LogTailer :=
  tailer.readBatchBounded hash maxLines (2 ^ 64 - 1) look

def commitBatch (tailer : LogTailer) : LogTailer :=
  { tailer with uncommitted := none }

def rewindBatch (tailer : LogTailer) : LogTailer :=
  match tailer.uncommitted with
  | none => tailer
  | some uncommitted =>
      let kept := (tailer.pendingDrains.zip
        (uncommitted.drainOffsets.drop uncommitted.exhausted.length)).map
          fun slot => (slot.1.1, slot.2)
      -- `zip` leaves the offsets of slots past its shorter side alone.
      let queue := kept ++ tailer.pendingDrains.drop kept.length
      { tailer with
        uncommitted := none
        pendingDrains := uncommitted.exhausted.zip uncommitted.drainOffsets ++ queue
        state := { tailer.state with offset := uncommitted.offset } }

/-- Moves the positions over the given spans, each `(source, bytes)`. -/
def advanceSpans (snapshotDrains : ℕ) (spans : List (ℕ × ℕ)) (tailer : LogTailer) : LogTailer :=
  spans.foldl (fun tailer span =>
    if span.1 < snapshotDrains then
      { tailer with
        pendingDrains := tailer.pendingDrains.modify span.1 fun drain =>
          (drain.1, drain.2 + span.2) }
    else { tailer with state := { tailer.state with offset := tailer.state.offset + span.2 } })
    tailer

/-- `commit_batch_through`; `false` where it refuses and changes nothing. -/
def commitBatchThrough (lines : ℕ) (look : Look → Fs) (tailer : LogTailer) : Bool × LogTailer :=
  match tailer.uncommitted with
  | none => (false, tailer)
  | some uncommitted =>
      if ¬uncommitted.spansValid ∨ uncommitted.spans.length < lines then (false, tailer)
      else
        let changed : Bool :=
          match detectRotation hash (look .stat) (look .head) tailer.state with
          | .truncated => true
          | .replaced => !tailer.maybeFalsePositiveReplaced (look .grown)
          | .none | .inodeChanged => false
        if changed ∧ (findGenerations hash (look .probe) tailer.state).isNone then (false, tailer)
        else
          (true, tailer.rewindBatch.advanceSpans uncommitted.snapshotDrains
            (uncommitted.spans.take lines))

/-- Where a line of the uncommitted batch began, and its bytes if they are not text. -/
def uncommittedLine (index : ℕ) (tailer : LogTailer) : Option (ℕ × Option Bytes) := do
  let uncommitted ← tailer.uncommitted
  if ¬uncommitted.spansValid ∨ uncommitted.lens.length ≠ uncommitted.spans.length then none
  else
    let span ← uncommitted.spans[index]?
    let len ← uncommitted.lens[index]?
    let before := ((uncommitted.spans.take index).filter (·.1 = span.1)).map Prod.snd
    let base ← if span.1 < uncommitted.snapshotDrains then uncommitted.drainOffsets[span.1]?
      else some uncommitted.offset
    some (base + before.sum + (span.2 - len),
      (uncommitted.rawLossy.find? (·.1 = index)).map Prod.snd)

/-- What `persist_cursor` saves: the front drain's position while a rotated copy is drained. -/
def persistCursor (tailer : LogTailer) : CursorState :=
  let resumable : Option CursorState := do
    let front ← tailer.pendingDrains.head?
    let resume ← tailer.resumes.find? (·.1 = front.1)
    some { inode := tailer.state.inode, offset := front.2, fingerprint := resume.2.1,
           fingerprintLen := some resume.2.2 }
  resumable.getD tailer.state

end Batches

end LogTailer

end Propolis
