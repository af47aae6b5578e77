import Propolis.Ledger.Append
import Propolis.Tailer.Steady
import Propolis.Tailer.Positions

/-!
# The intake runner

`IntakeRunner::run_batch` (`intake/runner.rs`): one batch of the log is read, every
line is sorted by what becomes of it, the replies are stored, the events are
appended, and the tailer is moved over exactly the lines that were dealt with.

Reading a line as an event, and an event as ledger input, is other code: a
`LineReader` says what comes of a line.  Storing replies, the transactions of
`append_events` and the quarantine write have any outcome (`PollEnv`), and the log
grows under every call.

What the runner only reports (the refused line's text and error, the sensors seen,
the time of the last event, why a line could not be quarantined) is left out.
-/

namespace Propolis

open Bytes

/-- What comes of a line: its parse, its stats, its probe source, its conversion. -/
structure LineReader where
  Event : Type
  parse : Bytes → Option Event
  isStats : Event → Bool
  /-- The sensor a well-formed stats event names. -/
  statsSensor : Event → Option Bytes
  sensorName : Bytes
  isProbe : Event → Bool
  /-- The ledger input of an event, and the digest and text of its reply. -/
  convert : Event → Option (EventInput × Option (Bytes × Bytes))
  hashLine : Bytes → ℕ

def minBatchLines : ℕ := 100

def maxBatchLines : ℕ := 1000

def maxBatchBytes : ℕ := 8 * 1024 * 1024

def wedgePolls : ℕ := 3

def nextBatchSize (current linesRead bytesRead : ℕ) (failed : Bool) : ℕ :=
  if failed ∨ linesRead < current then minBatchLines
  else
    let averageLine := max (bytesRead / max linesRead 1) 1
    let byBytes := maxBatchBytes / averageLine
    max (min (min (current * 2) maxBatchLines) byBytes) minBatchLines

/-- A converted line, until the append says how far it got. -/
structure Pending where
  line : ℕ
  lineHash : ℕ

/-- The lines of a batch, sorted. -/
structure SortedLines where
  events : List EventInput := []
  pending : List Pending := []
  rejectedAt : List ℕ := []
  probes : List ℕ := []
  /-- The index into `pending`, the digest and the text of each reply. -/
  replies : List (ℕ × Bytes × Bytes) := []
  statsLines : List ℕ := []

namespace SortedLines

def reject (sorted : SortedLines) (index : ℕ) : SortedLines :=
  { sorted with rejectedAt := sorted.rejectedAt ++ [index] }

/-- The body of the loop over the lines. -/
def push (reader : LineReader) (sorted : SortedLines) (line : Bytes × ℕ) : SortedLines :=
  match reader.parse line.1 with
  | none => sorted.reject line.2
  | some event =>
      if reader.isStats event then
        match reader.statsSensor event with
        | some sensor =>
            if sensor = reader.sensorName then
              { sorted with statsLines := sorted.statsLines ++ [line.2] }
            else sorted.reject line.2
        | none => sorted.reject line.2
      else if reader.isProbe event then { sorted with probes := sorted.probes ++ [line.2] }
      else
        match reader.convert event with
        | some (input, reply) =>
            { sorted with
              replies := sorted.replies ++
                (reply.map fun reply => (sorted.pending.length, reply.1, reply.2)).toList
              pending := sorted.pending ++ [⟨line.2, reader.hashLine line.1⟩]
              events := sorted.events ++ [input] }
        | none => sorted.reject line.2

end SortedLines

def sortLines (reader : LineReader) (lines : List Bytes) : SortedLines :=
  lines.zipIdx.foldl (SortedLines.push reader) {}

/-- The events to append: those before the first whose reply was refused. -/
def SortedLines.appendable (sorted : SortedLines) (storeFailure : Option (ℕ × RepoError)) :
    List EventInput :=
  match storeFailure with
  | some failure => sorted.events.take failure.1
  | none => sorted.events

/-- The lines a batch reached: those before the failed event, or all. -/
def SortedLines.reached (sorted : SortedLines) (lineCount appended : ℕ)
    (failure : Option RepoError) : ℕ :=
  match failure with
  | some _ => (sorted.pending[appended]?.map Pending.line).getD lineCount
  | none => lineCount

/-- The same line refused on consecutive polls. -/
structure Wedge where
  lineHash : ℕ
  polls : ℕ

/-- What a poll meets: how the log stands at each call of the tailer, and the outcome of every
write.  `storeOne` is about the replies one by one, `faults` about the append's transactions. -/
structure PollEnv where
  read : Watch
  storeAll : Option RepoError
  storeOne : ℕ → Option RepoError
  faults : ℕ → Option RepoError
  quarantineWrite : Bool
  quarantineCommit : Watch
  commit : Watch

/-- A transaction of the append over the events in the ledger: all or nothing. -/
def ledgerAtomic (faults : ℕ → Option RepoError) (attempt : ℕ) (ledger slice : List EventInput) :
    List EventInput × Option RepoError :=
  match faults attempt with
  | some error => (ledger, some error)
  | none => (ledger ++ slice, none)

/-- The first reply the store refuses on its own, by its index into `pending`. -/
def firstRefused (storeOne : ℕ → Option RepoError) (replies : List (ℕ × Bytes × Bytes)) :
    Option (ℕ × RepoError) :=
  replies.zipIdx.findSome? fun reply => (storeOne reply.2).map fun error => (reply.1.1, error)

structure RunBatchResult where
  ingested : ℕ := 0
  rejected : ℕ := 0
  probeConfirmations : ℕ := 0
  statsUpdates : ℕ := 0
  errors : ℕ := 0
  quarantined : ℕ := 0

def RunBatchResult.cursorMoved (result : RunBatchResult) : Bool :=
  result.errors = 0 || 0 < result.ingested || 0 < result.rejected ||
    0 < result.probeConfirmations || 0 < result.statsUpdates || 0 < result.quarantined

structure IntakeRunner where
  tailer : LogTailer
  batchSize : ℕ := minBatchLines
  wedge : Option Wedge := none
  /-- Whether there is a quarantine to set a wedged line aside in. -/
  quarantine : Bool

/-- What a batch did: the lines of each fate by their index, the quarantined line with where it
begins and its bytes, the ledger, and the cursor `quarantine_line` saved. -/
structure BatchRun where
  runner : IntakeRunner
  result : RunBatchResult
  lines : List Bytes
  ledger : List EventInput
  offered : List ℕ := []
  appended : List ℕ := []
  rejected : List ℕ := []
  probes : List ℕ := []
  stats : List ℕ := []
  quarantined : Option (ℕ × Bytes) := none
  saved : Option CursorState := none

namespace IntakeRunner

variable (hash : Bytes → Digest) (reader : LineReader)

/-- `note_failure`: the streak, and whether this failure is at or past `WEDGE_POLLS`. -/
def noteFailure (error : RepoError) (failed : Option Pending) (wedge : Option Wedge) :
    Option Wedge × Bool :=
  match failed with
  | some pending =>
      if error.isEventSpecific then
        let polls :=
          match wedge with
          | some streak => if streak.lineHash = pending.lineHash then streak.polls + 1 else 1
          | none => 1
        (some ⟨pending.lineHash, polls⟩, wedgePolls ≤ polls)
      else (wedge, false)
  | none => (wedge, false)

/-- What `quarantine_line` came to. -/
structure Quarantining where
  passed : Bool
  tailer : LogTailer
  record : Option (ℕ × Bytes) := none
  saved : Option CursorState := none

/-- `quarantine_line`: the record is written before the tailer moves. -/
def quarantineLine (env : PollEnv) (quarantine : Bool) (pending : Pending) (line : Bytes)
    (tailer : LogTailer) : Quarantining :=
  if quarantine then
    match tailer.uncommittedLine pending.line with
    | none => ⟨false, tailer, none, none⟩
    | some place =>
        if env.quarantineWrite then
          let record := some (place.1, place.2.getD line)
          match tailer.commitBatchThrough hash (pending.line + 1) env.quarantineCommit.look with
          | (true, moved) => ⟨true, moved, record, some moved.persistCursor⟩
          | (false, _) => ⟨false, tailer, record, none⟩
        else ⟨false, tailer, none, none⟩
  else ⟨false, tailer, none, none⟩

/-- Behind a failure the tailer is moved over the lines reached, or back to the batch's start. -/
def acceptReached (env : PollEnv) (reached : ℕ) (tailer : LogTailer) : LogTailer :=
  if reached = 0 then tailer.rewindBatch
  else
    match tailer.commitBatchThrough hash reached env.commit.look with
    | (true, moved) => moved
    | (false, _) => tailer.rewindBatch

/-- A line refused on enough polls in a row is set aside in the call that notices. -/
def setAside (env : PollEnv) (wedged : Bool) (failed : Option Pending) (lines : List Bytes)
    (runner : IntakeRunner) : Quarantining :=
  match failed with
  | some pending =>
      if wedged then
        quarantineLine hash env runner.quarantine pending (lines.getD pending.line [])
          runner.tailer
      else ⟨false, runner.tailer, none, none⟩
  | none => ⟨false, runner.tailer, none, none⟩

/-- The end of a batch that failed. -/
def stopBatch (env : PollEnv) (reached bytesRead : ℕ) (wedge : Option Wedge) (set : Quarantining)
    (run : BatchRun) : BatchRun :=
  { run with
    result := { run.result with errors := 1, quarantined := if set.passed then 1 else 0 }
    quarantined := set.record
    saved := set.saved
    runner :=
      { run.runner with
        tailer := if set.passed then set.tailer else acceptReached hash env reached set.tailer
        wedge := if set.passed then none else wedge
        batchSize := nextBatchSize run.runner.batchSize run.lines.length bytesRead true } }

/-- `run_batch` once the replies are stored; `storeFailure` is the first that was refused. -/
def finishBatch (env : PollEnv) (ledger : List EventInput) (lines : List Bytes)
    (sorted : SortedLines) (storeFailure : Option (ℕ × RepoError)) (bytesRead : ℕ)
    (runner : IntakeRunner) : BatchRun :=
  let events := sorted.appendable storeFailure
  let outcome := appendEventsWith (ledgerAtomic env.faults) ledger events
  let appended := outcome.2.appended
  let failure := outcome.2.failure <|> storeFailure.map Prod.snd
  let reached := sorted.reached lines.length appended failure
  let rejected := sorted.rejectedAt.filter (· < reached)
  let probes := sorted.probes.filter (· < reached)
  let stats := sorted.statsLines.filter (· < reached)
  let run : BatchRun :=
    { runner, lines, ledger := outcome.1, rejected, probes, stats
      offered := (sorted.pending.take events.length).map Pending.line
      appended := (sorted.pending.take appended).map Pending.line
      result :=
        { ingested := (sorted.pending.take appended).length
          rejected := rejected.length
          probeConfirmations := probes.length
          statsUpdates := stats.length } }
  match failure with
  | none =>
      { run with
        runner :=
          { runner with
            tailer := runner.tailer.commitBatch
            wedge := none
            batchSize := nextBatchSize runner.batchSize lines.length bytesRead false } }
  | some error =>
      let failed := sorted.pending[appended]?
      let noted := noteFailure error failed runner.wedge
      stopBatch hash env reached bytesRead noted.1 (setAside hash env noted.2 failed lines runner)
        run

def runBatch (env : PollEnv) (ledger : List EventInput) (runner : IntakeRunner) : BatchRun :=
  let read := runner.tailer.readBatchBounded hash runner.batchSize maxBatchBytes env.read.look
  let lines := read.1
  let reading := { runner with tailer := read.2 }
  let sorted := sortLines reader lines
  let bytesRead := (lines.map List.length).sum
  if sorted.replies = [] ∨ env.storeAll = none then
    finishBatch hash env ledger lines sorted none bytesRead reading
  else
    match firstRefused env.storeOne sorted.replies with
    | some failure => finishBatch hash env ledger lines sorted (some failure) bytesRead reading
    | none =>
        -- A failure that does not show reply by reply: nothing is appended, and it is read again.
        { lines, ledger, result := { errors := 1 }
          runner :=
            { reading with
              tailer := read.2.rewindBatch
              batchSize := nextBatchSize runner.batchSize lines.length bytesRead true } }

end IntakeRunner

end Propolis
