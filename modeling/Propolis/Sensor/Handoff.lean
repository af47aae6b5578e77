import Propolis.Lib.Digits
import Propolis.Lib.Sha256
import Propolis.Sensor.Emitter

/-!
# The capture hand-off

`CaptureHandoff` (`sensor-framework/handoff.rs`): any number of tasks submit captures and events
to a bounded queue, one worker takes them in order, and a drain ends it.  A step is one atomic
operation of a task, of the worker or of the drain.

What `process_job` does with a job is the list of its effects; what the spool, the outbox and the
emitter answer, and the ids it mints, are what the job meets.  `sanitize_value` is a parameter, and
so is the builder of a job, which may panic.
-/

namespace Propolis.Sensor

open Bytes

section Jobs

/-- A body charged to the budget of the sensor; exhausted when there was no room for more of it. -/
structure CaptureBody where
  bytes : Bytes
  exhausted : Bool

structure CaptureJob where
  body : CaptureBody
  origName : String
  /-- `none`: the builder panics. -/
  eventBuilder : SampleRef → Option SensorEvent

inductive Work where
  | capture (job : CaptureJob)
  | event (event : SensorEvent)

structure Queued where
  work : Work
  arrival : Option Arrival

inductive SpoolError where
  | fileSizeExceeded | budgetExhausted | hashMismatch | invalidHash | notRegularFile | io
  deriving DecidableEq

def SpoolError.notStoredReason : SpoolError → String
  | .budgetExhausted => "spool_full"
  | .fileSizeExceeded => "file_too_large"
  | .hashMismatch | .notRegularFile => "spool_entry_invalid"
  | .invalidHash | .io => "spool_error"

inductive CustodyState where
  | pending | durable
  deriving DecidableEq

inductive CustodyDisposition where
  | pending | complete
  deriving DecidableEq

structure ManifestRow where
  collectorId : String
  captureId : Uuid
  occurrenceId : Uuid
  sha256 : String
  size : ℕ
  bodyKey : String
  gatewaySpoolState : CustodyState
  casState : CustodyState
  custodyState : CustodyDisposition
  deriving DecidableEq

def maxOrigNameLen : ℕ := 255

def endReasonCaptureMemoryBudget : String := "capture_memory_budget"

/-- What a job meets when it is processed. -/
structure JobInputs where
  /-- `store` answers with a capture id, or refuses the body. -/
  stored : Except SpoolError Uuid
  occurrenceId : Uuid
  /-- The outbox write succeeds. -/
  manifested : Bool
  suppressed : Bool
  minted : Uuid
  /-- `append` returns `Ok`. -/
  appended : Bool

/-- What the worker does for a job. -/
inductive Effect where
  | store (sha256 : String) (answer : Except SpoolError Uuid)
  | countSpoolRefused
  | manifest (row : ManifestRow) (succeeds : Bool)
  | append (call : AppendCall) (succeeds : Bool)

def Effect.isAppend : Effect → Bool
  | .append _ _ => true
  | _ => false

def hexDigest (digest : Digest) : String :=
  String.ofList (digest.1.flatMap fun byte =>
    [Nat.digitChar (byte.toNat / 16), Nat.digitChar (byte.toNat % 16)])

/-- `QuarantineSpool::describe`. -/
def describe (body : Bytes) : SampleRef :=
  ⟨hexDigest (sha256 body), body.length, "", none⟩

def markNotStored (event : SensorEvent) (seen : SampleRef) (error : SpoolError) : SensorEvent :=
  { event with
    sample := none
    metadata := event.metadata |>.insert "stored" (.bool false)
      |>.insert "not_stored_reason" (.string error.notStoredReason)
      |>.insertIfAbsent "sha256" (.string seen.sha256)
      |>.insertIfAbsent "size" (.number (.posInt (.ofNat seen.size)))
      |>.insertIfAbsent "orig_name" (.string seen.origName) }

def markBudgetTruncated (metadata : Json) : Json :=
  metadata |>.insert "truncated" (.bool true) |>.insert "complete" (.bool false)
    |>.insert "end_reason" (.string endReasonCaptureMemoryBudget)

variable (sanitize : String → ℕ → String) (collectorId : String)

/-- What the builder is given. -/
def CaptureJob.sample (job : CaptureJob) (inputs : JobInputs) : SampleRef :=
  { describe job.body.bytes with
    origName := sanitize job.origName maxOrigNameLen
    captureId := inputs.stored.toOption }

/-- The event of a capture, before it has an id; none if the builder panics. -/
def CaptureJob.event (job : CaptureJob) (inputs : JobInputs) : Option SensorEvent :=
  (job.eventBuilder (job.sample sanitize inputs)).map fun built =>
    let event := match inputs.stored with
      | .ok _ => built
      | .error error => markNotStored built (job.sample sanitize inputs) error
    if job.body.exhausted then { event with metadata := markBudgetTruncated event.metadata }
    else event

/-- The custody record of an event, if it names a capture. -/
def manifestRow (event : SensorEvent) (occurrenceId : Uuid) : Option ManifestRow :=
  match event.sample with
  | none => none
  | some sample => sample.captureId.map fun captureId =>
      ⟨collectorId, captureId, occurrenceId, sample.sha256, sample.size, sample.sha256, .pending,
        .pending, .pending⟩

def countRefusal : Except SpoolError Uuid → List Effect
  | .ok _ => []
  | .error _ => [.countSpoolRefused]

/-- `process_job`, once the event of a capture is built. -/
def reportCapture (arrival : Option Arrival) (inputs : JobInputs) (event : SensorEvent) :
    List Effect :=
  let event := { event with occurrenceId := some inputs.occurrenceId }
  countRefusal inputs.stored ++
    ((manifestRow collectorId event inputs.occurrenceId).toList.map fun row =>
      .manifest row inputs.manifested) ++
    [.append ⟨event, inputs.suppressed, inputs.minted, arrival⟩ inputs.appended]

def processJob (queued : Queued) (inputs : JobInputs) : List Effect :=
  match queued.work with
  | .event event =>
      [.append ⟨event, inputs.suppressed, inputs.minted, queued.arrival⟩ inputs.appended]
  | .capture job =>
      .store (describe job.body.bytes).sha256 inputs.stored ::
        match job.event sanitize inputs with
        | none => []
        | some event => reportCapture collectorId queued.arrival inputs event

end Jobs

section Machine

/-- Why a submission is refused. -/
inductive Refusal where
  | empty | closing | full | closed
  deriving DecidableEq

/-- Where a call of `submit` or `submit_event` stands. -/
inductive CallPhase where
  | entered
  /-- The closing flag was read, and was not set. -/
  | passed
  /-- The queue was full; the drop is not counted yet. -/
  | full
  /-- The job is queued; that its body was cut short is not counted yet. -/
  | queued
  | returned (result : Except Refusal Unit)
  deriving DecidableEq

structure Call where
  queued : Queued
  phase : CallPhase

namespace Call

def exhausted (call : Call) : Bool :=
  match call.queued.work with
  | .capture job => job.body.exhausted
  | .event _ => false

def isEmpty (call : Call) : Bool :=
  match call.queued.work with
  | .capture job => job.body.bytes.isEmpty
  | .event _ => false

def isReturned (call : Call) : Bool :=
  match call.phase with
  | .returned _ => true
  | _ => false

end Call

inductive Worker where
  | notStarted
  /-- In `select!`, between jobs or in one. -/
  | selecting
  /-- After `close`, taking what is left. -/
  | draining
  | exited
  /-- Panicked or aborted. -/
  | failed
  deriving DecidableEq

inductive DrainOutcome where
  | drained | timedOut | workerFailed | notRunning
  deriving DecidableEq

inductive DrainPhase where
  | idle
  /-- The closing flag is set. -/
  | flagged
  /-- The worker's handle is taken. -/
  | handled
  /-- The worker is notified. -/
  | awaiting
  | reported (outcome : DrainOutcome)
  deriving DecidableEq

/-- The job the worker is in, and what it has yet to do for it. -/
structure InProgress where
  call : ℕ
  inputs : JobInputs
  effects : List Effect

structure Handoff where
  calls : List Call
  queue : List (ℕ × Queued)
  closing : Bool
  receiverClosed : Bool
  /-- The permit `notify_one` leaves. -/
  permit : Bool
  worker : Worker
  current : Option InProgress
  drain : DrainPhase
  dropped : ℕ
  truncated : ℕ
  refused : ℕ
  spoolRefused : ℕ
  /-- The calls whose jobs were queued, in order. -/
  accepted : List ℕ
  processed : List (ℕ × JobInputs)
  log : List (ℕ × Effect)

def Handoff.initial : Handoff :=
  ⟨[], [], false, false, false, .notStarted, none, .idle, 0, 0, 0, 0, [], [], []⟩

inductive HandoffAction where
  | call (queued : Queued)
  | advance (call : ℕ)
  | start
  | receive (inputs : JobInputs)
  | notice
  | work
  | fail
  | drain
  | timeOut

namespace Handoff

variable (sanitize : String → ℕ → String) (collectorId : String) (capacity : ℕ)
  (handoff : Handoff)

def setPhase (id : ℕ) (call : Call) (phase : CallPhase) : Handoff :=
  { handoff with calls := handoff.calls.set id { call with phase := phase } }

/-- `try_send`. -/
def trySend (id : ℕ) (call : Call) : Handoff :=
  if handoff.receiverClosed then handoff.setPhase id call (.returned (.error .closed))
  else if capacity ≤ handoff.queue.length then handoff.setPhase id call .full
  else
    { handoff.setPhase id call (if call.exhausted then .queued else .returned (.ok ())) with
      queue := handoff.queue ++ [(id, call.queued)]
      accepted := handoff.accepted ++ [id] }

/-- The next operation of a call. -/
def advance (id : ℕ) (call : Call) : Handoff :=
  match call.phase with
  | .entered =>
      if call.exhausted && call.isEmpty then
        { handoff.setPhase id call (.returned (.error .empty)) with
          refused := handoff.refused + 1 }
      else if handoff.closing then handoff.setPhase id call (.returned (.error .closing))
      else handoff.setPhase id call .passed
  | .passed => handoff.trySend capacity id call
  | .full =>
      { handoff.setPhase id call (.returned (.error .full)) with dropped := handoff.dropped + 1 }
  | .queued =>
      { handoff.setPhase id call (.returned (.ok ())) with truncated := handoff.truncated + 1 }
  | .returned _ => handoff

/-- The worker receives a job, or learns that there will be none. -/
def receive (inputs : JobInputs) : Handoff :=
  match handoff.queue with
  | [] => if handoff.receiverClosed then { handoff with worker := .exited } else handoff
  | (id, queued) :: rest =>
      { handoff with
        queue := rest
        current := some ⟨id, inputs, processJob sanitize collectorId queued inputs⟩ }

/-- The next effect of the job in progress. -/
def work (job : InProgress) : Handoff :=
  match job.effects with
  | [] =>
      { handoff with
        current := none
        processed := handoff.processed ++ [(job.call, job.inputs)] }
  | effect :: rest =>
      { handoff with
        current := some { job with effects := rest }
        spoolRefused := match effect with
          | .countSpoolRefused => handoff.spoolRefused + 1
          | _ => handoff.spoolRefused
        log := handoff.log ++ [(job.call, effect)] }

/-- The next step of `drain_queue`. -/
def drainQueue : Handoff :=
  match handoff.drain with
  | .idle => { handoff with closing := true, drain := .flagged }
  | .flagged =>
      { handoff with
        drain := if handoff.worker = .notStarted then .reported .notRunning else .handled }
  | .handled => { handoff with permit := true, drain := .awaiting }
  | .awaiting =>
      match handoff.worker with
      | .exited => { handoff with drain := .reported .drained }
      | .failed => { handoff with drain := .reported .workerFailed }
      | _ => handoff
  | .reported _ => handoff

/-- The worker is at a point where it takes a job. -/
def atRest : Bool :=
  handoff.current.isNone && (handoff.worker = .selecting || handoff.worker = .draining)

def isRunning : Bool :=
  handoff.worker = .selecting || handoff.worker = .draining

def step : HandoffAction → Handoff
  | .call queued => { handoff with calls := handoff.calls ++ [⟨queued, .entered⟩] }
  | .advance id =>
      match handoff.calls[id]? with
      | none => handoff
      | some call => handoff.advance capacity id call
  | .start =>
      if handoff.worker = .notStarted then { handoff with worker := .selecting } else handoff
  | .receive inputs =>
      if handoff.atRest then handoff.receive sanitize collectorId inputs else handoff
  | .notice =>
      if handoff.current.isNone && handoff.worker = .selecting && handoff.permit then
        { handoff with permit := false, receiverClosed := true, worker := .draining }
      else handoff
  | .work =>
      match handoff.current with
      | none => handoff
      | some job => if handoff.isRunning then handoff.work job else handoff
  | .fail => if handoff.isRunning then { handoff with worker := .failed } else handoff
  | .drain => handoff.drainQueue
  | .timeOut =>
      if handoff.drain = .awaiting ∧ handoff.isRunning then
        { handoff with worker := .failed, drain := .reported .timedOut }
      else handoff

/-- What was done for the job of a call. -/
def effectsOf (id : ℕ) : List Effect :=
  (handoff.log.filter (·.1 = id)).map Prod.snd

end Handoff

end Machine

end Propolis.Sensor
