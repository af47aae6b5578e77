import Propolis.Gateway.Verify
import Propolis.Shipper.Batcher

/-!
# The ship loop and its gateway

`run_ship_loop` and `ship_cycle` over any number of append-only logs, and the
gateway's holdings for this collector at the other end.  An action is one step of
either side or of what lies between them: a write to a log, a build, a frame
arriving, an answer read, a lost connection, a failed or completed write of a
state file, a crash.  An action that the present phase does not allow changes
nothing, so every list of actions is a run.

The ship loop has one frame under way at a time, but a connection that it gave up
on may still hold a frame the gateway has not read; those are `inFlight`.  What
survives a crash of the shipper is `confirmed` and each log's `persisted` offset;
what survives a crash of the gateway is its state file and its spool.

`accepted` records the batches whose state the gateway has stored, in order.  No
step looks at it.
-/

namespace Propolis

open Bytes

def maxConsecutiveRetries : ℕ := 5

/-- A sensor log, its durable cursor and its tailer. -/
structure Log where
  content : Bytes
  persisted : ℕ
  tailer : Tailer

namespace Log

def fresh (content : Bytes) : Log := ⟨content, 0, .resume 0⟩

def append (bytes : Bytes) (log : Log) : Log :=
  { log with content := log.content ++ bytes }

def restart (log : Log) : Log :=
  { log with tailer := .resume log.persisted }

def commit (log : Log) : Log :=
  { log with tailer := log.tailer.commitBatch }

def rewind (log : Log) : Log :=
  { log with tailer := log.tailer.rewindBatch }

/-- `persist_cursor`. -/
def persist (log : Log) : Log :=
  { log with persisted := log.tailer.offset }

end Log

structure Deployment where
  hash : Bytes → Digest
  collectorId : String
  maxRecords : ℕ

/-- The records of the next batch, and the log once they are read. -/
@[reducible]
def Log.next (deployment : Deployment) (startsOver : Bool) (log : Log) : List Bytes × Log :=
  let read := nextRecords deployment.maxRecords startsOver log.content log.tailer
  (read.1, { log with tailer := read.2 })

/-- The frame under way, or the answer to it that has not been read yet; `silent` when neither
will come. -/
inductive Link where
  | sent
  | answered (bytes : Bytes)
  | silent
  deriving DecidableEq

inductive StopReason where
  | rejected (reason : AckReason)
  | chainDiverged (ourSeq gatewayNextExpected : UInt64)
  deriving DecidableEq

/-- Where the ship loop stands.  `index` is the log it is at, `confirmed` the state in memory. -/
inductive Phase where
  | down
  | idle (index : ℕ)
  | cycle (index : ℕ) (confirmed : ChainState)
  | awaiting (index : ℕ) (confirmed : ChainState) (batch : Batch) (retries : ℕ) (link : Link)
  | storing (index : ℕ) (batch : Batch)
  | persisting (index : ℕ) (batch : Batch)
  | stopped (reason : StopReason)
  deriving DecidableEq

namespace Phase

/-- The batch an answer is awaited for. -/
def awaited : Phase → List Batch
  | .awaiting _ _ batch _ _ => [batch]
  | _ => []

/-- The frame that is still under way. -/
def outstanding : Phase → List Batch
  | .awaiting _ _ batch _ .sent => [batch]
  | _ => []

/-- The gateway is gone: a frame under way will not be answered. -/
def silenced : Phase → Phase
  | .awaiting index confirmed batch retries .sent =>
      .awaiting index confirmed batch retries .silent
  | phase => phase

end Phase

structure Exchange where
  logs : List Log
  confirmed : Option ChainState
  phase : Phase
  inFlight : List Batch
  held : Holdings
  accepted : List Batch

inductive StoreOutcome where
  | ok
  | failed (renamed : Bool)
  deriving DecidableEq

inductive Action where
  | append (index : ℕ) (bytes : Bytes)
  | start
  | crash
  | connect (succeeds : Bool)
  | build (startsOver : Bool)
  | deliver (fault : AcceptFault)
  | deliverStale (position : ℕ) (fault : AcceptFault)
  | dropStale (position : ℕ)
  | gatewayCrash
  | lose
  | receive
  | store (outcome : StoreOutcome)
  | persist (succeeds : Bool)

/-- The batch whose state a frame makes the gateway store, if any. -/
def Holdings.storedBy (hash : Bytes → Digest) (collectorId : String) (fault : AcceptFault)
    (bytes : Bytes) (held : Holdings) : List Batch :=
  match decodeFrame hash bytes with
  | .ok batch => if held.persists collectorId fault batch then [batch] else []
  | .error _ => []

namespace Exchange

/-- Nothing has been shipped; the logs may hold anything. -/
def initial (contents : List Bytes) : Exchange :=
  ⟨contents.map Log.fresh, none, .down, [], .empty, []⟩

/-- `ConfirmedState::load_or_fresh`. -/
def loadOrFresh (deployment : Deployment) (exchange : Exchange) : ChainState :=
  if isSafePathComponent deployment.collectorId then exchange.confirmed.getD ChainState.fresh
  else ChainState.fresh

/-- The log after `index`, the first one again behind the last. -/
def next (index : ℕ) (exchange : Exchange) : ℕ :=
  if index + 1 < exchange.logs.length then index + 1 else 0

/-- The batch is given up for now: its lines will be read again. -/
def giveUp (index : ℕ) (phase : Phase) (exchange : Exchange) : Exchange :=
  { exchange with logs := exchange.logs.modify index Log.rewind, phase }

def crash (exchange : Exchange) : Exchange :=
  { exchange with
    logs := exchange.logs.map Log.restart
    inFlight := exchange.inFlight ++ exchange.phase.outstanding
    phase := .down }

/-- Every connection ends with the gateway, and what it has not read with them. -/
def gatewayCrash (exchange : Exchange) : Exchange :=
  { exchange with
    held := exchange.held.restart
    inFlight := []
    phase := exchange.phase.silenced }

section Steps

variable (deployment : Deployment)

def connect (succeeds : Bool) (exchange : Exchange) : Exchange :=
  match exchange.phase with
  | .idle index =>
      if succeeds then { exchange with phase := .cycle index (exchange.loadOrFresh deployment) }
      else { exchange with phase := .idle (exchange.next index) }
  | _ => exchange

/-- The head of the loop in `ship_cycle`: the next batch is sent, or the log has none. -/
def build (startsOver : Bool) (exchange : Exchange) : Exchange :=
  match exchange.phase with
  | .cycle index confirmed =>
      match exchange.logs[index]? with
      | none => exchange
      | some log =>
          let next := nextBatch deployment.hash confirmed.lastSeq confirmed.lastBatchHash
            deployment.maxRecords startsOver log.content log.tailer
          { exchange with
            logs := exchange.logs.set index { log with tailer := next.2 }
            phase :=
              match next.1 with
              | none => .idle (exchange.next index)
              | some batch => .awaiting index confirmed batch 0 .sent }
  | _ => exchange

/-- The gateway reads a frame of the collector. -/
def handle (fault : AcceptFault) (batch : Batch) (exchange : Exchange) : Exchange × Option Ack :=
  let bytes := encodeFrame batch
  let outcome := exchange.held.handleFrame deployment.hash deployment.collectorId fault bytes
  ({ exchange with
      held := outcome.1
      accepted := exchange.accepted ++
        exchange.held.storedBy deployment.hash deployment.collectorId fault bytes },
    outcome.2)

/-- A frame over the limit closes the connection unread. -/
def deliver (fault : AcceptFault) (exchange : Exchange) : Exchange :=
  match exchange.phase with
  | .awaiting index confirmed batch retries .sent =>
      if maxFrameLen < (encodeFrame batch).length then
        { exchange with phase := .awaiting index confirmed batch retries .silent }
      else
        let outcome := exchange.handle deployment fault batch
        match outcome.2 with
        | none => outcome.1.gatewayCrash
        | some ack =>
            { outcome.1 with
              phase := .awaiting index confirmed batch retries (.answered (encodeAck ack)) }
  | _ => exchange

/-- A frame of a connection that the shipper has given up on; nobody reads the answer. -/
def deliverStale (position : ℕ) (fault : AcceptFault) (exchange : Exchange) : Exchange :=
  match exchange.inFlight[position]? with
  | none => exchange
  | some batch =>
      let taken := { exchange with inFlight := exchange.inFlight.eraseIdx position }
      if maxFrameLen < (encodeFrame batch).length then taken
      else
        let outcome := taken.handle deployment fault batch
        if outcome.2.isNone then outcome.1.gatewayCrash else outcome.1

def lose (exchange : Exchange) : Exchange :=
  match exchange.phase with
  | .awaiting index _ _ _ _ =>
      { exchange.giveUp index (.idle (exchange.next index)) with
        inFlight := exchange.inFlight ++ exchange.phase.outstanding }
  | _ => exchange

/-- The match on the answer in `ship_cycle`. -/
def receive (exchange : Exchange) : Exchange :=
  match exchange.phase with
  | .awaiting index confirmed batch retries (.answered bytes) =>
      let confirm :=
        { exchange with
          logs := exchange.logs.modify index Log.commit
          phase := .storing index batch }
      match decodeAck bytes with
      | none => exchange.giveUp index (.idle (exchange.next index))
      | some ack =>
          match ack.status with
          | .accepted => confirm
          | .duplicate =>
              if ack.nextExpectedSeq = batch.seq + 1 then confirm
              else
                exchange.giveUp index (.stopped (.chainDiverged batch.seq ack.nextExpectedSeq))
          | .retry =>
              if maxConsecutiveRetries < retries + 1 then
                exchange.giveUp index (.idle (exchange.next index))
              else
                { exchange with phase := .awaiting index confirmed batch (retries + 1) .sent }
          | .reject => exchange.giveUp index (.stopped (.rejected ack.reason))
  | _ => exchange

/-- `ConfirmedState::store`; an error leaves the cycle, before or after the rename. -/
def store (outcome : StoreOutcome) (exchange : Exchange) : Exchange :=
  match exchange.phase with
  | .storing index batch =>
      if isSafePathComponent deployment.collectorId then
        match outcome with
        | .ok => { exchange with confirmed := some batch.state, phase := .persisting index batch }
        | .failed renamed =>
            { exchange with
              confirmed := if renamed then some batch.state else exchange.confirmed
              phase := .idle (exchange.next index) }
      else { exchange with phase := .idle (exchange.next index) }
  | _ => exchange

def persist (succeeds : Bool) (exchange : Exchange) : Exchange :=
  match exchange.phase with
  | .persisting index batch =>
      if succeeds then
        { exchange with
          logs := exchange.logs.modify index Log.persist
          phase := .cycle index batch.state }
      else { exchange with phase := .idle (exchange.next index) }
  | _ => exchange

def step (exchange : Exchange) : Action → Exchange
  | .append index bytes =>
      { exchange with logs := exchange.logs.modify index (Log.append bytes) }
  | .start =>
      match exchange.phase with
      | .down => { exchange with phase := .idle 0 }
      | _ => exchange
  | .crash => exchange.crash
  | .connect succeeds => exchange.connect deployment succeeds
  | .build startsOver => exchange.build deployment startsOver
  | .deliver fault => exchange.deliver deployment fault
  | .deliverStale position fault => exchange.deliverStale deployment position fault
  | .dropStale position => { exchange with inFlight := exchange.inFlight.eraseIdx position }
  | .gatewayCrash => exchange.gatewayCrash
  | .lose => exchange.lose
  | .receive => exchange.receive
  | .store outcome => exchange.store deployment outcome
  | .persist succeeds => exchange.persist succeeds

end Steps

end Exchange

def runExchange (deployment : Deployment) (contents : List Bytes) (actions : List Action) :
    Exchange :=
  actions.foldl (Exchange.step deployment) (.initial contents)

/-- An answer on which `ship_cycle` confirms the batch. -/
def Ack.Confirms (ack : Ack) (batch : Batch) : Prop :=
  ack.status = .accepted ∨ ack.status = .duplicate ∧ ack.nextExpectedSeq = batch.seq + 1

/-- Everything a step can do.  The proofs about runs use this and not the step function. -/
inductive Exchange.Move (deployment : Deployment) (exchange : Exchange) :
    Action → Exchange → Prop where
  | stay : Move deployment exchange action exchange
  | appended (index : ℕ) (bytes : Bytes) :
      Move deployment exchange (.append index bytes)
        { exchange with logs := exchange.logs.modify index (Log.append bytes) }
  | started (down : exchange.phase = .down) :
      Move deployment exchange .start { exchange with phase := .idle 0 }
  | crashed : Move deployment exchange .crash exchange.crash
  | connected (idle : exchange.phase = .idle index) :
      Move deployment exchange (.connect true)
        { exchange with phase := .cycle index (exchange.loadOrFresh deployment) }
  | unconnected (idle : exchange.phase = .idle index) :
      Move deployment exchange (.connect false)
        { exchange with phase := .idle (exchange.next index) }
  | dry (inCycle : exchange.phase = .cycle index state)
      (found : exchange.logs[index]? = some log)
      (nothing : (log.next deployment startsOver).1 = []) :
      Move deployment exchange (.build startsOver)
        { exchange with
          logs := exchange.logs.set index (log.next deployment startsOver).2
          phase := .idle (exchange.next index) }
  | built (inCycle : exchange.phase = .cycle index state)
      (found : exchange.logs[index]? = some log)
      (something : (log.next deployment startsOver).1 ≠ []) :
      Move deployment exchange (.build startsOver)
        { exchange with
          logs := exchange.logs.set index (log.next deployment startsOver).2
          phase := .awaiting index state
            (sealBatch deployment.hash (state.lastSeq + 1) state.lastBatchHash
              (log.next deployment startsOver).1) 0 .sent }
  | answered {ack : Ack} (awaiting : exchange.phase = .awaiting index state batch retries .sent)
      (answer : (exchange.handle deployment fault batch).2 = some ack) :
      Move deployment exchange (.deliver fault)
        { (exchange.handle deployment fault batch).1 with
          phase := .awaiting index state batch retries (.answered (encodeAck ack)) }
  | died (awaiting : exchange.phase = .awaiting index state batch retries .sent) :
      Move deployment exchange (.deliver fault)
        (exchange.handle deployment fault batch).1.gatewayCrash
  | closed (awaiting : exchange.phase = .awaiting index state batch retries .sent) :
      Move deployment exchange (.deliver fault)
        { exchange with phase := .awaiting index state batch retries .silent }
  | staleHandled (found : exchange.inFlight[position]? = some batch) :
      Move deployment exchange (.deliverStale position fault)
        { (exchange.handle deployment fault batch).1 with
          inFlight := exchange.inFlight.eraseIdx position }
  | staleDied (found : exchange.inFlight[position]? = some batch) :
      Move deployment exchange (.deliverStale position fault)
        (exchange.handle deployment fault batch).1.gatewayCrash
  | dropped (position : ℕ) :
      Move deployment exchange action
        { exchange with inFlight := exchange.inFlight.eraseIdx position }
  | gatewayCrashed : Move deployment exchange .gatewayCrash exchange.gatewayCrash
  | lost (awaiting : exchange.phase = .awaiting index state batch retries link) :
      Move deployment exchange .lose
        { exchange.giveUp index (.idle (exchange.next index)) with
          inFlight := exchange.inFlight ++ exchange.phase.outstanding }
  | gaveUp (awaiting : exchange.phase = .awaiting index state batch retries link) :
      Move deployment exchange .receive (exchange.giveUp index (.idle (exchange.next index)))
  | resent (awaiting : exchange.phase = .awaiting index state batch retries link) :
      Move deployment exchange .receive
        { exchange with phase := .awaiting index state batch (retries + 1) .sent }
  | confirmed {ack : Ack}
      (awaiting : exchange.phase = .awaiting index state batch retries (.answered bytes))
      (decoded : decodeAck bytes = some ack) (confirms : ack.Confirms batch) :
      Move deployment exchange .receive
        { exchange with
          logs := exchange.logs.modify index Log.commit
          phase := .storing index batch }
  | diverged {ack : Ack}
      (awaiting : exchange.phase = .awaiting index state batch retries (.answered bytes))
      (decoded : decodeAck bytes = some ack) (status : ack.status = .duplicate)
      (beyond : ack.nextExpectedSeq ≠ batch.seq + 1) :
      Move deployment exchange .receive
        (exchange.giveUp index (.stopped (.chainDiverged batch.seq ack.nextExpectedSeq)))
  | rejected {ack : Ack}
      (awaiting : exchange.phase = .awaiting index state batch retries (.answered bytes))
      (decoded : decodeAck bytes = some ack) (status : ack.status = .reject) :
      Move deployment exchange .receive
        (exchange.giveUp index (.stopped (.rejected ack.reason)))
  | stored {outcome : StoreOutcome} (storing : exchange.phase = .storing index batch)
      (safe : isSafePathComponent deployment.collectorId = true)
      (after : turn = .persisting index batch ∨ turn = .idle (exchange.next index)) :
      Move deployment exchange (.store outcome)
        { exchange with confirmed := some batch.state, phase := turn }
  | unstored {outcome : StoreOutcome} (storing : exchange.phase = .storing index batch)
      (failed : isSafePathComponent deployment.collectorId = false ∨ outcome = .failed false) :
      Move deployment exchange (.store outcome)
        { exchange with phase := .idle (exchange.next index) }
  | persisted (persisting : exchange.phase = .persisting index batch) :
      Move deployment exchange (.persist true)
        { exchange with
          logs := exchange.logs.modify index Log.persist
          phase := .cycle index batch.state }
  | unpersisted (persisting : exchange.phase = .persisting index batch) :
      Move deployment exchange (.persist false)
        { exchange with phase := .idle (exchange.next index) }

section Moves

variable (deployment : Deployment) (exchange : Exchange)

theorem Exchange.build_move (startsOver : Bool) :
    Move deployment exchange (.build startsOver) (exchange.build deployment startsOver) := by
  simp only [Exchange.build]
  split
  swap
  · exact .stay
  rename_i index confirmed inCycle
  cases found : exchange.logs[index]? with
  | none => exact .stay
  | some log =>
      simp only [nextBatch_eq]
      by_cases nothing : (log.next deployment startsOver).1 = []
      · rw [if_pos nothing]
        exact .dry inCycle found nothing
      · rw [if_neg nothing]
        exact .built inCycle found nothing

theorem Exchange.deliver_move (fault : AcceptFault) :
    Move deployment exchange (.deliver fault) (exchange.deliver deployment fault) := by
  simp only [Exchange.deliver]
  split
  swap
  · exact .stay
  rename_i index confirmed batch retries awaiting
  split
  · exact .closed awaiting
  split
  · exact .died awaiting
  · rename_i ack answer
    exact .answered awaiting answer

theorem Exchange.deliverStale_move (position : ℕ) (fault : AcceptFault) :
    Move deployment exchange (.deliverStale position fault)
      (exchange.deliverStale deployment position fault) := by
  simp only [Exchange.deliverStale]
  split
  · exact .stay
  rename_i batch found
  split
  · exact .dropped position
  split
  · exact .staleDied found
  · exact .staleHandled found

theorem Exchange.receive_move : Move deployment exchange .receive exchange.receive := by
  simp only [Exchange.receive]
  split
  swap
  · exact .stay
  rename_i index confirmed batch retries bytes awaiting
  split
  · exact .gaveUp awaiting
  rename_i ack decoded
  split
  · rename_i status
    exact .confirmed awaiting decoded (Or.inl status)
  · rename_i status
    split
    · rename_i echo
      exact .confirmed awaiting decoded (Or.inr ⟨status, echo⟩)
    · rename_i beyond
      exact .diverged awaiting decoded status beyond
  · split
    · exact .gaveUp awaiting
    · exact .resent awaiting
  · rename_i status
    exact .rejected awaiting decoded status

theorem Exchange.store_move (outcome : StoreOutcome) :
    Move deployment exchange (.store outcome) (exchange.store deployment outcome) := by
  simp only [Exchange.store]
  split
  swap
  · exact .stay
  rename_i index batch storing
  split
  swap
  · rename_i unsafe_
    exact .unstored storing (Or.inl (by simpa using unsafe_))
  rename_i safe
  cases outcome with
  | ok => exact .stored storing safe (Or.inl rfl)
  | failed renamed =>
      cases renamed with
      | true => exact .stored storing safe (Or.inr rfl)
      | false => exact .unstored storing (Or.inr rfl)

theorem Exchange.step_move (action : Action) :
    Move deployment exchange action (exchange.step deployment action) := by
  cases action with
  | append index bytes => exact .appended index bytes
  | start =>
      simp only [Exchange.step]
      split
      · rename_i down
        exact .started down
      · exact .stay
  | crash => exact .crashed
  | connect succeeds =>
      simp only [Exchange.step, Exchange.connect]
      split
      · rename_i index idle
        cases succeeds with
        | true => exact .connected idle
        | false => exact .unconnected idle
      · exact .stay
  | build startsOver => exact exchange.build_move deployment startsOver
  | deliver fault => exact exchange.deliver_move deployment fault
  | deliverStale position fault => exact exchange.deliverStale_move deployment position fault
  | dropStale position => exact .dropped position
  | gatewayCrash => exact .gatewayCrashed
  | lose =>
      simp only [Exchange.step, Exchange.lose]
      split
      · rename_i index confirmed batch retries link awaiting
        exact .lost awaiting
      · exact .stay
  | receive => exact exchange.receive_move deployment
  | store outcome => exact exchange.store_move deployment outcome
  | persist succeeds =>
      simp only [Exchange.step, Exchange.persist]
      split
      · rename_i index batch persisting
        cases succeeds with
        | true => exact .persisted persisting
        | false => exact .unpersisted persisting
      · exact .stay

end Moves

end Propolis
