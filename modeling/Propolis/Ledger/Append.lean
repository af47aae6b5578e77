import Propolis.Ledger.Tables

/-!
# The append paths

`append_event` and `append_telemetry_event` (`repository/events.rs`) and the
batched `append_events` (`repository/batch.rs`).  Every path runs in one
transaction under the append lock, so an append is a function of the tables it
finds.  A `Fault` is a transaction that fails in the database: it is rolled back
and leaves only a gap in the id sequence.

The single path reads its inputs back from the tables after every event.  The
batch reads them once (`loadSources`, `loadDedupPriors`), folds the events over
them in memory (`foldScored`) and writes the rows that changed (`writeSources`).

`decay` and `chainHash` are the engine's decay and the ledger's chain hash.
-/

namespace Propolis

inductive RepoError where
  | database (code : Option String)
  | decode
  | connection
  | invalid (error : ValidationError)
  | corrupt
  | notScorable (signalType : SignalType)
  deriving DecidableEq, Repr

/-- Whether one bad event can cause the error. -/
def RepoError.isEventSpecific : RepoError → Bool
  | .invalid _ => true
  | .corrupt => true
  | .database code => code.any fun code => code.startsWith "22" || code.startsWith "23"
  | .decode => true
  | .connection => false
  | .notScorable _ => false

/-- A failed transaction: its error, and how many ids it drew before it was rolled back. -/
structure Fault where
  error : RepoError
  idsDrawn : ℕ

def Db.rollback (db : Db) (fault : Fault) : Db :=
  { db with event := db.event.draw fault.idsDrawn }

/-- Reduces the storage-lossy fields to the precision of their columns. -/
def normalizeEvent (event : EventInput) : EventInput :=
  { event with
    confidence := event.confidence.rescale 3
    observedAt := truncSubsecs event.observedAt }

section Single

variable (decay : ℚ → ℤ → ℤ → ℚ) (chainHash : Option Digest → EventInput → Digest)

/-- Binds the event's hash to the chain head and inserts the row. -/
def insertChained (ledger : Ledger) (event : EventInput) : Ledger × ℕ :=
  let prevHead := ledger.head
  (ledger.insert event prevHead (chainHash prevHead event), ledger.nextId)

/-- Folds the event into its source's breadth sets and counts both. -/
def foldBreadthSets (db : Db) (event : EventInput) : Db × ℤ × ℤ :=
  let vantages :=
    match event.wanIp with
    | some wan => upsertVantage (db.ipVantage event.sourceIp) wan event.authenticatedTcp
    | none => db.ipVantage event.sourceIp
  let sensors := insert event.sensor (db.ipSensor event.sourceIp)
  ({ db with
      ipVantage := Function.update db.ipVantage event.sourceIp vantages
      ipSensor := Function.update db.ipSensor event.sourceIp sensors },
    asI32 (distinctWanCount (vantageRows vantages)), asI32 sensors.card)

/-- The critical section of `append_event` on a normalized event. -/
def appendScored (db : Db) (event : EventInput) : Db × IpScore :=
  let inserted := insertChained chainHash db.event event
  let stored := db.ipScore event.sourceIp
  let prior := dedupPrior (inserted.1.rows.filter (·.id < inserted.2)) event.sourceIp
    event.signalType
  let deduped := isDeduped event.observedAt prior
  let breadth := foldBreadthSets { db with event := inserted.1 } event
  let newScore := applyEvent decay stored event halfLifeSeconds deduped breadth.2.1 breadth.2.2
  ({ breadth.1 with
      ipScore := Function.update db.ipScore newScore.sourceIp
        (some (upsertScore (db.ipScore newScore.sourceIp) newScore)) },
    newScore)

def appendEvent (fault : Option Fault) (db : Db) (event : EventInput) :
    Db × Except RepoError IpScore :=
  match event.validate with
  | .error error => (db, .error (.invalid error))
  | .ok () =>
      if event.signalType.isTelemetry then
        (db, .error (.notScorable event.signalType))
      else
        match fault with
        | some fault => (db.rollback fault, .error fault.error)
        | none =>
            let (db, newScore) := appendScored decay chainHash db (normalizeEvent event)
            (db, .ok newScore)

def appendTelemetryEvent (fault : Option Fault) (db : Db) (event : EventInput) :
    Db × Except RepoError Unit :=
  match event.validate with
  | .error error => (db, .error (.invalid error))
  | .ok () =>
      if !event.signalType.isTelemetry then
        (db, .error (.notScorable event.signalType))
      else
        match fault with
        | some fault => (db.rollback fault, .error fault.error)
        | none =>
            let (ledger, _) := insertChained chainHash db.event (normalizeEvent event)
            ({ db with event := ledger }, .ok ())

end Single

/-- Everything the fold needs to know about one source, loaded once and updated in memory. -/
structure SourceState where
  score : Option IpScore
  vantages : VantageTable
  sensors : Finset String
  dirtyWans : List IpAddr
  newSensors : List String

/-- The loaded sources and the newest observation of each loaded key. -/
structure BatchState where
  sources : IpAddr → Option SourceState
  newest : IpAddr × SignalType → Option (Option ℤ)

def loadSources (db : Db) (scored : List EventInput) (ip : IpAddr) : Option SourceState :=
  if ip ∈ scored.map (·.sourceIp) then
    some
      { score := db.ipScore ip, vantages := db.ipVantage ip, sensors := db.ipSensor ip,
        dirtyWans := [], newSensors := [] }
  else
    none

def loadDedupPriors (db : Db) (scored : List EventInput) (key : IpAddr × SignalType) :
    Option (Option ℤ) :=
  if key ∈ scored.map (fun event => (event.sourceIp, event.signalType)) then
    some (dedupPrior db.event.rows key.1 key.2)
  else
    none

/-- The WAN of the event joins the source's vantages; only a change makes it dirty. -/
def SourceState.foldWan (source : SourceState) (event : EventInput) : SourceState :=
  match event.wanIp with
  | none => source
  | some wan =>
      let authTcp := event.authenticatedTcp
      match source.vantages.lookup wan with
      | none =>
          { source with
            vantages := source.vantages.insert wan authTcp
            dirtyWans := source.dirtyWans.insert wan }
      | some flag =>
          if authTcp && !flag then
            { source with
              vantages := source.vantages.insert wan true
              dirtyWans := source.dirtyWans.insert wan }
          else
            source

def SourceState.foldSensor (source : SourceState) (event : EventInput) : SourceState :=
  if event.sensor ∈ source.sensors then
    source
  else
    { source with
      sensors := insert event.sensor source.sensors
      newSensors := source.newSensors.insert event.sensor }

section Batch

variable (decay : ℚ → ℤ → ℤ → ℚ) (chainHash : Option Digest → EventInput → Digest)

def SourceState.fold (source : SourceState) (event : EventInput) (deduped : Bool) : SourceState :=
  let source := (source.foldWan event).foldSensor event
  { source with
    score := some (applyEvent decay source.score event halfLifeSeconds deduped
      (asI32 (distinctWanCount (vantageRows source.vantages))) (asI32 source.sensors.card)) }

/-- One round of the fold.  Every scored source was loaded, so `none` does not occur. -/
def foldScored (state : BatchState) (event : EventInput) : BatchState :=
  let key := (event.sourceIp, event.signalType)
  let prior := (state.newest key).join
  let deduped := isDeduped event.observedAt prior
  let seen := prior.elim event.observedAt (max · event.observedAt)
  { sources :=
      match state.sources event.sourceIp with
      | none => state.sources
      | some source =>
          Function.update state.sources event.sourceIp (some (source.fold decay event deduped))
    newest := Function.update state.newest key (some (some seen)) }

/-- Each event's `prev_hash` and `hash`, in order, from the head the batch starts after. -/
def chainLinks : Option Digest → List EventInput → List (Option Digest × Digest)
  | _, [] => []
  | prev, event :: rest =>
      let hash := chainHash prev event
      (prev, hash) :: chainLinks (some hash) rest

/-- One multi-row insert, in chain order. -/
def insertEvents (ledger : Ledger) (events : List EventInput)
    (links : List (Option Digest × Digest)) : Ledger :=
  (events.zip links).foldl
    (fun ledger row => ledger.insert row.1 row.2.1 row.2.2) ledger

/-- The final state of each loaded source: its dirty WANs, new sensors and projection. -/
def writeSources (db : Db) (sources : IpAddr → Option SourceState) : Db :=
  { db with
    ipVantage := fun ip =>
      match sources ip with
      | none => db.ipVantage ip
      | some source =>
          source.dirtyWans.foldl
            (fun table wan => upsertVantage table wan ((source.vantages.lookup wan).getD false))
            (db.ipVantage ip)
    ipSensor := fun ip =>
      match sources ip with
      | none => db.ipSensor ip
      | some source => source.newSensors.foldl (fun names sensor => insert sensor names)
          (db.ipSensor ip)
    ipScore := fun ip =>
      match (sources ip).bind (·.score) with
      | none => db.ipScore ip
      | some score => some (upsertScore (db.ipScore ip) score) }

/-- One transaction over validated and normalized events. -/
def appendAtomic (db : Db) (events : List EventInput) : Db :=
  let links := chainLinks chainHash db.event.head events
  let scored := events.filter fun event => !event.signalType.isTelemetry
  let loaded : BatchState := ⟨loadSources db scored, loadDedupPriors db scored⟩
  let folded := scored.foldl (foldScored decay) loaded
  writeSources { db with event := insertEvents db.event events links } folded.sources

end Batch

/-- Outcome of `append_events`: the leading events that are durable, and the error after them. -/
structure BatchAppend where
  appended : ℕ
  failure : Option RepoError

section Loop

variable {State : Type*}
  (atomic : ℕ → State → List EventInput → State × Option RepoError)

/--
The loop of `append_events` over an all-or-nothing append of a slice, numbered by
attempt.  `stop` is past `done` whenever the body runs; the second conjunct of
the condition shows it to the termination check.
-/
def appendSlices (normalized : List EventInput) (attempt done stop : ℕ) (state : State) :
    State × BatchAppend :=
  if done < normalized.length ∧ done < stop then
    match atomic attempt state ((normalized.take stop).drop done) with
    | (state, none) => appendSlices normalized (attempt + 1) stop normalized.length state
    | (state, some error) =>
        if 1 < stop - done ∧ error.isEventSpecific then
          appendSlices normalized (attempt + 1) done (done + (stop - done) / 2) state
        else
          (state, ⟨done, some error⟩)
  else
    (state, ⟨done, none⟩)
termination_by (normalized.length - done, stop - done)
decreasing_by
  · omega
  · omega

theorem drop_take_append {α : Type} (list : List α) {first middle last : ℕ}
    (before : first ≤ middle) (after : middle ≤ last) :
    (list.take middle).drop first ++ (list.take last).drop middle =
      (list.take last).drop first := by
  have width : last - first = (middle - first) + (last - middle) := by omega
  rw [List.drop_take, List.drop_take, List.drop_take, width, List.take_add, List.drop_drop,
    Nat.add_sub_cancel' before]

/-- The events before the first one that `validate` refuses, and its error. -/
def validPrefix : List EventInput → List EventInput × Option ValidationError
  | [] => ([], none)
  | event :: rest =>
      match event.validate with
      | .error error => ([], some error)
      | .ok () => ((event :: (validPrefix rest).1), (validPrefix rest).2)

def appendEventsWith (state : State) (events : List EventInput) : State × BatchAppend :=
  let (valid, firstInvalid) := validPrefix events
  let normalized := valid.map normalizeEvent
  match appendSlices atomic normalized 0 0 normalized.length state with
  | (state, ⟨done, some error⟩) => (state, ⟨done, some error⟩)
  | (state, ⟨done, none⟩) => (state, ⟨done, firstInvalid.map .invalid⟩)

end Loop

section Tables

variable (decay : ℚ → ℤ → ℤ → ℚ) (chainHash : Option Digest → EventInput → Digest)
  (faults : ℕ → Option Fault)

/-- An attempt over the tables; `faults` says which attempts fail in the database. -/
def attemptAtomic (attempt : ℕ) (db : Db) (slice : List EventInput) : Db × Option RepoError :=
  match faults attempt with
  | some fault => (db.rollback fault, some fault.error)
  | none => (appendAtomic decay chainHash db slice, none)

def appendEvents (db : Db) (events : List EventInput) : Db × BatchAppend :=
  appendEventsWith (attemptAtomic decay chainHash faults) db events

end Tables

end Propolis
