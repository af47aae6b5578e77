import Propolis.Lib.Lines
import Propolis.Lib.Run
import Propolis.Sensor.Event

/-!
# The log of a sensor

`EventEmitter::append` (`sensor-framework/emit.rs`): an event becomes one line, and the
line is appended to the log by one write.  Any number of tasks append to one log.  A
write that fails, or that a crash cuts off, leaves any first part of its line.

Whether a gate folds an event into a summary, the id a call mints and the listener it is
called for are what the call brings.  The JSON text of an event is a parameter.
-/

namespace Propolis.Sensor

open Bytes

/-- A call of `append`, with what it finds: the gates' decision, the id `now_v7` gives, and the
listener of the task. -/
structure AppendCall where
  event : SensorEvent
  suppressed : Bool
  minted : Uuid
  arrival : Option Arrival

namespace AppendCall

def occurrenceId (call : AppendCall) : Uuid :=
  call.event.occurrenceId.getD call.minted

/-- The event as it is written. -/
def written (call : AppendCall) : SensorEvent :=
  if call.event.occurrenceId.isSome ∧ call.arrival.isNone then call.event
  else
    let event := { call.event with occurrenceId := some call.occurrenceId }
    match call.arrival with
    | some arrival => arrival.stamp event
    | none => event

end AppendCall

/-- What becomes of the one write of a call: it returns `Ok`, or it fails with some first bytes of
the line in the file. -/
inductive LineWrite where
  | whole
  | torn (kept : ℕ)

/-- An append that returned `Ok` with its line written. -/
structure Logged where
  call : AppendCall
  text : Bytes
  /-- Where the write began. -/
  offset : ℕ

structure SensorLog where
  bytes : Bytes
  /-- The tasks that have their line and are about to write it. -/
  writing : List (ℕ × AppendCall × Bytes)
  logged : List Logged

def SensorLog.initial : SensorLog where
  bytes := []
  writing := []
  logged := []

inductive LogAction where
  | call (task : ℕ) (call : AppendCall)
  | write (task : ℕ) (outcome : LineWrite)
  | restart

namespace SensorLog

variable (toJson : SensorEvent → Option Bytes) (log : SensorLog)

/-- The part of `append` before the write.  A suppressed event returns `Ok` at once, one that has no
JSON text returns an error; the others have their line. -/
def beginAppend (task : ℕ) (call : AppendCall) : SensorLog :=
  if call.suppressed then log
  else
    match toJson call.written with
    | none => log
    | some text => { log with writing := log.writing ++ [(task, call, text)] }

/-- `O_APPEND`: the line goes to the end of the file as it is at the write. -/
def writeLine (task : ℕ) (outcome : LineWrite) : SensorLog :=
  match log.writing.find? fun entry => entry.1 = task with
  | none => log
  | some entry =>
      let line := entry.2.2 ++ [newline]
      let writing := log.writing.eraseP fun other => other.1 = task
      match outcome with
      | .whole =>
          { bytes := log.bytes ++ line, writing
            logged := log.logged ++ [⟨entry.2.1, entry.2.2, log.bytes.length⟩] }
      | .torn kept => { log with bytes := log.bytes ++ line.take kept, writing }

def step : LogAction → SensorLog
  | .call task call => log.beginAppend toJson task call
  | .write task outcome => log.writeLine task outcome
  | .restart => { log with writing := [] }

end SensorLog

section Lines

variable {toJson : SensorEvent → Option Bytes} {log : SensorLog}
  {writing : List (ℕ × AppendCall × Bytes)}

/-- Each append is a line of its own: one that starts where no other does, at the start of the file
or after a newline, and ends with the next newline. -/
structure SensorLog.InLines (toJson : SensorEvent → Option Bytes) (log : SensorLog) : Prop where
  lines : ∀ entry ∈ log.logged, toJson entry.call.written = some entry.text ∧
    entry.call.suppressed = false ∧ newline ∉ entry.text ∧
      OwnLineAt log.bytes entry.offset entry.text
  apart : (log.logged.map (·.offset)).Pairwise (· < ·)

/-- No line is written in full behind a part of another. -/
def SensorLog.writesAtLineStart (log : SensorLog) : LogAction → Bool
  | .write _ .whole => EndsClean log.bytes
  | _ => true

/-- The lines kept so far, and the calls that have theirs. -/
structure LogSound (toJson : SensorEvent → Option Bytes) (log : SensorLog) : Prop where
  inLines : log.InLines toJson
  ready : ∀ entry ∈ log.writing, toJson entry.2.1.written = some entry.2.2 ∧
    entry.2.1.suppressed = false ∧ newline ∉ entry.2.2

variable (sound : LogSound toJson log)
include sound

theorem LogSound.grow (fewer : ∀ entry ∈ writing, entry ∈ log.writing) (more : Bytes) :
    LogSound toJson { log with bytes := log.bytes ++ more, writing } := by
  refine ⟨⟨?_, sound.inLines.apart⟩, fun entry member => sound.ready entry (fewer entry member)⟩
  intro entry member
  obtain ⟨text, open_, single, own⟩ := sound.inLines.lines entry member
  exact ⟨text, open_, single, own.append more⟩

theorem LogSound.beginAppend
    (oneLine : ∀ event text, toJson event = some text → newline ∉ text) (task : ℕ)
    (call : AppendCall) :
    LogSound toJson (log.beginAppend toJson task call) := by
  rw [SensorLog.beginAppend]
  split
  · exact sound
  case isFalse open_ =>
    split
    · exact sound
    case h_2 text rendered =>
      refine ⟨⟨sound.inLines.lines, sound.inLines.apart⟩, ?_⟩
      exact List.forall_mem_append.mpr
        ⟨sound.ready, List.forall_mem_singleton.mpr
          ⟨rendered, by simpa using open_, oneLine _ _ rendered⟩⟩

/-- A line written at the start of a line stays one. -/
theorem LogSound.written (clean : EndsClean log.bytes)
    {entry : ℕ × AppendCall × Bytes} (member : entry ∈ log.writing)
    (fewer : ∀ entry ∈ writing, entry ∈ log.writing) :
    LogSound toJson { bytes := log.bytes ++ (entry.2.2 ++ [newline]), writing
                      logged := log.logged ++ [⟨entry.2.1, entry.2.2, log.bytes.length⟩] } := by
  have grown := sound.grow fewer (entry.2.2 ++ [newline])
  refine ⟨⟨?_, ?_⟩, grown.ready⟩
  · intro line lineMember
    rcases List.mem_append.mp lineMember with old | new
    · exact grown.inLines.lines line old
    · obtain rfl := List.mem_singleton.mp new
      obtain ⟨text, open_, single⟩ := sound.ready entry member
      exact ⟨text, open_, single, log.bytes, [], rfl, rfl, clean⟩
  · rw [List.map_append]
    apply List.pairwise_append.mpr
    refine ⟨sound.inLines.apart, List.pairwise_singleton _ _, ?_⟩
    -- Every earlier line lies within the file the new one is appended to.
    simp only [List.mem_map, List.map_cons, List.map_nil, List.mem_singleton]
    rintro _ ⟨line, lineMember, rfl⟩ _ rfl
    exact (sound.inLines.lines line lineMember).2.2.2.lt

theorem LogSound.step
    (oneLine : ∀ event text, toJson event = some text → newline ∉ text) {action : LogAction}
    (started : log.writesAtLineStart action = true) : LogSound toJson (log.step toJson action) := by
  cases action with
  | call task call => exact sound.beginAppend oneLine task call
  | restart =>
      refine ⟨⟨sound.inLines.lines, sound.inLines.apart⟩, ?_⟩
      intro entry member
      cases member
  | write task outcome =>
      rw [SensorLog.step, SensorLog.writeLine]
      split
      · exact sound
      case h_2 entry found =>
        have member := List.mem_of_find?_eq_some found
        have fewer : ∀ other ∈ log.writing.eraseP (fun other => other.1 = task),
            other ∈ log.writing := fun _ kept => List.mem_of_mem_eraseP kept
        cases outcome with
        | whole => exact sound.written (of_decide_eq_true started) member fewer
        | torn kept => exact sound.grow fewer _

end Lines

section Results

/-- Where every line that is written in full begins at the start of a line, every event whose append
returned `Ok` is a line of its own in the log. -/
theorem logged_events_are_lines (toJson : SensorEvent → Option Bytes)
    (oneLine : ∀ event text, toJson event = some text → newline ∉ text) (actions : List LogAction)
    (started : Run.meets (SensorLog.step toJson) SensorLog.writesAtLineStart .initial actions =
      true) : (actions.foldl (SensorLog.step toJson) .initial).InLines toJson := by
  have start : LogSound toJson .initial := by
    refine ⟨⟨?_, List.Pairwise.nil⟩, ?_⟩ <;> intro entry member <;> cases member
  have sound := Run.invariant_of_meets (LogSound toJson)
    (fun log action guarded sound => LogSound.step sound oneLine guarded) start started
  exact sound.inLines

/-- A connection, with the text `serde_json` gives it. -/
def sampleConnection : SensorEvent where
  v := 1
  sourceIp := .v4 203 0 113 7
  wanIp := none
  sensor := "ssh"
  signalType := "honeypot_connection"
  protocol := "tcp"
  authenticated := false
  observedAt := 1784556191000000000
  metadata := .object []
  sample := none
  sessionId := none
  occurrenceId := some 1
  reply := none

def sampleConnectionJson : Bytes :=
  ofText ("\x7b\"v\":1,\"source_ip\":\"203.0.113.7\",\"wan_ip\":null,\"sensor\":\"ssh\"," ++
    "\"signal_type\":\"honeypot_connection\",\"protocol\":\"tcp\",\"authenticated\":false," ++
    "\"observed_at\":\"2026-07-20T14:03:11Z\",\"metadata\":\x7b\x7d,\"sample\":null," ++
    "\"occurrence_id\":\"00000000-0000-0000-0000-000000000001\"\x7d")

def sampleCall : AppendCall where
  event := sampleConnection
  suppressed := false
  minted := 2
  arrival := none

/-- One append fails with its line written, two later ones go through, and one fails with a part of
its line written. -/
theorem logged_events_are_lines_after_failure :
    ([.call 0 sampleCall, .write 0 (.torn 999), .restart, .call 1 sampleCall, .call 2 sampleCall,
      .call 3 sampleCall, .write 2 .whole, .write 1 .whole, .write 3 (.torn 9)].foldl
        (SensorLog.step fun _ => some sampleConnectionJson) .initial).InLines
      fun _ => some sampleConnectionJson := by
  apply logged_events_are_lines
  · intro _ text same
    cases same
    decide +kernel
  · decide +kernel

/-- A failed append leaves one byte, and the event of the next, which returns `Ok`, is no line of
the log. -/
theorem torn_append_joins_the_next :
    let log := [.call 0 sampleCall, .write 0 (.torn 1), .call 1 sampleCall,
      .write 1 .whole].foldl (SensorLog.step fun _ => some sampleConnectionJson) .initial
    log.logged.map (·.text) = [sampleConnectionJson] ∧
      ¬ OwnLine log.bytes sampleConnectionJson := by
  decide +kernel

end Results

end Propolis.Sensor
