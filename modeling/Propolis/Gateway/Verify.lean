import Propolis.Gateway.Spool
import Propolis.Wire.Ack

/-!
# The gateway's verification of batches

`GatewaySink::accept` (`verify.rs`) with the state it persists (`state.rs`) and
the frame handler around it (`server.rs`).  Per collector the gateway holds a
state file, an entry of its in-memory map and the spool file.  The file names are
`<id>.json`, `<id>.tmp` and `<id>/events.jsonl`, which no two collectors share,
so each collector's holdings are kept apart here.  The whole of `accept` runs
under one lock.

A fault says where a call fails or where the process dies.  A call that dies
leaves no answer, and the map is gone when the gateway comes back.  The stored
state is replaced by a rename: an error after it leaves the new state in place
although the call reports a failure.

`accept_step` lists what a call can do; the proofs about the gateway use it and
not the definition.
-/

namespace Propolis

open Bytes

/-- The last sequence number and rolling hash: `CollectorState` here, `ConfirmedState` at the
collector. -/
structure ChainState where
  lastSeq : UInt64
  lastBatchHash : Digest
  deriving DecidableEq

def ChainState.fresh : ChainState := ⟨0, zeroHash⟩

def Batch.state (batch : Batch) : ChainState := ⟨batch.seq, batch.batchHash⟩

inductive AcceptFault where
  | none
  | crashFirst
  | spool (cut : ℕ) (crash : Bool)
  | store (renamed crash : Bool)
  | crashLast
  deriving DecidableEq

namespace AcceptFault

def cut : AcceptFault → Option ℕ
  | .spool cut _ => some cut
  | _ => Option.none

def crashesInSpool : AcceptFault → Bool
  | .spool _ crash => crash
  | _ => false

def storeFails : AcceptFault → Bool
  | .store _ _ => true
  | _ => false

def crashesInStore : AcceptFault → Bool
  | .store _ crash => crash
  | _ => false

/-- Whether the new state file is in place when `store` is over. -/
def renames : AcceptFault → Bool
  | .store renamed _ => renamed
  | _ => true

end AcceptFault

/-- What the gateway holds for one collector. -/
structure Holdings where
  stored : Option ChainState
  cached : Option ChainState
  spool : Bytes
  deriving DecidableEq

namespace Holdings

def empty : Holdings := ⟨none, none, []⟩

/-- The process ends and comes back: the in-memory entry is gone. -/
def restart (held : Holdings) : Holdings :=
  { held with cached := none }

/-- `CollectorState::load`, with every failure folded to a fresh state. -/
def load (collectorId : String) (held : Holdings) : ChainState :=
  if isSafePathComponent collectorId then held.stored.getD ChainState.fresh else ChainState.fresh

/-- The state a batch is checked against. -/
def current (collectorId : String) (held : Holdings) : ChainState :=
  held.cached.getD (held.load collectorId)

def accept (collectorId : String) (fault : AcceptFault) (batch : Batch) (held : Holdings) :
    Holdings × Option Ack :=
  let current := held.current collectorId
  let next := current.lastSeq + 1
  let seeded := { held with cached := some current }
  if fault = .crashFirst then (held.restart, none)
  else if batch.seq ≤ current.lastSeq then (seeded, some ⟨.duplicate, .none, next⟩)
  else if batch.seq ≠ next then (seeded, some ⟨.reject, .seqGap, next⟩)
  else if batch.prevBatchHash ≠ current.lastBatchHash then
    (seeded, some ⟨.reject, .hashMismatch, next⟩)
  else
    let write := writeRecords collectorId fault.cut batch.records held.spool
    let spooled := { seeded with spool := write.2 }
    if fault.crashesInSpool then (spooled.restart, none)
    else if !write.1 then (spooled, some ⟨.retry, .spoolWriteFailed, next⟩)
    else
      let persisted :=
        { spooled with stored := if fault.renames then some batch.state else spooled.stored }
      if fault.crashesInStore then (persisted.restart, none)
      else if fault.storeFails then (persisted, some ⟨.retry, .spoolWriteFailed, next⟩)
      else if fault = .crashLast then (persisted.restart, none)
      else ({ persisted with cached := some batch.state },
        some ⟨.accepted, .none, batch.seq + 1⟩)

end Holdings

/-- The three checks a batch passes before anything is written. -/
structure Batch.Follows (batch : Batch) (state : ChainState) : Prop where
  later : state.lastSeq < batch.seq
  next : batch.seq = state.lastSeq + 1
  linked : batch.prevBatchHash = state.lastBatchHash

instance (batch : Batch) (state : ChainState) : Decidable (batch.Follows state) :=
  decidable_of_iff
    (state.lastSeq < batch.seq ∧ batch.seq = state.lastSeq + 1 ∧
      batch.prevBatchHash = state.lastBatchHash)
    ⟨fun ⟨later, next, linked⟩ => ⟨later, next, linked⟩,
      fun follows => ⟨follows.later, follows.next, follows.linked⟩⟩

/-- Whether a call replaces the collector's state file. -/
def Holdings.persists (collectorId : String) (fault : AcceptFault) (batch : Batch)
    (held : Holdings) : Bool :=
  fault ≠ .crashFirst && batch.Follows (held.current collectorId) &&
    (writeRecords collectorId fault.cut batch.records held.spool).1 && !fault.crashesInSpool &&
    fault.renames

/-- A call that did not write: why, and what it was answered. -/
inductive TurnedAway (batch : Batch) (state : ChainState) : Ack → Prop where
  | duplicate (old : batch.seq ≤ state.lastSeq) :
      TurnedAway batch state ⟨.duplicate, .none, state.lastSeq + 1⟩
  | seqGap (later : state.lastSeq < batch.seq) (gap : batch.seq ≠ state.lastSeq + 1) :
      TurnedAway batch state ⟨.reject, .seqGap, state.lastSeq + 1⟩
  | hashMismatch (next : batch.seq = state.lastSeq + 1)
      (unlinked : batch.prevBatchHash ≠ state.lastBatchHash) :
      TurnedAway batch state ⟨.reject, .hashMismatch, state.lastSeq + 1⟩

/-- How a call that wrote to the spool ended without being answered `Accepted`. -/
inductive Unfinished (state : ChainState) : Option ChainState → Option Ack → Prop where
  | crashed : Unfinished state none none
  | retry : Unfinished state (some state) (some ⟨.retry, .spoolWriteFailed, state.lastSeq + 1⟩)

/-- Everything one call of `accept` can do: the holdings and the answer it leaves, and whether it
replaced the state file. -/
inductive AcceptStep (collectorId : String) (batch : Batch) (held : Holdings) :
    Holdings → Option Ack → Bool → Prop where
  | crashed : AcceptStep collectorId batch held held.restart none false
  | turnedAway {ack : Ack} (why : TurnedAway batch (held.current collectorId) ack) :
      AcceptStep collectorId batch held
        { held with cached := some (held.current collectorId) } (some ack) false
  | attempted {part : Bytes} {cached : Option ChainState} {answer : Option Ack}
      (follows : batch.Follows (held.current collectorId))
      (beginning : part <+: terminated batch.records)
      (ended : Unfinished (held.current collectorId) cached answer) :
      AcceptStep collectorId batch held
        { held with cached := cached, spool := held.spool ++ part } answer false
  | persisted {cached : Option ChainState} {answer : Option Ack}
      (follows : batch.Follows (held.current collectorId))
      (safe : isSafePathComponent collectorId = true)
      (ended : Unfinished (held.current collectorId) cached answer) :
      AcceptStep collectorId batch held
        { stored := some batch.state, cached, spool := held.spool ++ terminated batch.records }
        answer true
  | accepted (follows : batch.Follows (held.current collectorId))
      (safe : isSafePathComponent collectorId = true) :
      AcceptStep collectorId batch held
        { stored := some batch.state, cached := some batch.state,
          spool := held.spool ++ terminated batch.records }
        (some ⟨.accepted, .none, batch.seq + 1⟩) true

theorem writeRecords_cases (collectorId : String) (cut : Option ℕ) (records : List Bytes)
    (file : Bytes) :
    (isSafePathComponent collectorId = true ∧
        writeRecords collectorId cut records file = (true, file ++ terminated records)) ∨
      ∃ part, part <+: terminated records ∧
        writeRecords collectorId cut records file = (false, file ++ part) := by
  unfold writeRecords
  split
  · rename_i safe
    cases cut with
    | none => exact Or.inl ⟨safe, rfl⟩
    | some size => exact Or.inr ⟨_, List.take_prefix _ _, rfl⟩
  · exact Or.inr ⟨[], List.nil_prefix, by simp⟩

theorem accept_step (collectorId : String) (fault : AcceptFault) (batch : Batch)
    (held : Holdings) :
    AcceptStep collectorId batch held (held.accept collectorId fault batch).1
      (held.accept collectorId fault batch).2 (held.persists collectorId fault batch) := by
  have turned (stays : ¬batch.Follows (held.current collectorId)) :
      held.persists collectorId fault batch = false := by
    simp [Holdings.persists, stays]
  simp only [Holdings.accept]
  by_cases early : fault = .crashFirst
  · rw [if_pos early, show held.persists collectorId fault batch = false by
      simp [Holdings.persists, early]]
    exact .crashed
  rw [if_neg early]
  by_cases old : batch.seq ≤ (held.current collectorId).lastSeq
  · rw [if_pos old, turned fun follows => UInt64.not_le.mpr follows.later old]
    exact .turnedAway (.duplicate old)
  rw [if_neg old]
  have later := UInt64.not_le.mp old
  by_cases next : batch.seq = (held.current collectorId).lastSeq + 1
  swap
  · rw [if_pos next, turned fun follows => next follows.next]
    exact .turnedAway (.seqGap later next)
  rw [if_neg (not_not_intro next)]
  by_cases linked : batch.prevBatchHash = (held.current collectorId).lastBatchHash
  swap
  · rw [if_pos linked, turned fun follows => linked follows.linked]
    exact .turnedAway (.hashMismatch next linked)
  rw [if_neg (not_not_intro linked)]
  have follows : batch.Follows (held.current collectorId) := ⟨later, next, linked⟩
  simp only [Holdings.persists, early, follows, ne_eq]
  rcases writeRecords_cases collectorId fault.cut batch.records held.spool with
    ⟨safe, written⟩ | ⟨part, beginning, written⟩
  · simp only [written, Bool.not_true]
    cases fault with
    | none => exact .accepted follows safe
    | crashFirst => exact absurd rfl early
    | spool cut crash =>
        cases crash with
        | false => exact .accepted follows safe
        | true => exact .attempted follows List.prefix_rfl .crashed
    | store renamed crash =>
        cases renamed with
        | false =>
            cases crash with
            | false => exact .attempted follows List.prefix_rfl .retry
            | true => exact .attempted follows List.prefix_rfl .crashed
        | true =>
            cases crash with
            | false => exact .persisted follows safe .retry
            | true => exact .persisted follows safe .crashed
    | crashLast => exact .persisted follows safe .crashed
  · simp only [written]
    split
    · exact .attempted follows beginning .crashed
    · exact .attempted follows beginning .retry

/-- `decode_reject_reason`. -/
def FrameError.rejectReason : FrameError → AckReason
  | .frameTooLarge | .recordTooLarge => .oversize
  | .hashMismatch => .hashMismatch
  | .recordNewline => .badRecordNewline
  | .badMagic | .badVersion | .truncated | .tooManyRecords | .emptyBatch => .malformed

/-- One frame of a collector's connection.  A frame that does not decode is rejected without
looking at the collector's state. -/
def Holdings.handleFrame (hash : Bytes → Digest) (collectorId : String) (fault : AcceptFault)
    (bytes : Bytes) (held : Holdings) : Holdings × Option Ack :=
  match decodeFrame hash bytes with
  | .ok batch => held.accept collectorId fault batch
  | .error error =>
      if fault = .crashFirst then (held.restart, none)
      else (held, some ⟨.reject, error.rejectReason, 0⟩)

theorem Batch.Follows.toNat_seq {batch : Batch} {state : ChainState}
    (follows : batch.Follows state) : batch.seq.toNat = state.lastSeq.toNat + 1 := by
  have later := UInt64.lt_iff_toNat_lt.mp follows.later
  have next := congrArg UInt64.toNat follows.next
  rw [UInt64.toNat_add] at next
  have one : (1 : UInt64).toNat = 1 := rfl
  omega

end Propolis
