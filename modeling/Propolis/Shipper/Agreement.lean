import Propolis.Shipper.System

/-!
# How far the gateway can be ahead

The shipper numbers and links a batch by its own confirmed state, and takes an
answer that the gateway already has this number as one for this very batch.

`Agreement` says how far the two can be apart: the gateway is where the confirmed
state is, or one batch ahead of it, and no batch under way is beyond that one.  A
frame of any of these batches keeps it (`Agreement.frame`).  If the awaited batch is
the one the gateway is ahead by (`Matched`), an answer that confirms it says that the
gateway has stored that batch (`Agreement.answer`).
-/

namespace Propolis

open Bytes

/-- The state is `confirmed`, or the last accepted batch led from `confirmed` to it. -/
def InStep (confirmed state : ChainState) (accepted : List Batch) : Prop :=
  state = confirmed ∨
    ∃ batch, accepted.getLast? = some batch ∧ batch.Follows confirmed ∧ state = batch.state

/-- An answer that says the chain is broken. -/
def Ack.BreaksChain (ack : Ack) (batch : Batch) : Prop :=
  ack.status = .reject ∧ (ack.reason = .seqGap ∨ ack.reason = .hashMismatch) ∨
    ack.status = .duplicate ∧ ack.nextExpectedSeq ≠ batch.seq + 1

/-- Sealed as `Batch::new` does, with sizes that the wire can carry. -/
structure Batch.Sound (hash : Bytes → Digest) (batch : Batch) : Prop where
  sealed : batch = sealBatch hash batch.seq batch.prevBatchHash batch.records
  count : batch.records.length < 256 ^ 4
  sizes : ∀ record ∈ batch.records, record.length < 256 ^ 4
  clean : ∀ record ∈ batch.records, newline ∉ record

theorem sealBatch_sound (hash : Bytes → Digest) (seq : UInt64) (prevBatchHash : Digest)
    (maxRecords : ℕ) (startsOver : Bool) (content : Bytes) (tailer : Tailer) :
    (sealBatch hash seq prevBatchHash
      (nextRecords maxRecords startsOver content tailer).1).Sound hash := by
  rcases nextRecords_sizes maxRecords startsOver content tailer with ⟨count, sizes⟩
  refine ⟨rfl, ?_, ?_, fun _ => newline_notMem_of_mem_nextRecords⟩
  · simp only [sealBatch, maxRecordsFrameSafe] at count ⊢
    omega
  · intro record member
    have size := sizes record member
    simp only [maxRecordLen] at size
    omega

/-- Everything one frame of a sound batch can do. -/
inductive FrameStep (collectorId : String) (batch : Batch) (held : Holdings) :
    Holdings → Option Ack → List Batch → Prop where
  | crashed : FrameStep collectorId batch held held.restart none []
  | refused {reason : AckReason} (notGap : reason ≠ .seqGap)
      (notMismatch : reason ≠ .hashMismatch) :
      FrameStep collectorId batch held held (some ⟨.reject, reason, 0⟩) []
  | accept {after : Holdings} {answer : Option Ack} {persisted : Bool}
      (step : AcceptStep collectorId batch held after answer persisted) :
      FrameStep collectorId batch held after answer (if persisted then [batch] else [])

variable {batch : Batch} {confirmed : ChainState} {cached : Option ChainState}
  {deployment : Deployment} {held : Holdings} {accepted known : List Batch} {other : Batch}
  {after : Holdings} {ack : Ack}

theorem handleFrame_step {hash : Bytes → Digest} (collectorId : String) (fault : AcceptFault)
    (held : Holdings) (sound : batch.Sound hash) :
    FrameStep collectorId batch held
      (held.handleFrame hash collectorId fault (encodeFrame batch)).1
      (held.handleFrame hash collectorId fault (encodeFrame batch)).2
      (held.storedBy hash collectorId fault (encodeFrame batch)) := by
  cases decoded : decodeFrame hash (encodeFrame batch) with
  | ok other =>
      rw [decodeFrame_encodeFrame sound.count sound.sizes decoded] at decoded
      simp only [Holdings.handleFrame, Holdings.storedBy, decoded]
      exact .accept (accept_step collectorId fault batch held)
  | error error =>
      have own : batch.batchHash = hash (encodePrefix batch) := by
        rw [sound.sealed]
        rfl
      have known := decodeFrame_ne_hashMismatch own
      simp only [Holdings.handleFrame, Holdings.storedBy, decoded]
      split
      · exact .crashed
      · apply FrameStep.refused
        · cases error <;> decide
        · cases error with
          | hashMismatch => exact absurd decoded known
          | _ => decide

/-- A frame makes the gateway store its own batch, if any. -/
theorem FrameStep.stored_eq {collectorId : String} {answer : Option Ack} {stored : List Batch}
    (step : FrameStep collectorId batch held after answer stored) (kept : other ∈ stored) :
    other = batch := by
  cases step with
  | crashed | refused => cases kept
  | accept =>
      split at kept
      · exact List.mem_singleton.mp kept
      · cases kept

/-- The spool has the records of the batches, all those of one batch together, one batch after the
other.  What a write that was cut off has left may stand between them. -/
inductive Spooled : Bytes → List Batch → Prop where
  | nil (spool : Bytes) : Spooled spool []
  | snoc {spool : Bytes} {batches : List Batch} (before : Spooled spool batches) (batch : Batch)
      (more : Bytes) : Spooled (spool ++ terminated batch.records ++ more) (batches ++ [batch])

theorem Spooled.append {spool : Bytes} {batches : List Batch} (spooled : Spooled spool batches)
    (more : Bytes) : Spooled (spool ++ more) batches := by
  cases spooled with
  | nil => exact .nil _
  | snoc before batch later =>
      rw [List.append_assoc]
      exact .snoc before batch _

/-- How the gateway's holdings and the batches under way relate to the confirmed state. -/
structure Agreement (deployment : Deployment) (confirmed : ChainState) (held : Holdings)
    (accepted known : List Batch) : Prop where
  loaded : InStep confirmed (held.load deployment.collectorId) accepted
  cached : ∀ state, held.cached = some state →
    state = confirmed ∨ state = held.load deployment.collectorId
  sound : ∀ batch, batch ∈ known ∨ accepted.getLast? = some batch → batch.Sound deployment.hash
  near : ∀ batch ∈ known, batch.seq ≤ confirmed.lastSeq ∨ batch.Follows confirmed
  spooled : Spooled held.spool accepted

/-- If the gateway is a batch ahead, it is ahead by this one. -/
def Matched (confirmed : ChainState) (accepted : List Batch) (batch : Batch) : Prop :=
  ∀ last, accepted.getLast? = some last → last.Follows confirmed → batch = last

/-- The gateway has stored this batch and nothing after it. -/
structure Taken (deployment : Deployment) (confirmed : ChainState) (held : Holdings)
    (accepted : List Batch) (batch : Batch) : Prop where
  last : accepted.getLast? = some batch
  follows : batch.Follows confirmed
  loaded : held.load deployment.collectorId = batch.state
  current : held.current deployment.collectorId = batch.state

/-- An answer to the awaited batch. -/
structure Answer (deployment : Deployment) (confirmed : ChainState) (held : Holdings)
    (accepted : List Batch) (batch : Batch) (ack : Ack) : Prop where
  confirms : ack.Confirms batch → Taken deployment confirmed held accepted batch
  keeps : batch.Follows confirmed → ¬ack.BreaksChain batch

theorem Batch.Follows.ne_state (follows : batch.Follows confirmed) : confirmed ≠ batch.state := by
  rintro rfl
  exact UInt64.lt_irrefl _ follows.later

theorem Unfinished.cached_eq {state : ChainState} {answer : Option Ack}
    (ended : Unfinished state cached answer) : cached = none ∨ cached = some state := by
  cases ended with
  | crashed => exact Or.inl rfl
  | retry => exact Or.inr rfl

namespace Agreement

theorem mem_of_last (member : batch ∈ known)
    (among : other ∈ known ∨ (accepted ++ [batch]).getLast? = some other) : other ∈ known := by
  rcases among with inside | last
  · exact inside
  · simp only [List.getLast?_concat, Option.some.injEq] at last
    exact last ▸ member

variable (agreement : Agreement deployment confirmed held accepted known)
include agreement

theorem current_cases :
    held.current deployment.collectorId = confirmed ∨
      held.current deployment.collectorId = held.load deployment.collectorId := by
  cases inMap : held.cached with
  | none => exact Or.inr (by simp [Holdings.current, inMap])
  | some state =>
      simp only [Holdings.current, inMap]
      exact agreement.cached state inMap

theorem current : InStep confirmed (held.current deployment.collectorId) accepted := by
  rcases agreement.current_cases with same | same
  · exact Or.inl same
  · rw [same]
    exact agreement.loaded

theorem subset {fewer : List Batch} (included : fewer ⊆ known) :
    Agreement deployment confirmed held accepted fewer where
  loaded := agreement.loaded
  cached := agreement.cached
  sound := fun batch among => agreement.sound batch (among.imp_left fun inside => included inside)
  near := fun batch member => agreement.near batch (included member)
  spooled := agreement.spooled

theorem seq_le (member : batch ∈ known) : batch.seq.toNat ≤ confirmed.lastSeq.toNat + 1 := by
  rcases agreement.near batch member with old | next
  · exact (UInt64.le_iff_toNat_le.mp old).trans (Nat.le_succ _)
  · exact next.toNat_seq.le

/-- A batch under way that the gateway would accept is the one after the confirmed state. -/
theorem current_eq (member : batch ∈ known)
    (follows : batch.Follows (held.current deployment.collectorId)) :
    held.current deployment.collectorId = confirmed := by
  rcases agreement.current with same | ⟨last, -, ahead, state⟩
  · exact same
  · rw [state] at follows
    have seq := follows.toNat_seq
    have lastSeq := ahead.toNat_seq
    have most := agreement.seq_le member
    simp only [Batch.state] at seq
    omega

/-- The state file stays; the map forgets its entry or holds what it worked with. -/
theorem kept
    (entry : cached = none ∨ cached = some (held.current deployment.collectorId)) (more : Bytes) :
    Agreement deployment confirmed { held with cached, spool := held.spool ++ more } accepted
      known where
  loaded := agreement.loaded
  cached := by
    intro state inMap
    rcases entry with empty | working
    · simp [empty] at inMap
    · simp only [working, Option.some.injEq] at inMap
      rw [← inMap]
      exact agreement.current_cases
  sound := agreement.sound
  near := agreement.near
  spooled := agreement.spooled.append more

theorem restart : Agreement deployment confirmed held.restart accepted known := by
  simpa [Holdings.restart] using agreement.kept (Or.inl rfl) []

/-- The state file is replaced by that of a batch under way. -/
theorem stored (member : batch ∈ known) (follows : batch.Follows confirmed)
    (safe : isSafePathComponent deployment.collectorId = true)
    (entry : ∀ state, cached = some state → state = confirmed ∨ state = batch.state) :
    Agreement deployment confirmed
      { stored := some batch.state, cached, spool := held.spool ++ terminated batch.records }
      (accepted ++ [batch]) known where
  loaded := by
    right
    refine ⟨batch, by simp, follows, ?_⟩
    simp [Holdings.load, safe]
  cached := by
    intro state inMap
    simpa [Holdings.load, safe] using entry state inMap
  sound := fun other among => agreement.sound other (Or.inl (mem_of_last member among))
  near := agreement.near
  spooled := by
    simpa using agreement.spooled.snoc batch []

theorem frame (member : batch ∈ known) {answer : Option Ack} {stored : List Batch}
    (step : FrameStep deployment.collectorId batch held after answer stored) :
    Agreement deployment confirmed after (accepted ++ stored) known := by
  cases step with
  | crashed => simpa using agreement.restart
  | refused => simpa using agreement
  | accept step =>
      cases step with
      | crashed => simpa using agreement.restart
      | turnedAway => simpa using agreement.kept (Or.inr rfl) []
      | attempted follows beginning ended => simpa using agreement.kept ended.cached_eq _
      | persisted follows safe ended =>
          have same := agreement.current_eq member follows
          rw [same] at follows ended
          apply agreement.stored member follows safe
          intro state inMap
          rcases ended.cached_eq with empty | working
          · rw [empty] at inMap
            cases inMap
          · rw [working] at inMap
            exact Or.inl (Option.some.inj inMap).symm
      | accepted follows safe =>
          rw [agreement.current_eq member follows] at follows
          apply agreement.stored member follows safe
          intro state inMap
          exact Or.inr (Option.some.inj inMap).symm

/-- The confirmed state moves on to the batch that the gateway has. -/
theorem confirm (taken : Taken deployment confirmed held accepted batch) :
    Agreement deployment batch.state held accepted known where
  loaded := Or.inl taken.loaded
  cached := by
    intro state inMap
    left
    rw [← taken.current]
    simp [Holdings.current, inMap]
  sound := agreement.sound
  near := by
    intro other member
    left
    rw [UInt64.le_iff_toNat_le, Batch.state, taken.follows.toNat_seq]
    exact agreement.seq_le member
  spooled := agreement.spooled

/-- A batch is built. -/
theorem add (sound : batch.Sound deployment.hash)
    (near : batch.seq ≤ confirmed.lastSeq ∨ batch.Follows confirmed) :
    Agreement deployment confirmed held accepted (known ++ [batch]) where
  loaded := agreement.loaded
  cached := agreement.cached
  sound := by
    intro other among
    rw [List.mem_append, List.mem_singleton, or_right_comm] at among
    rcases among with old | rfl
    · exact agreement.sound other old
    · exact sound
  near := by
    intro other member
    rcases List.mem_append.mp member with old | new
    · exact agreement.near other old
    · rw [List.mem_singleton.mp new]
      exact near
  spooled := agreement.spooled

end Agreement

namespace Taken

section

variable (taken : Taken deployment confirmed held accepted batch)
include taken

theorem kept (entry : cached = none ∨ cached = some (held.current deployment.collectorId))
    (spool : Bytes) :
    Taken deployment confirmed { held with cached, spool } accepted batch where
  last := taken.last
  follows := taken.follows
  loaded := taken.loaded
  current := by
    rcases entry with empty | working
    · simp only [empty]
      exact taken.loaded
    · simp only [working]
      exact taken.current

theorem restart : Taken deployment confirmed held.restart accepted batch :=
  taken.kept (Or.inl rfl) held.spool

/-- The gateway accepts nothing else until the shipper has confirmed the batch. -/
theorem frame (agreement : Agreement deployment confirmed held accepted known)
    (member : other ∈ known) {answer : Option Ack} {stored : List Batch}
    (step : FrameStep deployment.collectorId other held after answer stored) :
    Taken deployment confirmed after (accepted ++ stored) batch := by
  have stays (follows : other.Follows (held.current deployment.collectorId)) : False := by
    have same := agreement.current_eq member follows
    exact taken.follows.ne_state (same.symm.trans taken.current)
  cases step with
  | crashed => simpa using taken.restart
  | refused => simpa using taken
  | accept step =>
      cases step with
      | crashed => simpa using taken.restart
      | turnedAway => simpa using taken.kept (Or.inr rfl) held.spool
      | attempted follows | persisted follows | accepted follows => exact (stays follows).elim

end

end Taken

section Answers

theorem seq_ne_next (value : UInt64) : value ≠ value + 1 := by
  simp

/-- A rejection confirms nothing. -/
theorem Answer.of_reject (status : ack.status = .reject)
    (keeps : batch.Follows confirmed → ¬ack.BreaksChain batch) :
    Answer deployment confirmed held accepted batch ack := by
  refine ⟨?_, keeps⟩
  intro confirms
  simp [Ack.Confirms, status] at confirms

/-- A request to retry neither confirms a batch nor says that the chain is broken. -/
theorem Answer.of_retry (status : ack.status = .retry) :
    Answer deployment confirmed held accepted batch ack := by
  constructor
  · intro confirms
    simp [Ack.Confirms, status] at confirms
  · intro _ breaks
    simp [Ack.BreaksChain, status] at breaks

theorem Answer.kept (answer : Answer deployment confirmed held accepted batch ack)
    (entry : cached = none ∨ cached = some (held.current deployment.collectorId)) (spool : Bytes) :
    Answer deployment confirmed { held with cached, spool } accepted batch ack :=
  ⟨fun confirms => (answer.confirms confirms).kept entry spool, answer.keeps⟩

variable (agreement : Agreement deployment confirmed held accepted known)
  (matched : Matched confirmed accepted batch)
include agreement matched

/-- The gateway is at the batch after the confirmed state, or has not seen it. -/
theorem Agreement.current_or_taken :
    held.current deployment.collectorId = confirmed ∨
      Taken deployment confirmed held accepted batch := by
  rcases agreement.current with same | ⟨last, isLast, lastFollows, same⟩
  · exact Or.inl same
  · right
    rw [matched last isLast lastFollows]
    refine ⟨isLast, lastFollows, ?_, same⟩
    rcases agreement.current_cases with atConfirmed | atLoaded
    · exact absurd (atConfirmed.symm.trans same) lastFollows.ne_state
    · exact atLoaded.symm.trans same

variable (next : batch.seq = confirmed.lastSeq + 1)
  (linked : batch.prevBatchHash = confirmed.lastBatchHash)
include next linked

/-- Why the gateway can turn away the batch that the shipper awaits: it has exactly that batch. -/
theorem Agreement.turnedAway (why : TurnedAway batch (held.current deployment.collectorId) ack) :
    Answer deployment confirmed held accepted batch ack := by
  cases why with
  | duplicate old =>
      constructor
      · rintro (accepted | ⟨-, echo⟩)
        · cases accepted
        · have number : (held.current deployment.collectorId).lastSeq = batch.seq :=
            (UInt64.add_left_inj 1).mp echo
          rcases agreement.current with same | ⟨last, -, lastFollows, same⟩
          · rw [same, next] at number
            exact absurd number (seq_ne_next _)
          · rcases agreement.current_or_taken matched with behind | taken
            · exact absurd (behind.symm.trans same) lastFollows.ne_state
            · exact taken
      · rintro follows (⟨rejected, -⟩ | ⟨-, beyond⟩)
        · cases rejected
        · rcases agreement.current_or_taken matched with behind | taken
          · rw [behind] at old
            exact absurd old (UInt64.not_le.mpr follows.later)
          · apply beyond
            rw [taken.current]
            rfl
  | seqGap later gap =>
      apply Answer.of_reject rfl
      intro follows _
      rcases agreement.current_or_taken matched with behind | taken
      · rw [behind] at gap
        exact gap next
      · rw [taken.current] at later
        exact UInt64.lt_irrefl _ later
  | hashMismatch numbered unlinked =>
      apply Answer.of_reject rfl
      intro follows _
      rcases agreement.current_or_taken matched with behind | taken
      · rw [behind] at unlinked
        exact unlinked linked
      · rw [taken.current] at numbered
        exact seq_ne_next _ numbered

/-- The gateway's answer to the batch that the shipper awaits. -/
theorem Agreement.answer (member : batch ∈ known) {stored : List Batch}
    (step : FrameStep deployment.collectorId batch held after (some ack) stored) :
    Answer deployment confirmed after (accepted ++ stored) batch ack := by
  cases step with
  | refused notGap notMismatch =>
      apply Answer.of_reject rfl
      rintro - (⟨-, gap | mismatch⟩ | ⟨duplicate, -⟩)
      · exact notGap gap
      · exact notMismatch mismatch
      · cases duplicate
  | accept step =>
      cases step with
      | turnedAway why =>
          have answer := agreement.turnedAway matched next linked why
          simpa using answer.kept (Or.inr rfl) held.spool
      | attempted _ _ ended | persisted _ _ ended =>
          cases ended
          exact Answer.of_retry rfl
      | accepted follows safe =>
          rw [agreement.current_eq member follows] at follows
          constructor
          · intro _
            refine ⟨by simp, follows, ?_, rfl⟩
            simp [Holdings.load, safe]
          · rintro - (⟨rejected, -⟩ | ⟨duplicate, -⟩)
            · cases rejected
            · cases duplicate

end Answers

end Propolis
