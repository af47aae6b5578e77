import Propolis.Gateway.Verify
import Propolis.Lib.Sha256

/-!
# What the gateway accepts

Runs of the gateway: frames of any collectors, faults and crashes anywhere.  Each
decoded batch leaves an entry in the run's history, with the answer it got (none
if the gateway died) and the bytes it added to the spool.

The batches a gateway comes to hold as accepted are a chain: numbered from one,
each naming the hash of the one before, each written to the spool in full.  Those
answered `Accepted` are among them, but a crash behind the rename of the state
file accepts a batch that nobody was told about; its resend is a duplicate.
`CollectorTracks` is the invariant.  While a state file was replaced and the call still
failed, the file is one batch (`pending`) ahead of the map, and a restart takes
the file.
-/

namespace Propolis

open Bytes

abbrev Gateway := String → Holdings

def Gateway.restart (gateway : Gateway) : Gateway :=
  fun collectorId => (gateway collectorId).restart

inductive GatewayStep where
  | frame (collectorId : String) (bytes : Bytes) (fault : AcceptFault)
  | crash

/-- A decoded batch, its answer and what it appended to its collector's spool. -/
structure Handled where
  batch : Batch
  answer : Option Ack
  appended : Bytes

/-- The answer of the frame loop; a frame over the limit closes the connection unread. -/
def Gateway.serve (hash : Bytes → Digest) (collectorId : String) (bytes : Bytes)
    (fault : AcceptFault) (gateway : Gateway) : Gateway × Option Ack :=
  if maxFrameLen < bytes.length then (gateway, none)
  else
    let outcome := (gateway collectorId).handleFrame hash collectorId fault bytes
    let served := Function.update gateway collectorId outcome.1
    (if outcome.2.isNone then Gateway.restart served else served, outcome.2)

structure GatewayRun where
  gateway : Gateway
  history : List (String × Handled)

def GatewayRun.start : GatewayRun := ⟨fun _ => .empty, []⟩

def GatewayRun.step (hash : Bytes → Digest) (run : GatewayRun) : GatewayStep → GatewayRun
  | .crash => { run with gateway := run.gateway.restart }
  | .frame collectorId bytes fault =>
      let served := run.gateway.serve hash collectorId bytes fault
      { gateway := served.1
        history :=
          match decodeFrame hash bytes with
          | .error _ => run.history
          | .ok batch => run.history ++ [(collectorId,
              { batch, answer := served.2,
                appended := (served.1 collectorId).spool.drop
                  (run.gateway collectorId).spool.length })] }

def runGateway (hash : Bytes → Digest) (steps : List GatewayStep) : GatewayRun :=
  steps.foldl (GatewayRun.step hash) .start

def GatewayRun.entries (run : GatewayRun) (collectorId : String) : List Handled :=
  (run.history.filter (·.1 = collectorId)).map (·.2)

def Handled.isAccepted (entry : Handled) : Bool :=
  entry.answer.any (·.status = .accepted)

def Handled.writes (entry : Handled) : Bool :=
  entry.appended ≠ []

/-- What an entry may have appended while `count` batches were accepted: a beginning of its own
records, and nothing unless it was at most the next batch. -/
structure Handled.Within (entry : Handled) (count : ℕ) : Prop where
  beginning : entry.appended <+: terminated entry.batch.records
  seq : entry.writes = true → 0 < entry.batch.seq.toNat ∧ entry.batch.seq.toNat ≤ count + 1

/-- The state a collector has after a chain of batches. -/
def stateAfter (kept : List Handled) : ChainState :=
  (kept.getLast?.map (·.batch.state)).getD ChainState.fresh

/-- The entries are numbered from one, linked by their hashes and written in full. -/
def Chained (kept : List Handled) : Prop :=
  ∀ index entry, kept[index]? = some entry →
    entry.batch.seq.toNat = index + 1 ∧
      entry.batch.prevBatchHash = (stateAfter (kept.take index)).lastBatchHash ∧
      entry.appended = terminated entry.batch.records

variable {kept : List Handled} {collectorId : String}

section Chain

variable {entry : Handled}

@[simp]
theorem stateAfter_append_singleton (kept : List Handled) (entry : Handled) :
    stateAfter (kept ++ [entry]) = entry.batch.state := by
  simp [stateAfter]

theorem Chained.snoc (chained : Chained kept) (follows : entry.batch.Follows (stateAfter kept))
    (numbered : (stateAfter kept).lastSeq.toNat = kept.length)
    (complete : entry.appended = terminated entry.batch.records) : Chained (kept ++ [entry]) := by
  intro index other here
  rcases Nat.lt_trichotomy index kept.length with inside | atEnd | beyond
  · rw [List.getElem?_append_left inside] at here
    rw [List.take_append_of_le_length inside.le]
    exact chained index other here
  · subst atEnd
    simp only [List.getElem?_concat_length, Option.some.injEq] at here
    subst here
    rw [List.take_left' rfl, follows.toNat_seq, numbered]
    exact ⟨rfl, follows.linked, complete⟩
  · rw [List.getElem?_eq_none (by simp; omega)] at here
    cases here

theorem Chained.lastSeq (chained : Chained kept) :
    (stateAfter kept).lastSeq.toNat = kept.length := by
  cases kept using List.reverseRecOn with
  | nil => rfl
  | append_singleton front last =>
      have numbered := (chained front.length last (by simp)).1
      simpa [Batch.state] using numbered

end Chain

/-- How one collector's holdings relate to its history; `kept` are the accepted entries. -/
structure CollectorTracks (collectorId : String) (held : Holdings) (entries kept : List Handled) :
    Prop where
  kept_sublist : kept.Sublist entries
  answered : (entries.filter (·.isAccepted)).Sublist kept
  chained : Chained kept
  spool : held.spool = entries.flatMap (·.appended)
  ordered : (entries.filter (·.writes)).Pairwise (·.batch.seq ≤ ·.batch.seq)
  within : ∀ entry ∈ entries, entry.Within kept.length
  cached : ∀ state, held.cached = some state → state = stateAfter kept
  loaded : held.load collectorId = stateAfter kept ∨
    held.cached ≠ none ∧ ∃ pending, held.load collectorId = stateAfter (kept ++ [pending]) ∧
      (kept ++ [pending]).Sublist entries ∧ Chained (kept ++ [pending])

theorem Handled.Within.mono {entry : Handled} {count larger : ℕ} (within : entry.Within count)
    (le : count ≤ larger) : entry.Within larger :=
  ⟨within.beginning, fun writes => ⟨(within.seq writes).1, by have := (within.seq writes).2; omega⟩⟩

namespace CollectorTracks

variable {held : Holdings} {entries : List Handled}

theorem start (collectorId : String) : CollectorTracks collectorId .empty [] [] where
  kept_sublist := List.Sublist.refl _
  answered := List.Sublist.refl _
  chained := by
    intro index entry here
    simp at here
  spool := rfl
  ordered := List.Pairwise.nil
  within := by simp
  cached := by simp [Holdings.empty]
  loaded := by
    left
    simp [Holdings.load, Holdings.empty, stateAfter]

section

variable (tracks : CollectorTracks collectorId held entries kept)
include tracks

theorem current_eq : held.current collectorId = stateAfter kept := by
  cases inMap : held.cached with
  | some state => simp [Holdings.current, inMap, tracks.cached state inMap]
  | none =>
      rcases tracks.loaded with same | ⟨present, -⟩
      · simp [Holdings.current, inMap, same]
      · exact absurd inMap present

/-- A restart puts the state file in force. -/
theorem restart : ∃ kept', CollectorTracks collectorId held.restart entries kept' := by
  rcases tracks.loaded with same | ⟨-, pending, ahead, sublist, chained⟩
  · exact ⟨kept, { tracks with cached := by simp [Holdings.restart], loaded := Or.inl same }⟩
  · refine ⟨kept ++ [pending], { tracks with
      kept_sublist := sublist
      answered := tracks.answered.trans (List.sublist_append_left _ _)
      chained := chained
      within := fun entry member => (tracks.within entry member).mono (by simp)
      cached := by simp [Holdings.restart]
      loaded := Or.inl ahead }⟩

/-- A further entry keeps the order of the writes and their bound. -/
theorem history_push {entry : Handled}
    (beginning : entry.appended <+: terminated entry.batch.records)
    (next : entry.writes = true → entry.batch.seq.toNat = kept.length + 1) :
    ((entries ++ [entry]).filter (·.writes)).Pairwise (·.batch.seq ≤ ·.batch.seq) ∧
      ∀ other ∈ entries ++ [entry], other.Within kept.length := by
  constructor
  · rw [List.filter_append, List.pairwise_append]
    refine ⟨tracks.ordered, List.Pairwise.filter _ (List.pairwise_singleton _ _), ?_⟩
    intro old oldMem new newMem
    simp only [List.mem_filter, List.mem_singleton] at oldMem newMem
    rcases newMem with ⟨rfl, writes⟩
    rw [UInt64.le_iff_toNat_le, next writes]
    exact ((tracks.within old oldMem.1).seq oldMem.2).2
  · intro other member
    rcases List.mem_append.mp member with old | new
    · exact tracks.within other old
    · rw [List.mem_singleton.mp new]
      refine ⟨beginning, fun writes => ?_⟩
      rw [next writes]
      exact ⟨Nat.succ_pos _, le_refl _⟩

/-- A further entry that did not get its batch accepted. -/
theorem push (entry : Handled) (beginning : entry.appended <+: terminated entry.batch.records)
    (next : entry.writes = true → entry.batch.seq.toNat = kept.length + 1)
    (notAccepted : entry.isAccepted = false) :
    CollectorTracks collectorId
      { held with cached := some (held.current collectorId), spool := held.spool ++ entry.appended }
      (entries ++ [entry]) kept := by
  rcases tracks.history_push beginning next with ⟨ordered, within⟩
  refine ⟨tracks.kept_sublist.trans (List.sublist_append_left _ _), ?_, tracks.chained, ?_,
    ordered, within, ?_, ?_⟩
  · simpa [List.filter_append, notAccepted] using tracks.answered
  · simp [tracks.spool]
  · intro state inMap
    rw [← tracks.current_eq]
    exact (Option.some.inj inMap).symm
  · rcases tracks.loaded with same | ⟨-, pending, ahead, sublist, chained⟩
    · exact Or.inl same
    · exact Or.inr ⟨by simp, pending, ahead, sublist.trans (List.sublist_append_left _ _), chained⟩

theorem seq_eq {batch : Batch} (follows : batch.Follows (held.current collectorId)) :
    batch.seq.toNat = kept.length + 1 := by
  rw [follows.toNat_seq, tracks.current_eq, tracks.chained.lastSeq]

section

variable (entry : Handled) (follows : entry.batch.Follows (held.current collectorId))
  (safe : isSafePathComponent collectorId = true)
  (complete : entry.appended = terminated entry.batch.records)
include follows safe complete

/-- The state file was replaced, but the map still holds the state before. -/
theorem pend (notAccepted : entry.isAccepted = false) :
    CollectorTracks collectorId
      { stored := some entry.batch.state, cached := some (held.current collectorId),
        spool := held.spool ++ entry.appended }
      (entries ++ [entry]) kept := by
  have pushed := tracks.push entry (complete ▸ List.prefix_rfl) (fun _ => tracks.seq_eq follows)
    notAccepted
  rw [tracks.current_eq] at follows
  refine { pushed with loaded := Or.inr ⟨by simp, entry, ?_, ?_, ?_⟩ }
  · simp [Holdings.load, safe]
  · exact tracks.kept_sublist.append_right [entry]
  · exact tracks.chained.snoc follows tracks.chained.lastSeq complete

theorem accepted :
    CollectorTracks collectorId
      { stored := some entry.batch.state, cached := some entry.batch.state,
        spool := held.spool ++ entry.appended }
      (entries ++ [entry]) (kept ++ [entry]) := by
  rcases tracks.history_push (complete ▸ List.prefix_rfl) (fun _ => tracks.seq_eq follows) with
    ⟨ordered, within⟩
  rw [tracks.current_eq] at follows
  refine ⟨tracks.kept_sublist.append_right [entry], ?_,
    tracks.chained.snoc follows tracks.chained.lastSeq complete, ?_, ordered, ?_, ?_, ?_⟩
  · rw [List.filter_append]
    exact tracks.answered.append List.filter_sublist
  · simp [tracks.spool]
  · exact fun other member => (within other member).mono (by simp)
  · simp
  · left
    simp [Holdings.load, safe]

end

/-- One call of `accept`, recorded in the history. -/
theorem accept (fault : AcceptFault) (batch : Batch) :
    ∃ kept', CollectorTracks collectorId (held.accept collectorId fault batch).1
      (entries ++ [{ batch, answer := (held.accept collectorId fault batch).2,
                     appended := (held.accept collectorId fault batch).1.spool.drop
                       held.spool.length }]) kept' := by
  have step := accept_step collectorId fault batch held
  generalize held.persists collectorId fault batch = persisted at step
  generalize held.accept collectorId fault batch = outcome at step
  rcases outcome with ⟨after, answer⟩
  cases step with
  | crashed =>
      have pushed := tracks.push ⟨batch, none, []⟩ List.nil_prefix (by simp [Handled.writes]) rfl
      rcases pushed.restart with ⟨kept', restarted⟩
      exact ⟨kept', by simpa [Holdings.restart] using restarted⟩
  | turnedAway why =>
      rename_i ack
      have notAccepted : (⟨batch, some ack, []⟩ : Handled).isAccepted = false := by
        cases why <;> rfl
      have pushed := tracks.push ⟨batch, some ack, []⟩ List.nil_prefix (by simp [Handled.writes])
        notAccepted
      exact ⟨kept, by simpa using pushed⟩
  | attempted follows beginning ended =>
      rename_i part cached
      have next := tracks.seq_eq follows
      cases ended with
      | crashed =>
          have pushed := tracks.push ⟨batch, none, part⟩ beginning (fun _ => next) rfl
          rcases pushed.restart with ⟨kept', restarted⟩
          exact ⟨kept', by simpa [Holdings.restart] using restarted⟩
      | retry =>
          have pushed := tracks.push ⟨batch, some ⟨.retry, .spoolWriteFailed,
            (held.current collectorId).lastSeq + 1⟩, part⟩ beginning (fun _ => next) rfl
          exact ⟨kept, by simpa using pushed⟩
  | persisted follows safe ended =>
      cases ended with
      | crashed =>
          rcases (tracks.pend ⟨batch, none, terminated batch.records⟩ follows safe rfl
            rfl).restart with ⟨kept', restarted⟩
          exact ⟨kept', by simpa [Holdings.restart] using restarted⟩
      | retry =>
          have pending := tracks.pend ⟨batch, some ⟨.retry, .spoolWriteFailed,
            (held.current collectorId).lastSeq + 1⟩, terminated batch.records⟩ follows safe rfl rfl
          exact ⟨kept, by simpa using pending⟩
  | accepted follows safe =>
      have done := tracks.accepted ⟨batch, some ⟨.accepted, .none, batch.seq + 1⟩,
        terminated batch.records⟩ follows safe rfl
      exact ⟨_, by simpa using done⟩

end

end CollectorTracks

section Runs

variable {hash : Bytes → Digest} {bytes : Bytes} {run : GatewayRun}

theorem serve_self (gateway : Gateway) (collectorId : String)
    (fault : AcceptFault) (short : ¬maxFrameLen < bytes.length) :
    (gateway.serve hash collectorId bytes fault).2 =
        ((gateway collectorId).handleFrame hash collectorId fault bytes).2 ∧
      ((gateway.serve hash collectorId bytes fault).1 collectorId =
          ((gateway collectorId).handleFrame hash collectorId fault bytes).1 ∨
        (gateway.serve hash collectorId bytes fault).1 collectorId =
          ((gateway collectorId).handleFrame hash collectorId fault bytes).1.restart) := by
  simp only [Gateway.serve, if_neg short]
  refine ⟨trivial, ?_⟩
  split
  · exact Or.inr (by simp [Gateway.restart])
  · exact Or.inl (by simp)

/-- A frame changes nothing another collector has; only a crash takes away its map entry. -/
theorem serve_other (gateway : Gateway) {other : String} (bytes : Bytes)
    (fault : AcceptFault) (different : other ≠ collectorId) :
    (gateway.serve hash collectorId bytes fault).1 other = gateway other ∨
      (gateway.serve hash collectorId bytes fault).2 = none ∧
        (gateway.serve hash collectorId bytes fault).1 other = (gateway other).restart := by
  simp only [Gateway.serve]
  by_cases long : maxFrameLen < bytes.length
  · exact Or.inl (by rw [if_pos long])
  · rw [if_neg long]
    split
    · rename_i silent
      exact Or.inr ⟨Option.isNone_iff_eq_none.mp silent,
        by simp [Gateway.restart, Function.update_of_ne different]⟩
    · exact Or.inl (by simp [Function.update_of_ne different])

/-- Every collector's holdings are explained by its history. -/
def GatewayRun.Tracked (run : GatewayRun) : Prop :=
  ∀ collectorId, ∃ kept,
    CollectorTracks collectorId (run.gateway collectorId) (run.entries collectorId) kept

theorem Tracked.restart (tracked : run.Tracked) :
    GatewayRun.Tracked { run with gateway := run.gateway.restart } := by
  intro collectorId
  rcases tracked collectorId with ⟨kept, tracks⟩
  exact tracks.restart

/-- A frame leaves no entry with another collector. -/
theorem entries_other (run : GatewayRun) {observed : String} (bytes : Bytes)
    (fault : AcceptFault) (different : observed ≠ collectorId) :
    (run.step hash (.frame collectorId bytes fault)).entries observed = run.entries observed := by
  simp only [GatewayRun.step, GatewayRun.entries]
  split
  · rfl
  · simp [Ne.symm different]

/-- What holds of a collector's holdings after a call holds whether or not the gateway died. -/
theorem CollectorTracks.served {handled after : Holdings} {entries : List Handled}
    (tracked : ∃ kept, CollectorTracks collectorId handled entries kept)
    (held : after = handled ∨ after = handled.restart) :
    ∃ kept, CollectorTracks collectorId after entries kept := by
  rcases held with rfl | rfl
  · exact tracked
  · rcases tracked with ⟨kept, tracks⟩
    exact tracks.restart

/-- A frame of the collector itself. -/
theorem CollectorTracks.frame
    (tracks : CollectorTracks collectorId (run.gateway collectorId) (run.entries collectorId) kept)
    (fault : AcceptFault) (short : ¬maxFrameLen < bytes.length) :
    ∃ kept', CollectorTracks collectorId
      ((run.gateway.serve hash collectorId bytes fault).1 collectorId)
      ((run.step hash (.frame collectorId bytes fault)).entries collectorId) kept' := by
  rcases serve_self run.gateway collectorId fault short with ⟨answer, held⟩
  apply CollectorTracks.served _ held
  cases decoded : decodeFrame hash bytes with
  | error error =>
      have entries : (run.step hash (.frame collectorId bytes fault)).entries collectorId =
          run.entries collectorId := by
        simp [GatewayRun.step, GatewayRun.entries, decoded]
      rw [entries]
      simp only [Holdings.handleFrame, decoded]
      split
      · exact tracks.restart
      · exact ⟨kept, tracks⟩
  | ok batch =>
      have outcome : (run.gateway collectorId).handleFrame hash collectorId fault bytes =
          (run.gateway collectorId).accept collectorId fault batch := by
        simp [Holdings.handleFrame, decoded]
      rw [outcome] at answer held ⊢
      have spool : ((run.gateway.serve hash collectorId bytes fault).1 collectorId).spool =
          ((run.gateway collectorId).accept collectorId fault batch).1.spool := by
        rcases held with served | restarted
        · rw [served]
        · rw [restarted]
          rfl
      have entries : (run.step hash (.frame collectorId bytes fault)).entries collectorId =
          run.entries collectorId ++
            [{ batch, answer := ((run.gateway collectorId).accept collectorId fault batch).2,
               appended := ((run.gateway collectorId).accept collectorId fault batch).1.spool.drop
                 (run.gateway collectorId).spool.length }] := by
        simp [GatewayRun.step, GatewayRun.entries, decoded, answer, spool]
      rw [entries]
      exact tracks.accept fault batch

theorem Tracked.frame (tracked : run.Tracked) (collectorId : String)
    (bytes : Bytes) (fault : AcceptFault) :
    (run.step hash (.frame collectorId bytes fault)).Tracked := by
  intro observed
  rcases tracked observed with ⟨kept, tracks⟩
  by_cases same : observed = collectorId
  · subst same
    by_cases long : maxFrameLen < bytes.length
    · refine ⟨kept, ?_⟩
      simpa [GatewayRun.step, GatewayRun.entries, decodeFrame, Gateway.serve,
        if_pos long] using tracks
    · exact tracks.frame fault long
  · rw [entries_other run bytes fault same]
    apply CollectorTracks.served ⟨kept, tracks⟩
    exact (serve_other run.gateway bytes fault same).imp_right And.right

theorem runGateway_tracked (steps : List GatewayStep) : (runGateway hash steps).Tracked := by
  induction steps using List.reverseRecOn with
  | nil => exact fun collectorId => ⟨[], CollectorTracks.start collectorId⟩
  | append_singleton earlier step ih =>
      simp only [runGateway, List.foldl_append]
      cases step with
      | crash => exact Tracked.restart ih
      | frame collectorId bytes fault => exact Tracked.frame ih collectorId bytes fault

/-- A batch that is answered `Duplicate` or `Reject` has written nothing. -/
theorem serve_quiet (gateway : Gateway) {fault : AcceptFault} {ack : Ack}
    (answer : (gateway.serve hash collectorId bytes fault).2 = some ack)
    (status : ack.status = .duplicate ∨ ack.status = .reject) (other : String) :
    ((gateway.serve hash collectorId bytes fault).1 other).spool = (gateway other).spool := by
  by_cases same : other = collectorId
  swap
  · rcases serve_other gateway bytes fault same with untouched | ⟨silent, -⟩
    · rw [untouched]
    · rw [silent] at answer
      cases answer
  subst same
  by_cases long : maxFrameLen < bytes.length
  · simp [Gateway.serve, if_pos long]
  have quiet : ∀ after, (gateway other).handleFrame hash other fault bytes = (after, some ack) →
      after.spool = (gateway other).spool := by
    intro after handled
    simp only [Holdings.handleFrame] at handled
    split at handled
    · rename_i batch _
      have step := accept_step other fault batch (gateway other)
      rw [handled] at step
      generalize (gateway other).persists other fault batch = persisted at step
      cases step with
      | turnedAway => rfl
      | attempted _ _ ended | persisted _ _ ended =>
          cases ended
          simp at status
      | accepted => simp at status
    · split at handled
      · cases handled
      · rw [← (Prod.mk.inj handled).1]
  rcases serve_self gateway other fault long with ⟨sameAnswer, held⟩
  rw [answer] at sameAnswer
  have spool := quiet _ (Prod.ext rfl sameAnswer.symm)
  rcases held with served | restarted
  · rw [served]
    exact spool
  · rw [restarted]
    exact spool

end Runs

/--
Whatever the collectors send and wherever the gateway fails or dies, each
collector's accepted batches form a chain: numbered from one, linked by their
hashes, written to the spool in full and in that order.  The batches answered
`Accepted` are among them, in order.  The spool consists of what the calls
appended; attempts at one sequence number follow those at smaller ones, and
there are none beyond the next one.  A batch answered `Duplicate` or `Reject`
writes nothing, and a frame changes nothing that another collector has.
-/
theorem gateway_accepts_chain (hash : Bytes → Digest) :
    (∀ (steps : List GatewayStep) (collectorId : String), ∃ kept : List Handled,
      kept.Sublist ((runGateway hash steps).entries collectorId) ∧
      (((runGateway hash steps).entries collectorId).filter (·.isAccepted)).Sublist kept ∧
      Chained kept ∧
      ((runGateway hash steps).gateway collectorId).current collectorId = stateAfter kept ∧
      ((runGateway hash steps).gateway collectorId).spool =
        ((runGateway hash steps).entries collectorId).flatMap (·.appended) ∧
      (((runGateway hash steps).entries collectorId).filter (·.writes)).Pairwise
        (·.batch.seq ≤ ·.batch.seq) ∧
      ∀ entry ∈ (runGateway hash steps).entries collectorId, entry.Within kept.length) ∧
    (∀ (gateway : Gateway) (collectorId : String) (bytes : Bytes) (fault : AcceptFault) (ack : Ack),
      (gateway.serve hash collectorId bytes fault).2 = some ack →
      ack.status = .duplicate ∨ ack.status = .reject →
      ∀ other, ((gateway.serve hash collectorId bytes fault).1 other).spool =
        (gateway other).spool) ∧
    ∀ (gateway : Gateway) (collectorId other : String) (bytes : Bytes) (fault : AcceptFault),
      other ≠ collectorId →
      (gateway.serve hash collectorId bytes fault).1 other = gateway other ∨
        (gateway.serve hash collectorId bytes fault).2 = none ∧
          (gateway.serve hash collectorId bytes fault).1 other = (gateway other).restart := by
  refine ⟨?_, ?_, ?_⟩
  · intro steps collectorId
    rcases @runGateway_tracked hash steps collectorId with ⟨kept, tracks⟩
    exact ⟨kept, tracks.kept_sublist, tracks.answered, tracks.chained, tracks.current_eq,
      tracks.spool, tracks.ordered, tracks.within⟩
  · intro gateway collectorId bytes fault ack answer status
    exact serve_quiet gateway answer status
  · intro gateway collectorId other bytes fault different
    exact serve_other gateway bytes fault different

def firstBatch : Batch := sealBatch sha256 1 zeroHash [ofText "a"]

def secondBatch : Batch := sealBatch sha256 2 firstBatch.batchHash [ofText "b"]

theorem gateway_accepts_chain_two_batches :
    ∃ kept : List Handled,
      (((runGateway sha256 [.frame "c1" (encodeFrame firstBatch) .none,
        .frame "c1" (encodeFrame secondBatch) .none]).entries "c1").filter
          (·.isAccepted)).Sublist kept ∧ Chained kept := by
  rcases (gateway_accepts_chain sha256).1 [.frame "c1" (encodeFrame firstBatch) .none,
    .frame "c1" (encodeFrame secondBatch) .none] "c1" with ⟨kept, -, answered, chained, -⟩
  exact ⟨kept, answered, chained⟩

/--
The gateway dies after it has replaced the state file for the first batch.  The
resend is a duplicate, and the second batch is the only one ever answered
`Accepted`.
-/
theorem gateway_accepted_without_answer :
    ∃ (steps : List GatewayStep) (collectorId : String),
      ¬∃ count, (((runGateway sha256 steps).entries collectorId).filter (·.isAccepted)).map
        (·.batch.seq.toNat) = List.range' 1 count := by
  refine ⟨[.frame "c1" (encodeFrame firstBatch) .crashLast,
    .frame "c1" (encodeFrame firstBatch) .none, .frame "c1" (encodeFrame secondBatch) .none],
    "c1", ?_⟩
  rintro ⟨count, same⟩
  have answered : (((runGateway sha256 [.frame "c1" (encodeFrame firstBatch) .crashLast,
      .frame "c1" (encodeFrame firstBatch) .none,
      .frame "c1" (encodeFrame secondBatch) .none]).entries "c1").filter (·.isAccepted)).map
        (·.batch.seq.toNat) = [2] := by decide +kernel
  rw [answered] at same
  cases count with
  | zero => cases same
  | succ count =>
      rw [List.range'_succ] at same
      exact absurd (List.cons.inj same).1 (by decide)

end Propolis
