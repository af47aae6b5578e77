import Propolis.Shipper.Agreement
import Propolis.Gateway.Safety
import Propolis.Lib.Run

/-!
# Both ends in step

A batch that is built again after a lost answer need not carry the same records:
the log may have grown, or another log may be next.  The gateway then keeps one
batch and the shipper confirms another, and their hashes part for good
(`exchange_falls_out_of_step`).

`Exchange.agrees` is the condition under which this does not happen: a batch built
while the gateway already has its number carries the records of that batch, and so
does a late frame that the gateway stores while the answer to a batch is awaited.
In a run that meets it the two ends are always in step (`exchange_in_step`).
-/

namespace Propolis

open Bytes

/-- The records about to be read are those of the batch that the gateway is ahead by, and a frame of
a connection that was given up on is stored while a batch is awaited only if it has its records. -/
def Exchange.agrees (deployment : Deployment) (exchange : Exchange) : Action → Bool
  | .build startsOver =>
      match exchange.phase with
      | .cycle index confirmed =>
          match exchange.logs[index]? with
          | none => true
          | some log =>
              let records := (log.next deployment startsOver).1
              exchange.accepted.getLast?.all fun last =>
                last.Follows confirmed → records ≠ [] → last.records = records
      | _ => true
  | .deliverStale position fault =>
      match exchange.inFlight[position]? with
      | none => true
      | some late =>
          exchange.phase.awaited.all fun batch =>
            exchange.held.storedBy deployment.hash deployment.collectorId fault
              (encodeFrame late) = [] ∨ late.records = batch.records
  | _ => true

/-- The confirmed state that `ship_cycle` has in memory. -/
def Phase.confirmed : Phase → Option ChainState
  | .cycle _ confirmed | .awaiting _ confirmed _ _ _ => some confirmed
  | .storing _ batch | .persisting _ batch => some batch.state
  | _ => none

variable {deployment : Deployment} {startsOver : Bool} {index : ℕ} {log : Log}
  {accepted : List Batch} {phase : Phase} {batch : Batch} {retries : ℕ} {link : Link}
  {exchange : Exchange} {ack : Ack} {confirmed : ChainState} {fault : AcceptFault} {action : Action}

def Link.Consistent (deployment : Deployment) (confirmed : ChainState) (held : Holdings)
    (accepted : List Batch) (batch : Batch) : Link → Prop
  | .answered bytes =>
      ∃ ack, bytes = encodeAck ack ∧ Answer deployment confirmed held accepted batch ack
  | _ => True

/-- What the ship loop has in memory goes with what is stored. -/
def Phase.Consistent (deployment : Deployment) (confirmed : ChainState) (held : Holdings)
    (accepted : List Batch) : Phase → Prop
  | .cycle _ known => known = confirmed
  | .awaiting _ known batch _ link =>
      known = confirmed ∧ batch.seq = confirmed.lastSeq + 1 ∧
        batch.prevBatchHash = confirmed.lastBatchHash ∧ Matched confirmed accepted batch ∧
        link.Consistent deployment confirmed held accepted batch
  | .storing _ batch => Taken deployment confirmed held accepted batch
  | .persisting _ batch => confirmed = batch.state
  | _ => True

structure Exchange.Consistent (deployment : Deployment) (exchange : Exchange) : Prop where
  agreement : Agreement deployment (exchange.loadOrFresh deployment) exchange.held
    exchange.accepted (exchange.inFlight ++ exchange.phase.awaited)
  phase : exchange.phase.Consistent deployment (exchange.loadOrFresh deployment) exchange.held
    exchange.accepted

namespace Phase.Consistent

variable {held : Holdings} {known : List Batch}

variable (consistent : phase.Consistent deployment confirmed held accepted)
include consistent

/-- The phase of the ship loop depends on the gateway only through the batches it has taken. -/
theorem mono {after : Holdings} {later : List Batch}
    (keeps : ∀ batch, Taken deployment confirmed held accepted batch →
      Taken deployment confirmed after later batch)
    (matches_ : ∀ batch ∈ phase.awaited, Matched confirmed later batch) :
    phase.Consistent deployment confirmed after later := by
  cases phase with
  | awaiting index working batch retries link =>
      rcases consistent with ⟨same, next, linked, -, answered⟩
      refine ⟨same, next, linked, matches_ batch (List.mem_singleton.mpr rfl), ?_⟩
      cases link with
      | answered bytes =>
          rcases answered with ⟨ack, encoded, answer⟩
          exact ⟨ack, encoded, fun confirms => keeps batch (answer.confirms confirms),
            answer.keeps⟩
      | sent | silent => trivial
  | storing index batch => exact keeps batch consistent
  | cycle | persisting => exact consistent
  | down | idle _ | stopped _ => trivial

theorem awaited (member : batch ∈ phase.awaited) :
    batch.seq = confirmed.lastSeq + 1 ∧ batch.prevBatchHash = confirmed.lastBatchHash ∧
      Matched confirmed accepted batch := by
  cases phase with
  | awaiting index working awaited retries link =>
      cases List.mem_singleton.mp member
      exact ⟨consistent.2.1, consistent.2.2.1, consistent.2.2.2.1⟩
  | _ => cases member

theorem silenced :
    phase.silenced.Consistent deployment confirmed held accepted := by
  cases phase with
  | awaiting index working batch retries link => cases link <;> exact consistent
  | _ => exact consistent

end Phase.Consistent

@[simp]
theorem Phase.awaited_silenced (phase : Phase) : phase.silenced.awaited = phase.awaited := by
  cases phase with
  | awaiting index working batch retries link => cases link <;> rfl
  | _ => rfl

theorem Phase.outstanding_subset (phase : Phase) : phase.outstanding ⊆ phase.awaited := by
  cases phase with
  | awaiting index working batch retries link =>
      cases link with
      | sent => exact List.Subset.refl _
      | answered _ | silent => exact List.nil_subset _
  | _ => exact List.nil_subset _

theorem Exchange.erased_subset (exchange : Exchange) (position : ℕ) :
    exchange.inFlight.eraseIdx position ++ exchange.phase.awaited ⊆
      exchange.inFlight ++ exchange.phase.awaited :=
  List.append_subset.mpr ⟨fun _ member =>
    List.mem_append_left _ (List.mem_of_mem_eraseIdx member), List.subset_append_right _ _⟩

theorem Exchange.mem_of_inFlight {position : ℕ}
    (found : exchange.inFlight[position]? = some batch) :
    batch ∈ exchange.inFlight ++ exchange.phase.awaited :=
  List.mem_append_left _ (List.mem_of_getElem? found)

theorem Exchange.mem_of_awaiting
    (awaiting : exchange.phase = .awaiting index confirmed batch retries link) :
    batch ∈ exchange.inFlight ++ exchange.phase.awaited := by
  simp [awaiting, Phase.awaited]

namespace Exchange.Consistent

theorem initial (deployment : Deployment) (contents : List Bytes) :
    (Exchange.initial contents).Consistent deployment where
  agreement := by
    have fresh : (Exchange.initial contents).loadOrFresh deployment = ChainState.fresh := by
      simp [Exchange.initial, Exchange.loadOrFresh]
    rw [fresh]
    refine ⟨Or.inl ?_, ?_, ?_, ?_, ?_⟩
    · simp [Exchange.initial, Holdings.load, Holdings.empty]
    · simp [Exchange.initial, Holdings.empty]
    · simp [Exchange.initial, Phase.awaited]
    · simp [Exchange.initial, Phase.awaited]
    · exact .nil _
  phase := trivial

section

variable (consistent : exchange.Consistent deployment)
include consistent

/-- The gateway and the confirmed state stay as they are, and no batch is new. -/
theorem move (logs : List Log) {inFlight : List Batch}
    (fewer : inFlight ++ phase.awaited ⊆ exchange.inFlight ++ exchange.phase.awaited)
    (fits : phase.Consistent deployment (exchange.loadOrFresh deployment) exchange.held
      exchange.accepted) :
    Consistent deployment { exchange with logs, inFlight, phase } :=
  ⟨consistent.agreement.subset fewer, fits⟩

/-- The phase has no batch under way any more, or none yet. -/
theorem quiet (logs : List Log) (none : phase.awaited = [])
    (fits : phase.Consistent deployment (exchange.loadOrFresh deployment) exchange.held
      exchange.accepted) :
    Consistent deployment { exchange with logs, phase } := by
  apply consistent.move logs _ fits
  rw [none, List.append_nil]
  exact List.subset_append_left _ _

/-- The same batch stays under way. -/
theorem again
    (awaiting : exchange.phase = .awaiting index confirmed batch retries link) (count : ℕ)
    {after : Link}
    (fits : after.Consistent deployment (exchange.loadOrFresh deployment) exchange.held
      exchange.accepted batch) :
    Consistent deployment
      { exchange with phase := .awaiting index confirmed batch count after } := by
  have phase := consistent.phase
  rw [awaiting] at phase
  rcases phase with ⟨same, next, linked, matched, -⟩
  apply consistent.move exchange.logs
  · simp [awaiting, Phase.awaited]
  · exact ⟨same, next, linked, matched, fits⟩

theorem gatewayCrash : exchange.gatewayCrash.Consistent deployment where
  agreement := by
    simp only [Exchange.gatewayCrash, Phase.awaited_silenced]
    exact consistent.agreement.restart.subset (List.subset_append_right _ _)
  phase := (consistent.phase.mono (fun _ taken => taken.restart)
    fun _ member => (consistent.phase.awaited member).2.2).silenced

theorem built (agrees : exchange.agrees deployment (.build startsOver) = true)
    (inCycle : exchange.phase = .cycle index confirmed)
    (found : exchange.logs[index]? = some log)
    (read : (log.next deployment startsOver).1 ≠ [])
    (logs : List Log) :
    Consistent deployment { exchange with
      logs
      phase := .awaiting index confirmed
        (sealBatch deployment.hash (confirmed.lastSeq + 1) confirmed.lastBatchHash
          (log.next deployment startsOver).1) 0 .sent } := by
  have same := consistent.phase
  rw [inCycle] at same
  have agreement := consistent.agreement
  rw [← same, show exchange.inFlight ++ exchange.phase.awaited = exchange.inFlight by
    simp [inCycle, Phase.awaited]] at agreement
  constructor
  · change Agreement deployment (exchange.loadOrFresh deployment) _ _ _
    rw [← same]
    apply agreement.add (sealBatch_sound _ _ _ _ _ _ _)
    · rcases Decidable.em (confirmed.lastSeq + 1 ≤ confirmed.lastSeq) with old | later
      · exact Or.inl old
      · exact Or.inr ⟨UInt64.not_le.mp later, rfl, rfl⟩
  · change Phase.Consistent deployment (exchange.loadOrFresh deployment) _ _ _
    rw [← same]
    refine ⟨rfl, rfl, rfl, ?_, trivial⟩
    intro last isLast follows
    simp only [Exchange.agrees, inCycle, found, isLast, Option.all_some, decide_eq_true_eq]
      at agrees
    rw [(agreement.sound last (Or.inr isLast)).sealed, agrees follows read, follows.next,
      follows.linked]

/-- A frame of a batch under way, apart from what the ship loop makes of the answer. -/
theorem handle (member : batch ∈ exchange.inFlight ++ exchange.phase.awaited)
    (same : ∀ awaited ∈ exchange.phase.awaited, exchange.held.storedBy deployment.hash
      deployment.collectorId fault (encodeFrame batch) = [] ∨ batch.records = awaited.records) :
    (exchange.handle deployment fault batch).1.Consistent deployment := by
  have agreement := consistent.agreement
  have step := handleFrame_step deployment.collectorId fault exchange.held
    (agreement.sound batch (Or.inl member))
  refine ⟨agreement.frame member step,
    consistent.phase.mono (fun _ taken => taken.frame agreement member step) ?_⟩
  intro awaited waiting last isLast follows
  obtain ⟨next, linked, matched⟩ := consistent.phase.awaited waiting
  rw [Exchange.handle, List.getLast?_append, Option.or_eq_some_iff] at isLast
  rcases isLast with new | ⟨-, old⟩
  · -- the frame that was stored is sealed as the awaited batch is
    have kept := List.mem_of_getLast? new
    obtain rfl := step.stored_eq kept
    have records := (same awaited waiting).resolve_left (List.ne_nil_of_mem kept)
    rw [(agreement.sound last (Or.inl member)).sealed, records, follows.next, follows.linked,
      ← next, ← linked]
    exact (agreement.sound awaited (Or.inl (List.mem_append_right _ waiting))).sealed
  · exact matched last old follows

theorem handle_late {position : ℕ}
    (agrees : exchange.agrees deployment (.deliverStale position fault) = true)
    (found : exchange.inFlight[position]? = some batch) :
    (exchange.handle deployment fault batch).1.Consistent deployment := by
  simp only [Exchange.agrees, found, List.all_eq_true, decide_eq_true_eq] at agrees
  exact consistent.handle (Exchange.mem_of_inFlight found) agrees

theorem handle_awaited (awaiting : exchange.phase = .awaiting index confirmed batch retries link)
    (fault : AcceptFault) : (exchange.handle deployment fault batch).1.Consistent deployment := by
  apply consistent.handle (Exchange.mem_of_awaiting awaiting)
  simp [awaiting, Phase.awaited]

theorem answered (awaiting : exchange.phase = .awaiting index confirmed batch retries .sent)
    (answer : (exchange.handle deployment fault batch).2 = some ack) :
    Consistent deployment { (exchange.handle deployment fault batch).1 with
      phase := .awaiting index confirmed batch retries (.answered (encodeAck ack)) } := by
  have member := Exchange.mem_of_awaiting awaiting
  have step := handleFrame_step deployment.collectorId fault exchange.held
    (consistent.agreement.sound batch (Or.inl member))
  change (exchange.held.handleFrame deployment.hash deployment.collectorId fault
    (encodeFrame batch)).2 = some ack at answer
  rw [answer] at step
  have phase := consistent.phase
  rw [awaiting] at phase
  rcases phase with ⟨-, next, linked, matched, -⟩
  apply (consistent.handle_awaited awaiting fault).again awaiting
  exact ⟨ack, rfl, consistent.agreement.answer matched next linked member step⟩

/-- The answer that has been read. -/
theorem answer_of_decoded {bytes : Bytes}
    (awaiting : exchange.phase = .awaiting index confirmed batch retries (.answered bytes))
    (decoded : decodeAck bytes = some ack) :
    Answer deployment (exchange.loadOrFresh deployment) exchange.held exchange.accepted batch
      ack := by
  have phase := consistent.phase
  rw [awaiting] at phase
  rcases phase with ⟨-, -, -, -, sent, rfl, answer⟩
  rw [decodeAck_encodeAck] at decoded
  rw [← Option.some.inj decoded]
  exact answer

theorem stored (storing : exchange.phase = .storing index batch)
    (safe : isSafePathComponent deployment.collectorId = true)
    (after : phase = .persisting index batch ∨ phase = .idle (exchange.next index)) :
    Consistent deployment { exchange with confirmed := some batch.state, phase } := by
  have taken := consistent.phase
  rw [storing] at taken
  have agreement := consistent.agreement
  simp only [storing] at agreement
  have reloaded : Exchange.loadOrFresh deployment
      { exchange with confirmed := some batch.state, phase } = batch.state := by
    simp [Exchange.loadOrFresh, safe]
  constructor
  · rw [reloaded]
    rcases after with rfl | rfl <;> exact agreement.confirm taken
  · rw [reloaded]
    rcases after with rfl | rfl
    · rfl
    · trivial

theorem step (agrees : exchange.agrees deployment action = true) :
    (exchange.step deployment action).Consistent deployment := by
  have move := exchange.step_move deployment action
  generalize exchange.step deployment action = after at move
  cases move with
  | stay => exact consistent
  | appended => exact consistent.move _ (List.Subset.refl _) consistent.phase
  | connected idle => exact consistent.quiet _ rfl rfl
  | built inCycle found something => exact consistent.built agrees inCycle found something _
  | answered awaiting answer => exact consistent.answered awaiting answer
  | died awaiting => exact (consistent.handle_awaited awaiting _).gatewayCrash
  | closed awaiting | resent awaiting => exact consistent.again awaiting _ trivial
  | staleHandled found =>
      have handled := consistent.handle_late agrees found
      exact handled.move exchange.logs (exchange.erased_subset _) handled.phase
  | staleDied found => exact (consistent.handle_late agrees found).gatewayCrash
  | dropped position =>
      exact consistent.move exchange.logs (exchange.erased_subset position) consistent.phase
  | gatewayCrashed => exact consistent.gatewayCrash
  | crashed | lost _ =>
      refine consistent.move _ (List.append_subset.mpr ⟨?_, List.nil_subset _⟩) trivial
      exact List.append_subset.mpr ⟨List.subset_append_left _ _,
        List.Subset.trans exchange.phase.outstanding_subset (List.subset_append_right _ _)⟩
  | confirmed awaiting decoded confirms =>
      exact consistent.quiet _ rfl
        ((consistent.answer_of_decoded awaiting decoded).confirms confirms)
  | stored storing safe after => exact consistent.stored storing safe after
  | persisted persisting =>
      have same := consistent.phase
      rw [persisting] at same
      exact consistent.quiet _ rfl (Eq.symm same)
  | started _ | unconnected _ | dry _ _ _ | gaveUp _ | diverged _ _ _ _ | rejected _ _ _
  | unstored _ _ | unpersisted _ => exact consistent.quiet _ rfl trivial

end

end Exchange.Consistent

/-- The number of the next batch does not wrap around. -/
def Exchange.numbersOn (exchange : Exchange) : Action → Bool
  | .build _ =>
      match exchange.phase with
      | .cycle _ confirmed => confirmed.lastSeq < confirmed.lastSeq + 1
      | _ => true
  | _ => true

/-- The stops that say the two ends have parted. -/
def StopReason.breaksChain : StopReason → Bool
  | .rejected reason => reason = .seqGap || reason = .hashMismatch
  | .chainDiverged _ _ => true

/-- The awaited batch is the one the chain continues with, and no stop says otherwise. -/
def Phase.Unbroken (confirmed : ChainState) : Phase → Prop
  | .awaiting _ _ batch _ _ => batch.Follows confirmed
  | .stopped reason => reason.breaksChain = false
  | _ => True

section Unbroken

theorem Phase.Unbroken.silenced (unbroken : phase.Unbroken confirmed) :
    phase.silenced.Unbroken confirmed := by
  cases phase with
  | awaiting index working batch retries link => cases link <;> exact unbroken
  | _ => exact unbroken

theorem step_unbroken (consistent : exchange.Consistent deployment)
    (numbers : exchange.numbersOn action = true)
    (unbroken : exchange.phase.Unbroken (exchange.loadOrFresh deployment)) :
    (exchange.step deployment action).phase.Unbroken
      ((exchange.step deployment action).loadOrFresh deployment) := by
  have move := exchange.step_move deployment action
  have followed {index : ℕ} {confirmed : ChainState} {batch : Batch} {retries : ℕ} {link : Link}
      (awaiting : exchange.phase = .awaiting index confirmed batch retries link) :
      batch.Follows (exchange.loadOrFresh deployment) := by
    rw [awaiting] at unbroken
    exact unbroken
  generalize exchange.step deployment action = after at move
  cases move with
  | stay | appended | staleHandled _ | dropped _ => exact unbroken
  | answered awaiting _ | closed awaiting | resent awaiting => exact followed awaiting
  | died _ | staleDied _ | gatewayCrashed => exact unbroken.silenced
  | built inCycle =>
      have same := consistent.phase
      rw [inCycle] at same
      simp only [Exchange.numbersOn, inCycle, decide_eq_true_eq] at numbers
      change Batch.Follows _ (exchange.loadOrFresh deployment)
      rw [← same]
      exact ⟨numbers, rfl, rfl⟩
  | diverged awaiting decoded status beyond =>
      have answer := consistent.answer_of_decoded awaiting decoded
      exact absurd (Or.inr ⟨status, beyond⟩) (answer.keeps (followed awaiting))
  | rejected awaiting decoded status =>
      have answer := consistent.answer_of_decoded awaiting decoded
      have keeps := answer.keeps (followed awaiting)
      change StopReason.breaksChain _ = false
      simp only [StopReason.breaksChain, Bool.or_eq_false_iff, decide_eq_false_iff_not]
      exact ⟨fun gap => keeps (Or.inl ⟨status, Or.inl gap⟩),
        fun mismatch => keeps (Or.inl ⟨status, Or.inr mismatch⟩)⟩
  | stored storing safe after =>
      rcases after with rfl | rfl <;> trivial
  | started _ | crashed | connected _ | unconnected _ | dry _ _ _ | lost _ | gaveUp _
  | confirmed _ _ _ | unstored _ _ | persisted _ | unpersisted _ => trivial

end Unbroken

/-- What is in memory is the stored state, or the batch that is about to be stored. -/
theorem Exchange.Consistent.confirmed_cases (consistent : exchange.Consistent deployment)
    (inMemory : exchange.phase.confirmed = some confirmed) :
    confirmed = exchange.loadOrFresh deployment ∨
      ∃ batch, confirmed = batch.state ∧ Taken deployment (exchange.loadOrFresh deployment)
        exchange.held exchange.accepted batch := by
  have phase := consistent.phase
  cases here : exchange.phase with
  | cycle =>
      rw [here] at phase inMemory
      exact Or.inl ((Option.some.inj inMemory).symm.trans phase)
  | awaiting =>
      rw [here] at phase inMemory
      exact Or.inl ((Option.some.inj inMemory).symm.trans phase.1)
  | storing index batch =>
      rw [here] at phase inMemory
      exact Or.inr ⟨batch, (Option.some.inj inMemory).symm, phase⟩
  | persisting =>
      rw [here] at phase inMemory
      exact Or.inl ((Option.some.inj inMemory).symm.trans (Eq.symm phase))
  | down | idle _ | stopped _ =>
      rw [here] at inMemory
      cases inMemory

/--
In every run that meets the condition, and in which the numbers do not wrap
around, the shipper's confirmed state, stored or in memory, is the gateway's
state, stored or in force, or exactly one accepted batch behind it.  No answer to
the shipper's batch and no stop of the ship loop says that the chain is broken.
-/
theorem exchange_in_step (deployment : Deployment) (contents : List Bytes) (actions : List Action)
    (guarded : Run.meets (Exchange.step deployment)
      (fun exchange action => exchange.agrees deployment action && exchange.numbersOn action)
      (.initial contents) actions = true) :
    let exchange := runExchange deployment contents actions
    (∀ confirmed, confirmed = exchange.loadOrFresh deployment ∨
        exchange.phase.confirmed = some confirmed →
      InStep confirmed (exchange.held.current deployment.collectorId) exchange.accepted ∧
        InStep confirmed (exchange.held.load deployment.collectorId) exchange.accepted) ∧
    (∀ index confirmed batch retries bytes ack,
      exchange.phase = .awaiting index confirmed batch retries (.answered bytes) →
      decodeAck bytes = some ack → ¬ack.BreaksChain batch) ∧
    ∀ reason, exchange.phase = .stopped reason → reason.breaksChain = false := by
  intro exchange
  have invariant : exchange.Consistent deployment ∧
      exchange.phase.Unbroken (exchange.loadOrFresh deployment) := by
    apply Run.invariant_of_meets (fun reached => reached.Consistent deployment ∧
      reached.phase.Unbroken (reached.loadOrFresh deployment)) _ _ guarded
    · rintro earlier action both ⟨consistent, unbroken⟩
      rw [Bool.and_eq_true] at both
      exact ⟨consistent.step both.1, step_unbroken consistent both.2 unbroken⟩
    · exact ⟨.initial deployment contents, trivial⟩
  rcases invariant with ⟨consistent, unbroken⟩
  refine ⟨?_, ?_, ?_⟩
  · have stored := And.intro consistent.agreement.current consistent.agreement.loaded
    rintro confirmed (rfl | inMemory)
    · exact stored
    · rcases consistent.confirmed_cases inMemory with rfl | ⟨batch, rfl, taken⟩
      · exact stored
      · exact ⟨Or.inl taken.current, Or.inl taken.loaded⟩
  · intro index confirmed batch retries bytes ack awaiting decoded
    rw [awaiting] at unbroken
    exact (consistent.answer_of_decoded awaiting decoded).keeps unbroken
  · intro reason stopped
    rw [stopped] at unbroken
    exact unbroken

def collectorOne : Deployment := ⟨sha256, "c1", 15⟩

/-- The connection is lost before the first batch arrives.  The same batch is built again, and only
then the frame arrives, and that of the new connection after it. -/
def resendUnchanged : List Action :=
  [.start, .connect true, .build false, .lose, .connect true, .build false,
    .deliverStale 0 .none, .deliver .none, .receive, .store .ok, .persist true]

theorem exchange_in_step_resend :
    (runExchange collectorOne [ofText "a\n"] resendUnchanged).phase =
        .cycle 0 firstBatch.state ∧
      InStep firstBatch.state
        ((runExchange collectorOne [ofText "a\n"] resendUnchanged).held.current "c1")
        (runExchange collectorOne [ofText "a\n"] resendUnchanged).accepted := by
  have finished : (runExchange collectorOne [ofText "a\n"] resendUnchanged).phase =
      .cycle 0 firstBatch.state := by decide +kernel
  refine ⟨finished, ?_⟩
  have inStep := (exchange_in_step collectorOne [ofText "a\n"] resendUnchanged
    (by decide +kernel)).1 firstBatch.state
  apply (inStep (Or.inr _)).1
  rw [finished]
  rfl

theorem InStep.eq_of_lastSeq {state : ChainState}
    (inStep : InStep confirmed state accepted) (number : state.lastSeq = confirmed.lastSeq) :
    state = confirmed := by
  rcases inStep with same | ⟨batch, -, follows, rfl⟩
  · exact same
  · have later := follows.later
    rw [← number] at later
    exact absurd later (UInt64.lt_irrefl _)

/-- The answer to the first batch is lost, and by the time it is built again the log has grown. -/
def resendGrown : List Action :=
  [.start, .connect true, .build false, .deliver .none, .lose, .append 0 (ofText "b\n"),
    .connect true, .build false, .deliver .none, .receive, .store .ok, .persist true]

/--
The gateway keeps the first batch and calls the second one, of the same number, a
duplicate; the shipper confirms the second.  From here on the hashes differ, and
the next batch is rejected.
-/
theorem exchange_falls_out_of_step :
    ∃ (contents : List Bytes) (actions later : List Action),
      ¬InStep ((runExchange collectorOne contents actions).loadOrFresh collectorOne)
        ((runExchange collectorOne contents actions).held.current "c1")
        (runExchange collectorOne contents actions).accepted ∧
      (runExchange collectorOne contents (actions ++ later)).phase =
        .stopped (.rejected .hashMismatch) := by
  refine ⟨[ofText "a\n"], resendGrown,
    [.append 0 (ofText "c\n"), .build false, .deliver .none, .receive], ?_, by decide +kernel⟩
  intro inStep
  have same := inStep.eq_of_lastSeq (by decide +kernel)
  revert same
  decide +kernel

end Propolis
