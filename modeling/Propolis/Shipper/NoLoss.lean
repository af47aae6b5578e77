import Propolis.Shipper.InStep

/-!
# Nothing is lost on the way

A log's cursor passes a line only when the gateway has a record of it, and no other
line has the same one, provided that the run meets `Exchange.agrees` and that the
state of a confirmed batch is stored (`exchange_loses_nothing`).
Without that the gateway calls a batch a duplicate of another one, and the shipper
moves its cursor over lines the gateway has never seen (`exchange_loses_line`).

Each batch whose state the shipper has stored is credited to the log it was
confirmed for.  `Log.Delivered` speaks of three positions of a log: the durable
cursor, the position a rewind goes back to, and the read offset.  The lines before
the first have their records in the batches of the log; those before the second may
also have them in the batch that is confirmed and not stored yet, and those before
the third in the batch that an answer is awaited for.
-/

namespace Propolis

open Bytes

/-- The records of the batches that are credited to a log. -/
def creditedTo (index : ℕ) (credits : List (ℕ × Batch)) : List Bytes :=
  (credits.filter (·.1 = index)).flatMap (·.2.records)

/-- The records of a log in the batch that is confirmed and not stored yet. -/
def Phase.settling : Phase → ℕ → List Bytes
  | .storing current batch, index => if current = index then batch.records else []
  | _, _ => []

/-- The records of a log in a batch that is not stored yet, or not even confirmed. -/
def Phase.owed : Phase → ℕ → List Bytes
  | .awaiting current _ batch _ _, index | .storing current batch, index =>
      if current = index then batch.records else []
  | _, _ => []

structure Log.Delivered (log : Log) (records settling owed : List Bytes) : Prop where
  persisted : Covered log.content log.persisted records
  committed : Covered log.content log.tailer.committed (records ++ settling)
  offset : Covered log.content log.tailer.offset (records ++ owed)

namespace Log.Delivered

variable {log : Log} {records settling owed : List Bytes}

section

variable (delivered : log.Delivered records settling owed)
include delivered

theorem append (bytes : Bytes) : (log.append bytes).Delivered records settling owed :=
  ⟨delivered.persisted.append bytes, delivered.committed.append bytes,
    delivered.offset.append bytes⟩

theorem restart : log.restart.Delivered records [] [] :=
  have again := delivered.persisted.mono (List.sublist_append_left _ [])
  ⟨delivered.persisted, again, again⟩

end

/-- The records of the batch are credited to the log. -/
theorem credit (delivered : log.Delivered records owed owed) :
    log.Delivered (records ++ owed) [] [] :=
  ⟨delivered.persisted.mono (List.sublist_append_left _ _), by simpa using delivered.committed,
    by simpa using delivered.offset⟩

theorem rewind (delivered : log.Delivered records [] owed) : log.rewind.Delivered records [] [] :=
  ⟨delivered.persisted, delivered.committed, delivered.committed⟩

theorem commit (delivered : log.Delivered records [] owed) :
    log.commit.Delivered records owed owed :=
  ⟨delivered.persisted, delivered.offset, delivered.offset⟩

theorem persist (delivered : log.Delivered records [] []) : log.persist.Delivered records [] [] :=
  ⟨by simpa [Log.persist] using delivered.offset, delivered.committed, delivered.offset⟩

/-- A read leaves the lines it passes in the batch. -/
theorem read (delivered : log.Delivered records [] []) (deployment : Deployment)
    (startsOver : Bool) : (log.next deployment startsOver).2.Delivered records []
      (log.next deployment startsOver).1 := by
  rcases nextRecords_spec deployment.maxRecords startsOver log.content log.tailer with
    ⟨start, taken, began, ahead, offset, committed, inBatch⟩
  have startCovered : Covered log.content start.offset records ∧
      Covered log.content start.committed (records ++ []) := by
    rcases began with rfl | rfl
    · exact ⟨by simpa using delivered.offset, delivered.committed⟩
    · rw [Tailer.committed_startOver]
      exact ⟨Covered.zero _ _, Covered.zero _ _⟩
  refine ⟨delivered.persisted, ?_, ?_⟩
  · simp only [committed]
    exact startCovered.2
  · simp only [offset]
    exact startCovered.1.read ahead inBatch

end Log.Delivered

theorem Phase.settling_silenced (phase : Phase) :
    phase.silenced.settling = phase.settling ∧ phase.silenced.owed = phase.owed := by
  cases phase with
  | awaiting index working batch retries link => cases link <;> exact ⟨rfl, rfl⟩
  | _ => exact ⟨rfl, rfl⟩

theorem Phase.owed_other {index other : ℕ} {confirmed : ChainState} {batch : Batch} {retries : ℕ}
    {link : Link} (different : other ≠ index) :
    Phase.owed (.awaiting index confirmed batch retries link) other = [] := by
  simp [Phase.owed, Ne.symm different]

theorem Phase.settling_other {index other : ℕ} {batch : Batch} (different : other ≠ index) :
    Phase.settling (.storing index batch) other = [] := by
  simp [Phase.settling, Ne.symm different]

/-- Batches that the gateway has stored are credited to logs, each to one.  A batch that the
gateway is ahead by is not among them. -/
structure Exchange.Credited (deployment : Deployment) (credits : List (ℕ × Batch))
    (exchange : Exchange) : Prop where
  stored : (credits.map Prod.snd).Sublist exchange.accepted
  ahead : ∀ batch, exchange.accepted.getLast? = some batch →
    batch.Follows (exchange.loadOrFresh deployment) →
    (credits.map Prod.snd).Sublist exchange.accepted.dropLast
  delivered : ∀ (index : ℕ) (log : Log), exchange.logs[index]? = some log →
    log.Delivered (creditedTo index credits) (exchange.phase.settling index)
      (exchange.phase.owed index)

/-- No store of the confirmed state fails before the old state is replaced. -/
def Action.stores : Action → Bool
  | .store (.failed renamed) => renamed
  | _ => true

variable {deployment : Deployment} {exchange : Exchange} {batch : Batch} {phase : Phase}
  {action : Action}

namespace Exchange.Credited

variable {index : ℕ} {confirmed : ChainState} {retries : ℕ} {link : Link}
  {credits : List (ℕ × Batch)}

theorem initial (contents : List Bytes) : Credited deployment [] (.initial contents) := by
  refine ⟨List.Sublist.refl _, nofun, ?_⟩
  intro index log found
  simp only [Exchange.initial, List.getElem?_map] at found
  rcases Option.map_eq_some_iff.mp found with ⟨content, -, rfl⟩
  exact ⟨Covered.zero _ _, Covered.zero _ _, Covered.zero _ _⟩

theorem creditedTo_concat (other : ℕ) : creditedTo other (credits ++ [(index, batch)]) =
    creditedTo other credits ++ Phase.settling (.storing index batch) other := by
  by_cases same : index = other <;> simp [creditedTo, Phase.settling, same]

section

variable (credited : exchange.Credited deployment credits)
include credited

/-- The logs stay, and so does what is owed of them. -/
theorem same {after : Exchange} (logs : after.logs = exchange.logs)
    (accepted : after.accepted = exchange.accepted)
    (confirmed : after.confirmed = exchange.confirmed) {before : Phase}
    (phase : exchange.phase = before) (settling : after.phase.settling = before.settling)
    (owed : after.phase.owed = before.owed) : after.Credited deployment credits := by
  have loaded : after.loadOrFresh deployment = exchange.loadOrFresh deployment := by
    simp only [Exchange.loadOrFresh, confirmed]
  refine ⟨?_, ?_, ?_⟩
  · rw [accepted]
    exact credited.stored
  · rw [accepted, loaded]
    exact credited.ahead
  · rw [logs, settling, owed, ← phase]
    exact credited.delivered

/-- One log changes, and what is owed of the others does not. -/
theorem change (index : ℕ) {change : Log → Log} {before : Phase} (at_ : exchange.phase = before)
    (others : ∀ other, other ≠ index →
      phase.settling other = before.settling other ∧ phase.owed other = before.owed other)
    (changed : ∀ log, log.Delivered (creditedTo index credits) (before.settling index)
        (before.owed index) →
      (change log).Delivered (creditedTo index credits) (phase.settling index)
        (phase.owed index)) :
    Credited deployment credits
      { exchange with logs := exchange.logs.modify index change, phase } := by
  refine ⟨credited.stored, credited.ahead, ?_⟩
  intro other log found
  rw [List.getElem?_modify] at found
  rcases Option.map_eq_some_iff.mp found with ⟨old, here, rfl⟩
  have delivered := credited.delivered other old here
  rw [at_] at delivered
  by_cases same : index = other
  · subst same
    rw [if_pos rfl]
    exact changed old delivered
  · rw [if_neg same]
    dsimp only
    rw [(others other (Ne.symm same)).1, (others other (Ne.symm same)).2]
    exact delivered

theorem giveUp (awaiting : exchange.phase = .awaiting index confirmed batch retries link)
    (nothing : phase.settling = (fun _ => []) ∧ phase.owed = fun _ => []) :
    (exchange.giveUp index phase).Credited deployment credits := by
  apply credited.change index awaiting
  · intro other different
    rw [nothing.1, nothing.2, Phase.owed_other different]
    exact ⟨rfl, rfl⟩
  · intro log delivered
    rw [nothing.1, nothing.2]
    exact delivered.rewind

/-- The log that is read has nothing owed before, and its part of the batch after. -/
theorem read (inCycle : exchange.phase = .cycle index confirmed) {log : Log}
    (found : exchange.logs[index]? = some log) (startsOver : Bool)
    (unsettled : phase.settling = fun _ => [])
    (others : ∀ other, other ≠ index → phase.owed other = [])
    (mine : phase.owed index = (log.next deployment startsOver).1) :
    Credited deployment credits { exchange with
      logs := exchange.logs.set index (log.next deployment startsOver).2
      phase } := by
  have delivered := credited.delivered index log found
  rw [inCycle] at delivered
  rw [List.set_eq_modify]
  apply credited.change index inCycle
  · intro other different
    rw [unsettled, others other different]
    exact ⟨rfl, rfl⟩
  · intro _ _
    rw [unsettled, mine]
    exact delivered.read deployment startsOver

theorem handle (fault : AcceptFault) :
    (exchange.handle deployment fault batch).1.Credited deployment credits := by
  refine ⟨credited.stored.trans (List.sublist_append_left _ _), ?_, credited.delivered⟩
  have stored : ∃ stored, (stored = [] ∨ ∃ batch, stored = [batch]) ∧
      (exchange.handle deployment fault batch).1.accepted = exchange.accepted ++ stored := by
    refine ⟨_, ?_, rfl⟩
    simp only [Holdings.storedBy]
    split
    · split
      · exact Or.inr ⟨_, rfl⟩
      · exact Or.inl rfl
    · exact Or.inl rfl
  rcases stored with ⟨stored, rfl | ⟨last, rfl⟩, same⟩
  · rw [same, List.append_nil]
    exact credited.ahead
  · intro _ _ _
    rw [same, List.dropLast_concat]
    exact credited.stored

theorem gatewayCrash : exchange.gatewayCrash.Credited deployment credits :=
  credited.same rfl rfl rfl rfl (Phase.settling_silenced _).1 (Phase.settling_silenced _).2

theorem confirm (awaiting : exchange.phase = .awaiting index confirmed batch retries link) :
    Credited deployment credits { exchange with
      logs := exchange.logs.modify index Log.commit, phase := .storing index batch } := by
  apply credited.change index awaiting
  · intro other different
    exact ⟨Phase.settling_other different, rfl⟩
  · exact fun log delivered => delivered.commit

section

variable (storing : exchange.phase = .storing index batch)
  (taken : Taken deployment (exchange.loadOrFresh deployment) exchange.held exchange.accepted batch)
include storing taken

/-- The batch is credited to the log it was confirmed for. -/
theorem settle :
    ((credits ++ [(index, batch)]).map Prod.snd).Sublist exchange.accepted ∧
      ∀ (other : ℕ) (log : Log), exchange.logs[other]? = some log →
        log.Delivered (creditedTo other (credits ++ [(index, batch)])) [] [] := by
  constructor
  · rw [List.map_append, ← List.dropLast_append_getLast? batch taken.last]
    exact (credited.ahead batch taken.last taken.follows).append (List.Sublist.refl _)
  · intro other log found
    have delivered := credited.delivered other log found
    rw [storing] at delivered
    rw [creditedTo_concat]
    exact delivered.credit

theorem storedState (safe : isSafePathComponent deployment.collectorId = true)
    (nothing : phase.settling = (fun _ => []) ∧ phase.owed = fun _ => []) :
    Credited deployment (credits ++ [(index, batch)])
      { exchange with confirmed := some batch.state, phase } := by
  rcases credited.settle storing taken with ⟨stored, delivered⟩
  refine ⟨stored, ?_, ?_⟩
  · intro last isLast follows
    cases isLast.symm.trans taken.last
    rw [Exchange.loadOrFresh, if_pos safe] at follows
    exact absurd rfl follows.ne_state
  · dsimp only
    rw [nothing.1, nothing.2]
    exact delivered

end

theorem crash : exchange.crash.Credited deployment credits := by
  refine ⟨credited.stored, credited.ahead, ?_⟩
  intro index log found
  rw [Exchange.crash, List.getElem?_map] at found
  rcases Option.map_eq_some_iff.mp found with ⟨old, here, rfl⟩
  exact (credited.delivered index old here).restart

theorem step (consistent : exchange.Consistent deployment) (stores : action.stores = true) :
    ∃ credits, (exchange.step deployment action).Credited deployment credits := by
  have move := exchange.step_move deployment action
  generalize exchange.step deployment action = after at move
  cases move with
  | appended index bytes =>
      exact ⟨credits, credited.change index rfl (fun _ _ => ⟨rfl, rfl⟩)
        fun _ delivered => delivered.append bytes⟩
  | crashed => exact ⟨credits, credited.crash⟩
  | dry inCycle found nothing =>
      exact ⟨credits, credited.read inCycle found _ rfl (fun _ _ => rfl) nothing.symm⟩
  | built inCycle found =>
      exact ⟨credits, credited.read inCycle found _ rfl
        (fun _ different => Phase.owed_other different) (if_pos rfl)⟩
  | answered awaiting answer =>
      exact ⟨credits, (credited.handle _).same rfl rfl rfl awaiting rfl rfl⟩
  | died | staleDied => exact ⟨credits, (credited.handle _).gatewayCrash⟩
  | staleHandled => exact ⟨credits, (credited.handle _).same rfl rfl rfl rfl rfl rfl⟩
  | stay => exact ⟨credits, credited⟩
  | dropped => exact ⟨credits, credited.same rfl rfl rfl rfl rfl rfl⟩
  | gatewayCrashed => exact ⟨credits, credited.gatewayCrash⟩
  | confirmed awaiting => exact ⟨credits, credited.confirm awaiting⟩
  | lost awaiting =>
      rename_i index _ _ _ _
      have given : (exchange.giveUp index (.idle (exchange.next index))).Credited deployment
          credits := credited.giveUp awaiting ⟨rfl, rfl⟩
      exact ⟨credits, given.same rfl rfl rfl rfl rfl rfl⟩
  | gaveUp awaiting | diverged awaiting | rejected awaiting =>
      exact ⟨credits, credited.giveUp awaiting ⟨rfl, rfl⟩⟩
  | stored storing isSafe after =>
      have taken := consistent.phase
      rw [storing] at taken
      refine ⟨_, credited.storedState storing taken isSafe ?_⟩
      rcases after with rfl | rfl <;> exact ⟨rfl, rfl⟩
  | unstored storing failed =>
      have taken := consistent.phase
      rw [storing] at taken
      rcases failed with unsafe_ | rfl
      · -- the gateway stores nothing of a collector whose name is not safe
        refine absurd (Eq.trans ?_ taken.loaded) taken.follows.ne_state
        simp [Holdings.load, Exchange.loadOrFresh, unsafe_]
      · cases stores
  | persisted persisting =>
      exact ⟨credits, credited.change _ persisting (fun _ _ => ⟨rfl, rfl⟩)
        fun _ delivered => delivered.persist⟩
  | started before | connected before | unconnected before | closed before | resent before
  | unpersisted before => exact ⟨credits, credited.same rfl rfl rfl before rfl rfl⟩

end

/-- In every phase the lines before the cursors of a log are in the batches credited to it. -/
theorem cursors (credited : exchange.Credited deployment credits)
    (consistent : exchange.Consistent deployment) :
    ∃ credits : List (ℕ × Batch), (credits.map Prod.snd).Sublist exchange.accepted ∧
      ∀ (index : ℕ) (log : Log), exchange.logs[index]? = some log →
        Covered log.content log.persisted (creditedTo index credits) ∧
          Covered log.content log.tailer.committed (creditedTo index credits) := by
  have phase := consistent.phase
  cases here : exchange.phase with
  | storing current batch =>
      rw [here] at phase
      rcases credited.settle here phase with ⟨stored, delivered⟩
      refine ⟨_, stored, fun index log found => ?_⟩
      have delivered := delivered index log found
      exact ⟨delivered.persisted, by simpa using delivered.committed⟩
  | _ =>
      refine ⟨credits, credited.stored, fun index log found => ?_⟩
      have delivered := credited.delivered index log found
      rw [here] at delivered
      exact ⟨delivered.persisted, by simpa [Phase.settling] using delivered.committed⟩

end Exchange.Credited

section Lines

/-- The step leaves the spool at the end of a line. -/
def Exchange.endsClean (deployment : Deployment) (exchange : Exchange) (action : Action) : Bool :=
  EndsClean (exchange.step deployment action).held.spool

/-- The records of the stored batches are lines of the spool. -/
structure Exchange.Lined (exchange : Exchange) : Prop where
  clean : EndsClean exchange.held.spool
  lines : (exchange.accepted.flatMap Batch.records).Sublist (linesOf exchange.held.spool)

variable (lined : exchange.Lined) (consistent : exchange.Consistent deployment)
include lined consistent

theorem Exchange.Lined.handle (member : batch ∈ exchange.inFlight ++ exchange.phase.awaited)
    (fault : AcceptFault) :
    ((exchange.handle deployment fault batch).1.accepted.flatMap Batch.records).Sublist
      (linesOf (exchange.handle deployment fault batch).1.held.spool) := by
  have sound := consistent.agreement.sound batch (Or.inl member)
  have step := handleFrame_step deployment.collectorId fault exchange.held sound
  simp only [Exchange.handle, List.flatMap_append]
  generalize Holdings.storedBy _ _ _ _ exchange.held = stored at step
  generalize (Holdings.handleFrame _ _ _ _ exchange.held).1 = after at step
  generalize (Holdings.handleFrame _ _ _ _ exchange.held).2 = answer at step
  have kept (part : Bytes) : (exchange.accepted.flatMap Batch.records ++ []).Sublist
      (linesOf (exchange.held.spool ++ part)) := by
    rw [lined.clean.linesOf_append, List.append_nil]
    exact lined.lines.trans (List.sublist_append_left _ _)
  have added : (exchange.accepted.flatMap Batch.records ++ [batch].flatMap Batch.records).Sublist
      (linesOf (exchange.held.spool ++ terminated batch.records)) := by
    rw [lined.clean.linesOf_append, linesOf_terminated sound.clean, List.flatMap_singleton]
    exact lined.lines.append (List.Sublist.refl _)
  cases step with
  | crashed | refused => simpa [Holdings.restart] using kept []
  | accept step =>
      cases step with
      | crashed | turnedAway => simpa [Holdings.restart] using kept []
      | attempted => exact kept _
      | persisted | accepted => exact added

theorem Exchange.Lined.step (clean : exchange.endsClean deployment action = true) :
    (exchange.step deployment action).Lined := by
  refine ⟨of_decide_eq_true clean, ?_⟩
  have move := exchange.step_move deployment action
  generalize exchange.step deployment action = after at move
  cases move with
  | answered awaiting | died awaiting =>
      exact lined.handle consistent (Exchange.mem_of_awaiting awaiting) _
  | staleHandled found | staleDied found =>
      exact lined.handle consistent (Exchange.mem_of_inFlight found) _
  | _ => exact lined.lines

end Lines

end Propolis
