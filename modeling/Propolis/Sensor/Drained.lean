import Propolis.Sensor.Handoff

/-!
# What is accepted is reported

`Ordered` says where every accepted job is: processed, in progress or in the queue, in the order
of acceptance.  `Counted` ties the counters to the calls that have returned, and `Reported` what
was done so far to what `process_job` does.  Each holds at the start and survives every step; when
the drain reports that the queue is drained, nothing is in progress or in the queue.
-/

namespace Propolis.Sensor

open Bytes

def Effect.isManifest : Effect → Bool
  | .manifest _ _ => true
  | _ => false

namespace Call

/-- Returned, refused for a full queue. -/
def isDropped (call : Call) : Bool :=
  call.phase = .returned (.error .full)

/-- Returned, accepted with a body that was cut short but not empty. -/
def isTruncated (call : Call) : Bool :=
  call.exhausted && !call.isEmpty && call.phase = .returned (.ok ())

/-- Returned, with a body there was no room for at all. -/
def isRefused (call : Call) : Bool :=
  call.exhausted && call.isEmpty && call.isReturned

/-- What the phase of a call says about its body. -/
structure Honest (call : Call) : Prop where
  empty : call.exhausted = true → call.isEmpty = true →
    call.phase = .entered ∨ call.phase = .returned (.error .empty)
  cut : call.phase = .queued → call.exhausted = true

section Turning

variable {call : Call} {phase : CallPhase}

@[simp]
theorem exhausted_turn : exhausted { call with phase := phase } = call.exhausted := rfl

@[simp]
theorem isEmpty_turn : isEmpty { call with phase := phase } = call.isEmpty := rfl

theorem uncounted_of_running (running : call.isReturned = false) :
    call.isDropped = false ∧ call.isTruncated = false ∧ call.isRefused = false := by
  simp only [isReturned] at running
  split at running <;> simp_all [isDropped, isTruncated, isRefused, isReturned]

/-- A call that has begun but not returned has something to store. -/
theorem Honest.some_ (honest : call.Honest) (begun : call.phase ≠ .entered)
    (running : call.isReturned = false) : ¬(call.exhausted = true ∧ call.isEmpty = true) := by
  rintro ⟨cut, empty⟩
  rcases honest.empty cut empty with entered | returned
  · exact begun entered
  · simp [isReturned, returned] at running

/-- A call with something to store is honest in every phase but one. -/
theorem honest_of_some (nonempty : ¬(call.exhausted = true ∧ call.isEmpty = true))
    (queued : phase = .queued → call.exhausted = true) :
    Honest { call with phase := phase } where
  empty cut empty := absurd ⟨cut, empty⟩ nonempty
  cut := queued

end Turning

end Call

variable {sanitize : String → ℕ → String} {collectorId : String}

namespace Handoff

variable {capacity : ℕ} {handoff after : Handoff} {id : ℕ} {call : Call}

section Advancing

/-- What a call may have done: its phase changed, and it may have put its job in the queue. -/
inductive Advanced (handoff : Handoff) (id : ℕ) (call : Call) : Handoff → Prop
  | refused (empty : call.exhausted = true ∧ call.isEmpty = true)
      (entered : call.phase = .entered) :
      Advanced handoff id call { handoff.setPhase id call (.returned (.error .empty)) with
        refused := handoff.refused + 1 }
  | turned (phase : CallPhase) (before : call.phase = .entered ∨ call.phase = .passed)
      (some_ : ¬(call.exhausted = true ∧ call.isEmpty = true) ∨ call.phase = .passed)
      (after : phase = .passed ∨ phase = .full ∨ phase = .returned (.error .closing) ∨
        phase = .returned (.error .closed)) :
      Advanced handoff id call (handoff.setPhase id call phase)
  | accepted (passed : call.phase = .passed) (isOpen : handoff.receiverClosed = false) :
      Advanced handoff id call
        { handoff.setPhase id call (if call.exhausted then .queued else .returned (.ok ())) with
          queue := handoff.queue ++ [(id, call.queued)]
          accepted := handoff.accepted ++ [id] }
  | dropped (full : call.phase = .full) :
      Advanced handoff id call { handoff.setPhase id call (.returned (.error .full)) with
        dropped := handoff.dropped + 1 }
  | truncated (queued : call.phase = .queued) :
      Advanced handoff id call { handoff.setPhase id call (.returned (.ok ())) with
        truncated := handoff.truncated + 1 }
  | same : Advanced handoff id call handoff

theorem advance_advanced (handoff : Handoff) (id : ℕ) (call : Call) :
    Advanced handoff id call (handoff.advance capacity id call) := by
  unfold advance
  split
  case h_1 entered =>
    split
    case isTrue empty => exact .refused (by simpa using empty) entered
    case isFalse some_ =>
      have some_ : ¬(call.exhausted = true ∧ call.isEmpty = true) := by simpa using some_
      split
      · exact .turned _ (.inl entered) (.inl some_) (.inr (.inr (.inl rfl)))
      · exact .turned _ (.inl entered) (.inl some_) (.inl rfl)
  case h_2 passed =>
    unfold trySend
    split
    case isTrue => exact .turned _ (.inr passed) (.inr passed) (.inr (.inr (.inr rfl)))
    case isFalse isOpen =>
      split
      · exact .turned _ (.inr passed) (.inr passed) (.inr (.inl rfl))
      · exact .accepted passed (by simpa using isOpen)
  case h_3 full => exact .dropped full
  case h_4 queued => exact .truncated queued
  case h_5 => exact .same

theorem getElem?_set_phase (found : handoff.calls[id]? = some call) (phase : CallPhase)
    (other : ℕ) : (handoff.calls.set id { call with phase := phase })[other]? =
      if other = id then some { call with phase := phase } else handoff.calls[other]? := by
  have short := (List.getElem?_eq_some_iff.mp found).1
  by_cases here : id = other
  · simp [here, here ▸ short]
  · simp [here, Ne.symm here]

/-- What a step may have done. -/
inductive Stepped (sanitize : String → ℕ → String) (collectorId : String) (handoff : Handoff) :
    Handoff → Prop
  | called (queued : Queued) :
      Stepped sanitize collectorId handoff
        { handoff with calls := handoff.calls ++ [⟨queued, .entered⟩] }
  | advanced {id : ℕ} {call : Call} {after : Handoff} (found : handoff.calls[id]? = some call)
      (advanced : Advanced handoff id call after) : Stepped sanitize collectorId handoff after
  | took {id : ℕ} {queued : Queued} {rest : List (ℕ × Queued)} (inputs : JobInputs)
      (queue : handoff.queue = (id, queued) :: rest) (idle : handoff.current = none) :
      Stepped sanitize collectorId handoff
        { handoff with
          queue := rest
          current := some ⟨id, inputs, processJob sanitize collectorId queued inputs⟩ }
  | did {job : InProgress} {effect : Effect} {rest : List Effect} {spoolRefused : ℕ}
      (busy : handoff.current = some job) (effects : job.effects = effect :: rest) :
      Stepped sanitize collectorId handoff
        { handoff with
          current := some { job with effects := rest }
          spoolRefused := spoolRefused
          log := handoff.log ++ [(job.call, effect)] }
  | finished {job : InProgress} (busy : handoff.current = some job) (effects : job.effects = []) :
      Stepped sanitize collectorId handoff
        { handoff with
          current := none
          processed := handoff.processed ++ [(job.call, job.inputs)] }
  /-- The worker or the drain moves on, and the jobs stay where they are. -/
  | moved {closing receiverClosed permit : Bool} {worker : Worker} {drain : DrainPhase}
      (closed : handoff.receiverClosed = true → receiverClosed = true)
      (stays : handoff.worker = .exited → worker = .exited)
      (exits : worker = .exited → handoff.worker = .exited ∨
        handoff.receiverClosed = true ∧ handoff.queue = [] ∧ handoff.current = none)
      (reports : drain = .reported .drained → handoff.drain = .reported .drained ∨
        handoff.worker = .exited) :
      Stepped sanitize collectorId handoff
        { handoff with
          closing := closing
          receiverClosed := receiverClosed
          permit := permit
          worker := worker
          drain := drain }

theorem Stepped.same : Stepped sanitize collectorId handoff handoff :=
  .moved id id .inl .inl

theorem receive_stepped (inputs : JobInputs) (idle : handoff.current = none) :
    Stepped sanitize collectorId handoff (handoff.receive sanitize collectorId inputs) := by
  unfold receive
  split
  case h_1 empty =>
    split
    case isTrue closed =>
      apply Stepped.moved id
      · simp
      · exact fun _ => .inr ⟨closed, empty, idle⟩
      · exact .inl
    case isFalse => exact .same
  case h_2 queue => exact .took inputs queue idle

theorem work_stepped {job : InProgress} (busy : handoff.current = some job) :
    Stepped sanitize collectorId handoff (handoff.work job) := by
  unfold work
  split
  case h_1 effects => exact .finished busy effects
  case h_2 effects => exact .did busy effects

theorem drainQueue_stepped : Stepped sanitize collectorId handoff handoff.drainQueue := by
  unfold drainQueue
  split
  case h_1 => exact .moved id id .inl (by simp)
  case h_2 =>
    apply Stepped.moved id id .inl
    split <;> simp
  case h_3 => exact .moved id id .inl (by simp)
  case h_4 =>
    split
    case h_1 exited => exact .moved id id .inl fun _ => .inr exited
    case h_2 => exact .moved id id .inl (by simp)
    case h_3 => exact .same
  case h_5 => exact .same

theorem not_exited_of_isRunning (running : handoff.isRunning = true) :
    handoff.worker ≠ .exited := by
  intro exited
  simp [isRunning, exited] at running

theorem step_stepped (action : HandoffAction) : Stepped sanitize collectorId handoff
    (handoff.step sanitize collectorId capacity action) := by
  cases action with
  | call queued => exact .called queued
  | advance id =>
    simp only [step]
    split
    case h_1 => exact .same
    case h_2 found => exact .advanced found (advance_advanced handoff id _)
  | start =>
    simp only [step]
    split
    case isTrue first => exact .moved id (by simp [first]) (by simp) .inl
    case isFalse => exact .same
  | receive inputs =>
    simp only [step]
    split
    case isTrue rests => exact receive_stepped inputs (by simp_all [atRest])
    case isFalse => exact .same
  | notice =>
    simp only [step]
    split
    case isTrue notified =>
      have selecting : handoff.worker = .selecting := by simp_all
      exact .moved (fun _ => rfl) (by simp [selecting]) (by simp) .inl
    case isFalse => exact .same
  | work =>
    simp only [step]
    split
    case h_1 => exact .same
    case h_2 busy =>
      split
      · exact work_stepped busy
      · exact .same
  | fail =>
    simp only [step]
    split
    case isTrue running =>
      exact .moved id (fun exited => absurd exited (not_exited_of_isRunning running)) (by simp)
        .inl
    case isFalse => exact .same
  | drain => exact drainQueue_stepped
  | timeOut =>
    simp only [step]
    split
    case isTrue running =>
      exact .moved id (fun exited => absurd exited (not_exited_of_isRunning running.2)) (by simp)
        (by simp)
    case isFalse => exact .same

end Advancing

section Order

/-- Where the accepted jobs are. -/
structure Ordered (handoff : Handoff) : Prop where
  order : handoff.accepted = handoff.processed.map Prod.fst ++
    (handoff.current.map InProgress.call).toList ++ handoff.queue.map Prod.fst
  once : handoff.accepted.Nodup
  known : ∀ id ∈ handoff.accepted, id < handoff.calls.length
  accepted : ∀ id call, handoff.calls[id]? = some call →
    (id ∈ handoff.accepted ↔ call.phase = .queued ∨ call.phase = .returned (.ok ()))
  exited : handoff.worker = .exited → handoff.receiverClosed = true ∧ handoff.queue = [] ∧
    handoff.current = none
  drained : handoff.drain = .reported .drained → handoff.worker = .exited

section

variable (ordered : Ordered handoff) (found : handoff.calls[id]? = some call)
include ordered found

/-- A call turns to a phase that says the same about its acceptance; the counters may change. -/
theorem Ordered.turn {phase : CallPhase} {dropped truncated refused : ℕ}
    (same : (phase = .queued ∨ phase = .returned (.ok ())) ↔
      (call.phase = .queued ∨ call.phase = .returned (.ok ()))) :
    Ordered { handoff.setPhase id call phase with
      dropped := dropped, truncated := truncated, refused := refused } := by
  refine { ordered with known := ?_, accepted := ?_ }
  · simpa [setPhase] using ordered.known
  · intro other turned at_
    simp only [setPhase, getElem?_set_phase found] at at_
    split at at_
    case isTrue here =>
      cases at_
      rw [here, same]
      exact ordered.accepted id call found
    case isFalse => exact ordered.accepted other turned at_

theorem Ordered.accept (passed : call.phase = .passed) (isOpen : handoff.receiverClosed = false) :
    Ordered { handoff.setPhase id call (if call.exhausted then .queued else .returned (.ok ()))
      with
        queue := handoff.queue ++ [(id, call.queued)]
        accepted := handoff.accepted ++ [id] } := by
  have absent : id ∉ handoff.accepted := by
    rw [ordered.accepted id call found, passed]
    simp
  refine ⟨?_, ?_, ?_, ?_, ?_, ordered.drained⟩
  · simp [ordered.order, setPhase]
  · simpa [List.nodup_append, ordered.once] using fun other member => by
      rintro rfl
      exact absent member
  · intro other member
    simp only [setPhase, List.length_set]
    rcases List.mem_append.mp member with old | new
    · exact ordered.known other old
    · obtain rfl := List.mem_singleton.mp new
      exact (List.getElem?_eq_some_iff.mp found).1
  · intro other turned at_
    simp only [setPhase] at at_
    rw [getElem?_set_phase found] at at_
    split at at_
    case isTrue here =>
      cases at_
      subst here
      cases call.exhausted <;> simp
    case isFalse different =>
      simp only [List.mem_append, List.mem_singleton, different, or_false]
      exact ordered.accepted other turned at_
  · intro exited
    have closed := (ordered.exited exited).1
    rw [isOpen] at closed
    cases closed

theorem Ordered.advanced (advanced : Advanced handoff id call after) : Ordered after := by
  rcases advanced with
    ⟨-, entered⟩ | ⟨phase, before, -, later⟩ | ⟨passed, isOpen⟩ | full | queued | _
  · exact ordered.turn found (by simp [entered])
  · apply ordered.turn found
    rcases before with before | before <;> rcases later with later | later | later | later <;>
      simp [before, later]
  · exact ordered.accept found passed isOpen
  · exact ordered.turn found (by simp [full])
  · exact ordered.turn found (by simp [queued])
  · exact ordered

end

theorem Ordered.stepped (ordered : Ordered handoff)
    (stepped : Stepped sanitize collectorId handoff after) : Ordered after := by
  rcases stepped with queued | ⟨found, advanced⟩ | ⟨inputs, queue, idle⟩ | ⟨busy, effects⟩ |
    ⟨busy, effects⟩ | ⟨closed, stays, exits, reports⟩
  · refine { ordered with known := ?_, accepted := ?_ }
    · intro id member
      simpa using Nat.lt_succ_of_lt (ordered.known id member)
    · intro id call found
      rcases Nat.lt_or_ge id handoff.calls.length with old | new
      · rw [List.getElem?_append_left old] at found
        exact ordered.accepted id call found
      · have absent : id ∉ handoff.accepted := fun member =>
          absurd (ordered.known id member) (Nat.not_lt.mpr new)
        rw [List.getElem?_append_right new, List.getElem?_singleton] at found
        split at found
        case isTrue =>
          cases found
          simp [absent]
        case isFalse => cases found
  · exact ordered.advanced found advanced
  · refine { ordered with order := ?_, exited := ?_ }
    · simpa [queue, idle] using ordered.order
    · intro exited
      simpa [queue] using (ordered.exited exited).2.1
  case did | finished =>
    refine { ordered with order := ?_, exited := ?_ }
    · simpa [busy] using ordered.order
    · intro exited
      simpa [busy] using (ordered.exited exited).2.2
  · refine { ordered with exited := ?_, drained := ?_ }
    · intro exited
      rcases exits exited with before | ⟨isClosed, empty, idle⟩
      · rcases ordered.exited before with ⟨isClosed, empty, idle⟩
        exact ⟨closed isClosed, empty, idle⟩
      · exact ⟨closed isClosed, empty, idle⟩
    · intro drained
      apply stays
      rcases reports drained with before | exited
      · exact ordered.drained before
      · exact exited

end Order

section Counters

/-- The counters agree with the calls that have returned. -/
structure Counted (handoff : Handoff) : Prop where
  dropped : handoff.dropped = handoff.calls.countP Call.isDropped
  truncated : handoff.truncated = handoff.calls.countP Call.isTruncated
  refused : handoff.refused = handoff.calls.countP Call.isRefused
  honest : ∀ call ∈ handoff.calls, call.Honest

theorem countP_set_phase (found : handoff.calls[id]? = some call) (phase : CallPhase)
    {test : Call → Bool} (before : test call = false) :
    (handoff.calls.set id { call with phase := phase }).countP test =
      handoff.calls.countP test + if test { call with phase := phase } then 1 else 0 := by
  rcases List.getElem?_eq_some_iff.mp found with ⟨short, here⟩
  rw [List.countP_set short, here, before]
  simp

variable (counted : Counted handoff)
include counted

/-- A call turns to another phase, and the counters count it. -/
theorem Counted.turn (found : handoff.calls[id]? = some call)
    {phase : CallPhase} (running : call.isReturned = false)
    (calls : after.calls = handoff.calls.set id { call with phase := phase })
    (dropped : after.dropped =
      handoff.dropped + if Call.isDropped { call with phase := phase } then 1 else 0)
    (truncated : after.truncated =
      handoff.truncated + if Call.isTruncated { call with phase := phase } then 1 else 0)
    (refused : after.refused =
      handoff.refused + if Call.isRefused { call with phase := phase } then 1 else 0)
    (honest : Call.Honest { call with phase := phase }) : Counted after := by
  have uncounted := Call.uncounted_of_running running
  refine ⟨?_, ?_, ?_, ?_⟩
  · rw [dropped, calls, counted.dropped, countP_set_phase found phase uncounted.1]
  · rw [truncated, calls, counted.truncated, countP_set_phase found phase uncounted.2.1]
  · rw [refused, calls, counted.refused, countP_set_phase found phase uncounted.2.2]
  · intro other member
    rw [calls] at member
    rcases List.mem_or_eq_of_mem_set member with old | rfl
    · exact counted.honest other old
    · exact honest

theorem Counted.advanced (found : handoff.calls[id]? = some call)
    (advanced : Advanced handoff id call after) : Counted after := by
  have honest := counted.honest call (List.mem_of_getElem? found)
  rcases advanced with ⟨⟨cut, empty⟩, entered⟩ | ⟨phase, before, filled, later⟩ |
    ⟨passed, isOpen⟩ | full | queued | _
  case refused =>
    refine counted.turn found (by simp [Call.isReturned, entered]) rfl ?_ ?_ ?_ ?_
    · simp [setPhase, Call.isDropped]
    · simp [setPhase, Call.isTruncated]
    · simp [Call.isRefused, Call.isReturned, cut, empty]
    · exact ⟨fun _ _ => .inr rfl, by simp⟩
  case turned =>
    have running : call.isReturned = false := by
      rcases before with before | before <;> simp [Call.isReturned, before]
    have filled : ¬(call.exhausted = true ∧ call.isEmpty = true) := by
      rcases filled with filled | passed
      · exact filled
      · exact honest.some_ (by simp [passed]) running
    refine counted.turn found running rfl ?_ ?_ ?_ ?_
    · rcases later with rfl | rfl | rfl | rfl <;> simp [setPhase, Call.isDropped]
    · rcases later with rfl | rfl | rfl | rfl <;> simp [setPhase, Call.isTruncated]
    · simp [setPhase, Call.isRefused, filled]
    · exact Call.honest_of_some filled (by rcases later with rfl | rfl | rfl | rfl <;> simp)
  case accepted =>
    have running : call.isReturned = false := by simp [Call.isReturned, passed]
    have filled := honest.some_ (by simp [passed]) running
    refine counted.turn found running rfl ?_ ?_ ?_ ?_
    · cases call.exhausted <;> simp [setPhase, Call.isDropped]
    · cases cut : call.exhausted <;> simp [setPhase, Call.isTruncated, cut]
    · simp [setPhase, Call.isRefused, filled]
    · exact Call.honest_of_some filled (by cases call.exhausted <;> simp)
  case dropped =>
    have running : call.isReturned = false := by simp [Call.isReturned, full]
    have filled := honest.some_ (by simp [full]) running
    refine counted.turn found running rfl ?_ ?_ ?_ ?_
    · simp [Call.isDropped]
    · simp [setPhase, Call.isTruncated]
    · simp [setPhase, Call.isRefused, filled]
    · exact Call.honest_of_some filled (by simp)
  case truncated =>
    have running : call.isReturned = false := by simp [Call.isReturned, queued]
    have filled := honest.some_ (by simp [queued]) running
    have cut := honest.cut queued
    refine counted.turn found running rfl ?_ ?_ ?_ ?_
    · simp [setPhase, Call.isDropped]
    · simp_all [Call.isTruncated]
    · simp [setPhase, Call.isRefused, filled]
    · exact Call.honest_of_some filled (by simp)
  case same => exact counted

theorem Counted.stepped (stepped : Stepped sanitize collectorId handoff after) : Counted after := by
  rcases stepped with queued | ⟨found, advanced⟩ | _ | _ | _ | _
  case called =>
    refine ⟨?_, ?_, ?_, ?_⟩
    · simpa [Call.isDropped] using counted.dropped
    · simpa [Call.isTruncated] using counted.truncated
    · simpa [Call.isRefused, Call.isReturned] using counted.refused
    · exact List.forall_mem_append.mpr
        ⟨counted.honest, List.forall_mem_singleton.mpr (⟨fun _ _ => .inl rfl, by simp⟩)⟩
  case advanced => exact counted.advanced found advanced
  all_goals exact { counted with }

end Counters

section Reports

variable (handoff) in
/-- What a call submitted. -/
def jobOf (id : ℕ) : Option Queued :=
  handoff.calls[id]?.map Call.queued

variable (sanitize collectorId handoff) in
/-- What was done for the jobs taken so far is what `process_job` does for them. -/
structure Reported : Prop where
  queued : ∀ entry ∈ handoff.queue, handoff.jobOf entry.1 = some entry.2
  current : ∀ job, handoff.current = some job → ∃ queued, handoff.jobOf job.call = some queued ∧
    handoff.effectsOf job.call ++ job.effects = processJob sanitize collectorId queued job.inputs
  processed : ∀ entry ∈ handoff.processed, ∃ queued, handoff.jobOf entry.1 = some queued ∧
    handoff.effectsOf entry.1 = processJob sanitize collectorId queued entry.2
  fresh : ∀ id, id ∉ handoff.processed.map Prod.fst →
    (∀ job, handoff.current = some job → job.call ≠ id) → handoff.effectsOf id = []

theorem jobOf_set_phase (found : handoff.calls[id]? = some call) (phase : CallPhase)
    (other : ℕ) : (handoff.calls.set id { call with phase := phase })[other]?.map Call.queued =
      handoff.jobOf other := by
  rw [getElem?_set_phase found, jobOf]
  split
  case isTrue here => simp [here, found]
  case isFalse => rfl

/-- The calls may change, but for what they submitted; so may all that is not mentioned. -/
theorem Reported.recall (reported : Reported sanitize collectorId handoff)
    (jobs : ∀ id queued, handoff.jobOf id = some queued → after.jobOf id = some queued)
    (queue : ∀ entry ∈ after.queue, entry ∈ handoff.queue ∨ after.jobOf entry.1 = some entry.2)
    (current : after.current = handoff.current) (processed : after.processed = handoff.processed)
    (log : after.log = handoff.log) : Reported sanitize collectorId after := by
  have effects (id : ℕ) : after.effectsOf id = handoff.effectsOf id := by
    rw [effectsOf, log, effectsOf]
  refine ⟨?_, ?_, ?_, ?_⟩
  · intro entry member
    rcases queue entry member with old | new
    · exact jobs _ _ (reported.queued entry old)
    · exact new
  · intro job busy
    rw [current] at busy
    rcases reported.current job busy with ⟨queued, here, done⟩
    exact ⟨queued, jobs _ _ here, by rw [effects, done]⟩
  · intro entry member
    rw [processed] at member
    rcases reported.processed entry member with ⟨queued, here, done⟩
    exact ⟨queued, jobs _ _ here, by rw [effects, done]⟩
  · intro id
    rw [processed, current, effects]
    exact reported.fresh id

theorem Reported.advanced (reported : Reported sanitize collectorId handoff)
    (found : handoff.calls[id]? = some call) (advanced : Advanced handoff id call after) :
    Reported sanitize collectorId after := by
  have jobs (phase : CallPhase) (other : ℕ) (queued : Queued)
      (before : handoff.jobOf other = some queued) :
      (handoff.calls.set id { call with phase := phase })[other]?.map Call.queued =
        some queued := by
    rw [jobOf_set_phase found, before]
  rcases advanced with _ | ⟨phase, -, -, -⟩ | ⟨-, -⟩ | _ | _ | _
  case accepted =>
    refine reported.recall (jobs _) ?_ rfl rfl rfl
    intro entry member
    rcases List.mem_append.mp member with old | new
    · exact .inl old
    · rcases List.mem_singleton.mp new with rfl
      exact .inr (jobs _ id call.queued (by simp [jobOf, found]))
  case same => exact reported
  all_goals exact reported.recall (jobs _) (fun _ => .inl) rfl rfl rfl

theorem effectsOf_append {log : List (ℕ × Effect)} {done : ℕ × Effect}
    (grown : after.log = log ++ [done]) (same : handoff.log = log) (id : ℕ) :
    after.effectsOf id = handoff.effectsOf id ++ if done.1 = id then [done.2] else [] := by
  rw [effectsOf, grown, effectsOf, same, List.filter_append]
  by_cases here : done.1 = id <;> simp [here]

/-- What is processed is neither in progress nor in the queue. -/
theorem Ordered.apart (ordered : Ordered handoff) :
    (handoff.processed.map Prod.fst).Nodup ∧
      (∀ job, handoff.current = some job → job.call ∉ handoff.processed.map Prod.fst) ∧
      ∀ entry ∈ handoff.queue, entry.1 ∉ handoff.processed.map Prod.fst := by
  have once := ordered.once
  rw [ordered.order, List.nodup_append, List.nodup_append] at once
  rcases once with ⟨⟨nodup, -, current⟩, -, queue⟩
  refine ⟨nodup, ?_, ?_⟩
  · intro job busy member
    exact current _ member job.call (by simp [busy]) rfl
  · intro entry queued member
    exact queue _ (List.mem_append_left _ member) entry.1 (List.mem_map_of_mem queued) rfl

theorem Reported.stepped (reported : Reported sanitize collectorId handoff)
    (ordered : Ordered handoff) (stepped : Stepped sanitize collectorId handoff after) :
    Reported sanitize collectorId after := by
  rcases stepped with queued | ⟨found, advanced⟩ | ⟨inputs, queue, idle⟩ | ⟨busy, effects⟩ |
    ⟨busy, effects⟩ | _
  case called =>
    refine reported.recall ?_ (fun _ => .inl) rfl rfl rfl
    intro id submitted before
    simp only [jobOf]
    rcases Option.map_eq_some_iff.mp before with ⟨call, found, rfl⟩
    rw [List.getElem?_append_left (List.getElem?_eq_some_iff.mp found).1, found]
    rfl
  case advanced => exact reported.advanced found advanced
  case took id submitted rest =>
    have unseen : id ∉ handoff.processed.map Prod.fst :=
      ordered.apart.2.2 (id, submitted) (by simp [queue])
    have nothing : handoff.effectsOf id = [] := by
      apply reported.fresh id unseen
      simp [idle]
    refine ⟨?_, ?_, reported.processed, ?_⟩
    · intro entry member
      exact reported.queued entry (by simp [queue, member])
    · rintro job ⟨⟩
      refine ⟨submitted, reported.queued (id, submitted) (by simp [queue]), ?_⟩
      change handoff.effectsOf id ++ _ = _
      rw [nothing, List.nil_append]
    · intro other unprocessed _
      apply reported.fresh other unprocessed
      simp [idle]
  case did job effect rest _ =>
    have grown (id : ℕ) := @effectsOf_append handoff
      { handoff with log := handoff.log ++ [(job.call, effect)] } _ _ rfl rfl id
    refine ⟨reported.queued, ?_, ?_, ?_⟩
    · rintro after ⟨⟩
      rcases reported.current job busy with ⟨submitted, here, done⟩
      refine ⟨submitted, here, ?_⟩
      change _ = processJob sanitize collectorId submitted job.inputs
      rw [← done, effects]
      exact (congrArg (· ++ rest) (grown job.call)).trans (by simp)
    · intro entry member
      rcases reported.processed entry member with ⟨submitted, here, done⟩
      refine ⟨submitted, here, ?_⟩
      have other : job.call ≠ entry.1 := by
        intro same
        exact ordered.apart.2.1 job busy (same ▸ List.mem_map_of_mem member)
      exact (grown entry.1).trans (by simp [other, done])
    · intro id unprocessed idle
      have other : job.call ≠ id := idle { job with effects := rest } rfl
      refine (grown id).trans ?_
      rw [if_neg other, List.append_nil]
      apply reported.fresh id unprocessed
      intro current same
      cases busy.symm.trans same
      exact other
  case finished job =>
    refine ⟨reported.queued, ?_, ?_, ?_⟩
    · rintro job ⟨⟩
    · intro entry member
      rcases List.mem_append.mp member with old | new
      · exact reported.processed entry old
      · rcases List.mem_singleton.mp new with rfl
        rcases reported.current job busy with ⟨submitted, here, done⟩
        rw [effects, List.append_nil] at done
        exact ⟨submitted, here, done⟩
    · intro id unprocessed _
      simp only [List.map_append, List.mem_append, not_or] at unprocessed
      apply reported.fresh id unprocessed.1
      intro current same
      cases busy.symm.trans same
      simpa [eq_comm] using unprocessed.2
  case moved => exact reported.recall (fun _ _ => id) (fun _ => .inl) rfl rfl rfl

end Reports

section Run

variable (sanitize collectorId handoff) in
/-- The invariants together. -/
structure Sound : Prop where
  ordered : Ordered handoff
  counted : Counted handoff
  reported : Reported sanitize collectorId handoff

theorem sound_initial : Sound sanitize collectorId .initial where
  ordered := ⟨rfl, .nil, by simp [initial], by simp [initial], by simp [initial],
    by simp [initial]⟩
  counted := ⟨rfl, rfl, rfl, by simp [initial]⟩
  reported := ⟨by simp [initial], by simp [initial], by simp [initial],
    fun _ _ _ => by simp [initial, effectsOf]⟩

theorem Sound.step (sound : Sound sanitize collectorId handoff) (action : HandoffAction) :
    Sound sanitize collectorId (handoff.step sanitize collectorId capacity action) := by
  have stepped := @step_stepped sanitize collectorId capacity handoff action
  exact ⟨sound.ordered.stepped stepped, sound.counted.stepped stepped,
    sound.reported.stepped sound.ordered stepped⟩

theorem Sound.run (sound : Sound sanitize collectorId handoff) (actions : List HandoffAction) :
    Sound sanitize collectorId
      (actions.foldl (Handoff.step sanitize collectorId capacity) handoff) := by
  induction actions generalizing handoff with
  | nil => exact sound
  | cons action later ih => exact ih (sound.step action)

theorem Stepped.accepted_of_closed (stepped : Stepped sanitize collectorId handoff after)
    (closed : handoff.receiverClosed = true) :
    after.receiverClosed = true ∧ after.accepted = handoff.accepted := by
  rcases stepped with _ | ⟨-, advanced⟩ | _ | _ | _ | ⟨stays, -, -, -⟩
  case advanced =>
    rcases advanced with _ | _ | ⟨-, isOpen⟩ | _ | _ | _
    case accepted =>
      rw [closed] at isOpen
      cases isOpen
    all_goals exact ⟨closed, rfl⟩
  case moved => exact ⟨stays closed, rfl⟩
  all_goals exact ⟨closed, rfl⟩

theorem run_accepted_of_closed (actions : List HandoffAction)
    (closed : handoff.receiverClosed = true) :
    (actions.foldl (step sanitize collectorId capacity) handoff).accepted = handoff.accepted := by
  induction actions generalizing handoff with
  | nil => rfl
  | cons action later ih =>
    rcases (step_stepped action).accepted_of_closed closed
      with ⟨stays, same⟩
    exact (ih stays).trans same

end Run

end Handoff

section Outcome

variable {inputs : JobInputs} {job : CaptureJob} {arrival : Option Arrival} {event : SensorEvent}

/-- The report of a capture: its event, under the occurrence id minted for it. -/
def captureReport (arrival : Option Arrival) (inputs : JobInputs) (event : SensorEvent) :
    Effect :=
  .append ⟨{ event with occurrenceId := some inputs.occurrenceId }, inputs.suppressed,
    inputs.minted, arrival⟩ inputs.appended

theorem processJob_appends (built : job.event sanitize inputs = some event) :
    (processJob sanitize collectorId ⟨.capture job, arrival⟩ inputs).filter Effect.isAppend =
      [captureReport arrival inputs event] := by
  have counted : (countRefusal inputs.stored).filter Effect.isAppend = [] := by
    cases inputs.stored <;> rfl
  have manifest (rows : Option ManifestRow) :
      (rows.toList.map fun row => Effect.manifest row inputs.manifested).filter Effect.isAppend =
        [] := by
    cases rows <;> rfl
  simp only [processJob, built, reportCapture]
  rw [List.filter_cons_of_neg (by simp [Effect.isAppend]), List.filter_append, List.filter_append,
    counted, manifest]
  rfl

variable (sanitize collectorId) in
/-- Every job that was accepted is accounted for. -/
structure Accounted (handoff : Handoff) : Prop where
  once : handoff.accepted.Nodup
  accepted : ∀ (id : ℕ) (call : Call), handoff.calls[id]? = some call →
    call.phase = .returned (.ok ()) → id ∈ handoff.accepted
  /-- Once the drain reports it, what was accepted is processed, in that order. -/
  drained : handoff.drain = .reported .drained →
    handoff.processed.map Prod.fst = handoff.accepted
  dropped : handoff.dropped = handoff.calls.countP Call.isDropped
  truncated : handoff.truncated = handoff.calls.countP Call.isTruncated
  refused : handoff.refused = handoff.calls.countP Call.isRefused
  processed : ∀ entry ∈ handoff.processed, ∃ queued, handoff.jobOf entry.1 = some queued ∧
    handoff.effectsOf entry.1 = processJob sanitize collectorId queued entry.2
  /-- A capture whose builder does not panic is handed to the emitter once, -/
  appended : ∀ id inputs job arrival event, (id, inputs) ∈ handoff.processed →
    handoff.jobOf id = some ⟨.capture job, arrival⟩ → job.event sanitize inputs = some event →
    (handoff.effectsOf id).filter Effect.isAppend = [captureReport arrival inputs event]
  /-- and, if its event carries the capture id of the stored body, right after the custody
  record with the same occurrence id. -/
  manifested : ∀ id inputs job arrival event sample captureId, (id, inputs) ∈ handoff.processed →
    handoff.jobOf id = some ⟨.capture job, arrival⟩ → job.event sanitize inputs = some event →
    inputs.stored = .ok captureId → event.sample = some sample →
    sample.captureId = some captureId →
    ∃ front row, handoff.effectsOf id =
      front ++ [.manifest row inputs.manifested, captureReport arrival inputs event] ∧
        row.captureId = captureId ∧ row.occurrenceId = inputs.occurrenceId

theorem Handoff.Sound.accounted {handoff : Handoff}
    (sound : handoff.Sound sanitize collectorId) : Accounted sanitize collectorId handoff where
  once := sound.ordered.once
  accepted id call found returned := (sound.ordered.accepted id call found).mpr (.inr returned)
  drained reported := by
    rcases sound.ordered.exited (sound.ordered.drained reported) with ⟨-, empty, idle⟩
    simp [sound.ordered.order, empty, idle]
  dropped := sound.counted.dropped
  truncated := sound.counted.truncated
  refused := sound.counted.refused
  processed := sound.reported.processed
  appended id inputs job arrival event member submitted built := by
    rcases sound.reported.processed (id, inputs) member with ⟨queued, here, done⟩
    cases here.symm.trans submitted
    rw [done]
    exact processJob_appends built
  manifested id inputs job arrival event sample captureId member submitted built _ named
      identified := by
    rcases sound.reported.processed (id, inputs) member with ⟨queued, here, done⟩
    cases here.symm.trans submitted
    rw [done]
    refine ⟨.store (describe job.body.bytes).sha256 inputs.stored :: countRefusal inputs.stored,
      ⟨collectorId, captureId, inputs.occurrenceId, sample.sha256, sample.size, sample.sha256,
        .pending, .pending, .pending⟩, ?_, rfl, rfl⟩
    simp [processJob, built, reportCapture, manifestRow, named, identified, captureReport]

/-- In every run everything accepted is accounted for, and nothing more is accepted once the
receiver is closed. -/
theorem accepted_reported_once (sanitize : String → ℕ → String) (collectorId : String)
    (capacity : ℕ) (actions later : List HandoffAction) :
    let step := Handoff.step sanitize collectorId capacity
    let handoff := actions.foldl step .initial
    Accounted sanitize collectorId handoff ∧
      (handoff.receiverClosed = true →
        (later.foldl step handoff).accepted = handoff.accepted) :=
  ⟨(Handoff.sound_initial.run actions).accounted, Handoff.run_accepted_of_closed later⟩

def sampleCaptureEvent (sample : Option SampleRef) : SensorEvent :=
  { sampleConnection with sample := sample }

/-- A body cut short by the budget, handed to the builder of an event. -/
def sampleCapture (builder : SampleRef → SensorEvent) : Queued :=
  ⟨.capture ⟨⟨[1, 2, 3], true⟩, "x.bin", fun sample => some (builder sample)⟩, none⟩

def sampleInputs : JobInputs := ⟨.ok 7, 9, true, false, 11, true⟩

/-- The capture is queued, the drain closes the receiver, and only then does the submission count
it and return. -/
def captureClosing (builder : SampleRef → SensorEvent) : List HandoffAction :=
  [.start, .call (sampleCapture builder), .advance 0, .advance 0, .drain, .drain, .drain, .notice]

def captureDrained : List HandoffAction :=
  [.advance 0, .receive sampleInputs, .work, .work, .work, .work, .receive sampleInputs, .drain]

/-- A capture accepted before the receiver closes is processed, with its custody record. -/
theorem accepted_reported_once_closing :
    let handoff := (captureClosing (fun sample => sampleCaptureEvent (some sample)) ++
      captureDrained).foldl (Handoff.step (fun name _ => name) "sensor-1" 4) .initial
    handoff.drain = .reported .drained ∧ handoff.processed.map Prod.fst = [0] ∧
      handoff.truncated = 1 ∧ Accounted (fun name _ => name) "sensor-1" handoff :=
  ⟨by decide +kernel, by decide +kernel, by decide +kernel,
    (accepted_reported_once (fun name _ => name) "sensor-1" 4 _ []).1⟩

/-- The submission returns `Ok` although the receiver was already closed, and the event of its
stored body, whose builder leaves the sample out, is appended without a custody record. -/
theorem capture_without_record :
    let step := Handoff.step (fun name _ => name) "sensor-1" 4
    let closed := (captureClosing fun _ => sampleCaptureEvent none).foldl step .initial
    let handoff := captureDrained.foldl step closed
    closed.receiverClosed = true ∧ closed.calls.map Call.isReturned = [false] ∧
      handoff.calls.map Call.phase = [.returned (.ok ())] ∧
      handoff.drain = .reported .drained ∧ handoff.processed.map Prod.fst = [0] ∧
      (handoff.effectsOf 0).countP Effect.isAppend = 1 ∧
      (handoff.effectsOf 0).countP Effect.isManifest = 0 := by
  decide +kernel

end Outcome

end Propolis.Sensor
