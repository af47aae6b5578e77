import Propolis.Ledger.Append

/-!
# The first bad event of a batch

`append_events` (`repository/batch.rs`) over an append of a slice that is all or nothing: it fails
with an error of one of the slice's refused events if there is any, or with another error on any
attempt.  The loop halves the window when it fails and takes the whole rest when it succeeds, and
what it reports is the first event that is invalid or refused.

What a window fails with is the error of some refused event in it; only in a window of one event
it is that event's own.  So the loop is right whichever error a longer window reports.
-/

namespace Propolis

section Terminating

variable {State : Type}

/-- The variables of the loop. -/
structure SliceLoop (State : Type) where
  attempt : ℕ
  done : ℕ
  stop : ℕ
  state : State

variable (atomic : ℕ → State → List EventInput → State × Option RepoError)
  (normalized : List EventInput)

/-- One round of the loop, or its end. -/
def SliceLoop.step (loop : SliceLoop State) : SliceLoop State ⊕ (State × BatchAppend) :=
  if loop.done < normalized.length then
    match atomic loop.attempt loop.state ((normalized.take loop.stop).drop loop.done) with
    | (state, none) => .inl ⟨loop.attempt + 1, loop.stop, normalized.length, state⟩
    | (state, some error) =>
        if 1 < loop.stop - loop.done ∧ error.isEventSpecific then
          .inl ⟨loop.attempt + 1, loop.done, loop.done + (loop.stop - loop.done) / 2, state⟩
        else .inr (state, ⟨loop.done, some error⟩)
  else .inr (loop.state, ⟨loop.done, none⟩)

/-- So many rounds at most. -/
def SliceLoop.run : ℕ → SliceLoop State → Option (State × BatchAppend)
  | 0, _ => none
  | rounds + 1, loop =>
      match loop.step atomic normalized with
      | .inl next => run rounds next
      | .inr result => some result

variable {atomic normalized}

/-- The loop ends, since the window never becomes empty before the end of the batch, and its
outcome is that of `appendSlices`. -/
theorem SliceLoop.run_eq {attempt done stop : ℕ} {state : State}
    (window : done < normalized.length → done < stop) :
    ∃ rounds, SliceLoop.run atomic normalized rounds ⟨attempt, done, stop, state⟩ =
      some (appendSlices atomic normalized attempt done stop state) := by
  fun_induction appendSlices atomic normalized attempt done stop state with
  | case1 attempt done stop state more next appended ih =>
    rcases ih id with ⟨rounds, outcome⟩
    refine ⟨rounds + 1, ?_⟩
    simp only [run, step, if_pos more.1, appended]
    exact outcome
  | case2 attempt done stop state more next error failed halved ih =>
    rcases ih (fun _ => by omega) with ⟨rounds, outcome⟩
    refine ⟨rounds + 1, ?_⟩
    simp only [run, step, if_pos more.1, failed, if_pos halved]
    exact outcome
  | case3 attempt done stop state more next error failed stuck =>
    refine ⟨1, ?_⟩
    simp only [run, step, if_pos more.1, failed, if_neg stuck]
  | case4 attempt done stop state over_ =>
    have finished : ¬done < normalized.length := fun more => over_ ⟨more, window more⟩
    refine ⟨1, ?_⟩
    simp only [run, step, if_neg finished]

end Terminating

section Isolating

/-- The events the database refuses, each with an error that one event can cause. -/
structure Refusals where
  refusal : EventInput → Option RepoError
  specific : ∀ event error, refusal event = some error → error.isEventSpecific = true

/-- The attempts that fail for another reason. -/
structure Outages where
  error : ℕ → Option RepoError
  general : ∀ attempt failed, error attempt = some failed → failed.isEventSpecific = false

/-- So many attempts meet no other error. -/
def Outages.CalmFor (outages : Outages) (attempts : ℕ) : Prop :=
  ∀ attempt < attempts, outages.error attempt = none

/-- The committed rows, and how many attempts were made. -/
structure Appending where
  committed : List EventInput
  attempts : ℕ

def Appending.tried (state : Appending) : Appending :=
  { state with attempts := state.attempts + 1 }

variable (refusals : Refusals) (outages : Outages) (blame : ℕ → ℕ)

/-- `append_atomic` on a slice: all or nothing.  `blame` is which refused event it reports. -/
def sliceAttempt (attempt : ℕ) (state : Appending) (slice : List EventInput) :
    Appending × Option RepoError :=
  match outages.error attempt with
  | some error => (state.tried, some error)
  | none =>
      match slice.filterMap refusals.refusal with
      | [] => ({ state.tried with committed := state.committed ++ slice }, none)
      | first :: rest => (state.tried, some ((first :: rest).getD (blame attempt) first))

/-- `append_events`, for so many rounds of its loop. -/
def appendEventsIn (rounds : ℕ) (events : List EventInput) : Option (Appending × BatchAppend) :=
  let (valid, firstInvalid) := validPrefix events
  let normalized := valid.map normalizeEvent
  (SliceLoop.run (sliceAttempt refusals outages blame) normalized rounds
    ⟨0, 0, normalized.length, ⟨[], 0⟩⟩).map fun
      | (state, ⟨done, some error⟩) => (state, ⟨done, some error⟩)
      | (state, ⟨done, none⟩) => (state, ⟨done, firstInvalid.map .invalid⟩)

/-- What is wrong with an event on its own. -/
def ownError (event : EventInput) : Option RepoError :=
  match event.validate with
  | .error error => some (.invalid error)
  | .ok () => refusals.refusal (normalizeEvent event)

/-- The index of the first event that is invalid or refused. -/
def firstBad (events : List EventInput) : ℕ :=
  events.findIdx fun event => (ownError refusals event).isSome

/-- What the loop has made of the events it was given. -/
structure Narrowed (normalized : List EventInput) (state : Appending) (outcome : BatchAppend) :
    Prop where
  committed : state.committed = normalized.take outcome.appended
  within : outcome.appended ≤ normalized.length
  accepted : ∀ event ∈ normalized.take outcome.appended, refusals.refusal event = none
  ends : outages.CalmFor state.attempts ∧ outcome.appended = normalized.length ∧
      outcome.failure = none ∨
    (∃ event error, outages.CalmFor state.attempts ∧
      normalized[outcome.appended]? = some event ∧ refusals.refusal event = some error ∧
      outcome.failure = some error) ∨
    ∃ last error, state.attempts = last + 1 ∧ outages.CalmFor last ∧
      outages.error last = some error ∧ outcome.failure = some error

variable {refusals outages blame} {normalized : List EventInput}

theorem Outages.CalmFor.succ {attempts : ℕ} (calm : outages.CalmFor attempts)
    (unmet : outages.error attempts = none) : outages.CalmFor (attempts + 1) :=
  Nat.forall_lt_succ_right.mpr ⟨calm, unmet⟩

theorem sliceAttempt_cases (attempt : ℕ) (state : Appending) (slice : List EventInput) :
    (∃ error, outages.error attempt = some error ∧
      sliceAttempt refusals outages blame attempt state slice = (state.tried, some error)) ∨
    outages.error attempt = none ∧ ((∀ event ∈ slice, refusals.refusal event = none) ∧
      sliceAttempt refusals outages blame attempt state slice =
        ({ state.tried with committed := state.committed ++ slice }, none) ∨
    ∃ event ∈ slice, ∃ error, refusals.refusal event = some error ∧
      sliceAttempt refusals outages blame attempt state slice = (state.tried, some error)) := by
  unfold sliceAttempt
  cases out : outages.error attempt with
  | some error => exact .inl ⟨error, rfl, rfl⟩
  | none =>
    cases refused : slice.filterMap refusals.refusal with
    | nil => exact .inr ⟨rfl, .inl ⟨List.filterMap_eq_nil_iff.mp refused, rfl⟩⟩
    | cons first rest =>
      have member : (first :: rest).getD (blame attempt) first ∈ first :: rest := by
        rw [List.getD_eq_getElem?_getD]
        cases found : (first :: rest)[blame attempt]? with
        | none => simp
        | some error => exact List.mem_of_getElem? found
      rw [← refused] at member
      rcases List.mem_filterMap.mp member with ⟨event, inside, own⟩
      rw [refused] at own
      exact .inr ⟨rfl, .inr ⟨event, inside, _, own, rfl⟩⟩

/-- A window of one event holds the next one. -/
theorem window_of_one {done stop : ℕ} (one : stop = done + 1) (inside : done < normalized.length)
    {event : EventInput} (member : event ∈ (normalized.take stop).drop done) :
    normalized[done]? = some event := by
  rw [one, List.take_add_one, List.drop_append_of_le_length (by simp; omega)] at member
  simpa [List.getElem?_eq_getElem inside, eq_comm] using member

theorem appendSlices_narrowed {attempt done stop : ℕ} {state : Appending}
    (window : done < normalized.length → done < stop) (bounded : stop ≤ normalized.length)
    (start : done ≤ normalized.length) (committed : state.committed = normalized.take done)
    (counted : state.attempts = attempt) (calm : outages.CalmFor attempt)
    (accepted : ∀ event ∈ normalized.take done, refusals.refusal event = none) :
    Narrowed refusals outages normalized
      (appendSlices (sliceAttempt refusals outages blame) normalized attempt done stop state).1
      (appendSlices (sliceAttempt refusals outages blame) normalized attempt done stop
        state).2 := by
  fun_induction appendSlices (sliceAttempt refusals outages blame) normalized attempt done stop
      state with
  | case1 attempt done stop state more next appended ih =>
    rcases sliceAttempt_cases attempt state ((normalized.take stop).drop done) with
      ⟨error, -, answer⟩ | ⟨unmet, ⟨clean, answer⟩ | ⟨event, -, error, -, answer⟩⟩
    · cases appended.symm.trans answer
    · cases appended.symm.trans answer
      have joined : normalized.take done ++ (normalized.take stop).drop done =
          normalized.take stop := drop_take_append normalized (Nat.zero_le _) more.2.le
      apply ih id le_rfl bounded
      · exact (congrArg (· ++ (normalized.take stop).drop done) committed).trans joined
      · exact congrArg (· + 1) counted
      · exact calm.succ unmet
      · intro event member
        rw [← joined] at member
        rcases List.mem_append.mp member with old | new
        · exact accepted event old
        · exact clean event new
    · cases appended.symm.trans answer
  | case2 attempt done stop state more next error failed halved ih =>
    rcases sliceAttempt_cases attempt state ((normalized.take stop).drop done) with
      ⟨other, out, answer⟩ | ⟨unmet, ⟨-, answer⟩ | ⟨event, -, other, -, answer⟩⟩
    · cases failed.symm.trans answer
      rw [outages.general attempt error out] at halved
      cases halved.2
    · cases failed.symm.trans answer
    · cases failed.symm.trans answer
      exact ih (fun _ => by omega) (by omega) start committed (congrArg (· + 1) counted)
        (calm.succ unmet) accepted
  | case3 attempt done stop state more next error failed stuck =>
    rcases sliceAttempt_cases attempt state ((normalized.take stop).drop done) with
      ⟨other, out, answer⟩ | ⟨unmet, ⟨-, answer⟩ | ⟨event, member, other, refused, answer⟩⟩
    · cases failed.symm.trans answer
      exact ⟨committed, start, accepted, .inr (.inr
        ⟨attempt, error, congrArg (· + 1) counted, calm, out, rfl⟩)⟩
    · cases failed.symm.trans answer
    · cases failed.symm.trans answer
      have one : stop = done + 1 := by
        have specific := refusals.specific event error refused
        have short : ¬1 < stop - done := fun long => stuck ⟨long, specific⟩
        omega
      have still : outages.CalmFor state.tried.attempts := by
        simpa [Appending.tried, counted] using calm.succ unmet
      exact ⟨committed, start, accepted, .inr (.inl
        ⟨event, error, still, window_of_one one more.1 member, refused, rfl⟩)⟩
  | case4 attempt done stop state over_ =>
    have whole : done = normalized.length := by omega
    exact ⟨committed, start, accepted, .inl ⟨counted ▸ calm, whole, rfl⟩⟩

/-- The valid events are those before the first that is not. -/
theorem validPrefix_spec (events : List EventInput) :
    (validPrefix events).1 = events.take (validPrefix events).1.length ∧
      (∀ event ∈ (validPrefix events).1, event.validate = .ok ()) ∧
      ((validPrefix events).2 = none ∧ (validPrefix events).1.length = events.length ∨
        ∃ event error, events[(validPrefix events).1.length]? = some event ∧
          event.validate = .error error ∧ (validPrefix events).2 = some error) := by
  induction events with
  | nil => simp [validPrefix]
  | cons event rest ih =>
    rcases ih with ⟨front, valid, ends⟩
    cases checked : event.validate with
    | error error => simp [validPrefix, checked]
    | ok done =>
      simp only [validPrefix, checked, List.length_cons, List.take_succ_cons, List.mem_cons]
      refine ⟨by rw [← front], ?_, ?_⟩
      · rintro other (rfl | member)
        · exact checked
        · exact valid other member
      · rcases ends with ⟨none_, whole⟩ | invalid
        · exact .inl ⟨none_, by rw [whole]⟩
        · exact .inr invalid

/-- An index before which nothing is wrong, and where something is or the events end. -/
theorem firstBad_eq {events : List EventInput} {index : ℕ}
    (before : ∀ event ∈ events.take index, ownError refusals event = none)
    (here : index = events.length ∨
      ∃ event error, events[index]? = some event ∧ ownError refusals event = some error) :
    firstBad refusals events = index := by
  induction events generalizing index with
  | nil =>
    rcases here with rfl | ⟨event, error, found, -⟩
    · rfl
    · simp at found
  | cons event rest ih =>
    cases index with
    | zero =>
      rcases here with nothing | ⟨other, error, found, own⟩
      · simp at nothing
      · simp only [List.getElem?_cons_zero, Option.some.injEq] at found
        subst found
        simp [firstBad, List.findIdx_cons, own]
    | succ index =>
      have first : ownError refusals event = none := before event (by simp)
      have later := @ih index (fun other member => before other (by simp [member]))
        (by simpa using here)
      rw [firstBad] at later
      simp [firstBad, List.findIdx_cons, first, later]

variable (refusals outages) in
/-- What `append_events` has made of a list of events. -/
structure Isolated (events : List EventInput) (state : Appending) (outcome : BatchAppend) :
    Prop where
  /-- The committed rows are the first events, each once and in order. -/
  committed : state.committed = (events.take outcome.appended).map normalizeEvent
  within : outcome.appended ≤ events.length
  /-- Where no attempt meets another error, it stops at the first bad event, with that event's
  error. -/
  first : outages.CalmFor state.attempts → outcome.appended = firstBad refusals events ∧
    outcome.failure = events[firstBad refusals events]?.bind (ownError refusals)
  /-- Another error that an attempt meets is what it fails with. -/
  other : ∀ attempt < state.attempts, ∀ error, outages.error attempt = some error →
    outcome.failure = some error

theorem ownError_of_valid {event : EventInput} (valid : event.validate = .ok ()) :
    ownError refusals event = refusals.refusal (normalizeEvent event) := by
  rw [ownError, valid]

/-- From what the loop has made of the valid events to what the whole has made of all. -/
theorem Narrowed.isolated {events : List EventInput} {state : Appending} {outcome : BatchAppend}
    (narrowed : Narrowed refusals outages ((validPrefix events).1.map normalizeEvent)
      state outcome) :
    Isolated refusals outages events state
      ⟨outcome.appended, outcome.failure <|> (validPrefix events).2.map .invalid⟩ := by
  rcases validPrefix_spec events with ⟨front, valid, ends⟩
  rcases narrowed with ⟨committed, within, accepted, narrowedEnds⟩
  generalize (validPrefix events).1 = ok at *
  rw [List.length_map] at within
  have size : ok.length ≤ events.length := by
    rw [front]
    simp
  have same : ok.take outcome.appended = events.take outcome.appended := by
    rw [front, List.take_take, min_eq_left within]
  have before : ∀ event ∈ events.take outcome.appended, ownError refusals event = none := by
    intro event member
    rw [← same] at member
    rw [ownError_of_valid (valid event (List.mem_of_mem_take member))]
    apply accepted
    rw [← List.map_take]
    exact List.mem_map_of_mem member
  refine ⟨by rw [committed, ← List.map_take, same], within.trans size, ?_, ?_⟩
  · intro calm
    rcases narrowedEnds with ⟨-, whole, ended⟩ | ⟨event, error, -, found, refused, ended⟩ |
      ⟨last, error, made, -, met, -⟩
    · rw [List.length_map] at whole
      rcases ends with ⟨sound, all⟩ | ⟨event, error, found, invalid, reported⟩
      · have bad := firstBad_eq before (.inl (by rw [whole, all]))
        refine ⟨bad.symm, ?_⟩
        simp [bad, ended, sound, whole, all]
      · have own : ownError refusals event = some (.invalid error) := by
          rw [ownError, invalid]
        rw [← whole] at found
        have bad := firstBad_eq before (.inr ⟨event, _, found, own⟩)
        refine ⟨bad.symm, ?_⟩
        simp [bad, ended, reported, found, own]
    · rw [List.getElem?_map] at found
      rcases Option.map_eq_some_iff.mp found with ⟨original, here, rfl⟩
      have own : ownError refusals original = some error := by
        rw [ownError_of_valid (valid original (List.mem_of_getElem? here)), refused]
      have found : events[outcome.appended]? = some original := by
        have inside := (List.getElem?_eq_some_iff.mp here).1
        rw [front, List.getElem?_take_of_lt inside] at here
        exact here
      have bad := firstBad_eq before (.inr ⟨original, _, found, own⟩)
      refine ⟨bad.symm, ?_⟩
      simp [bad, ended, found, own]
    · simp [calm last (by omega)] at met
  · intro attempt made error out
    rcases narrowedEnds with ⟨calm, -, -⟩ | ⟨_, _, calm, -, -, -⟩ |
      ⟨last, other, count, calm, met, ended⟩
    · simp [calm attempt made] at out
    · simp [calm attempt made] at out
    · rcases Nat.lt_succ_iff_lt_or_eq.mp (count ▸ made) with earlier | rfl
      · simp [calm attempt earlier] at out
      · simp [ended, ← met, out]

end Isolating

end Propolis
