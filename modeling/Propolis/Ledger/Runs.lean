import Propolis.Ledger.BatchRefinement

/-!
# Runs of the append paths

A run is any sequence of calls of the three append paths, with any events and
any database failures, from an empty database.  The append lock serializes the
transactions, so concurrent callers are such a sequence too.  Whatever a call
does, it does it by appending stored events one by one and by rolling back
(`call_invariant`); a property both keep holds after every run
(`run_invariant`).
-/

namespace Propolis

/-- One call of an append path, with the failures the database gives it. -/
inductive Call where
  | event (fault : Option Fault) (event : EventInput)
  | telemetry (fault : Option Fault) (event : EventInput)
  | events (faults : ℕ → Option Fault) (events : List EventInput)

section Calls

variable (decay : ℚ → ℤ → ℤ → ℚ) (chainHash : Option Digest → EventInput → Digest)

def Db.call (db : Db) : Call → Db
  | .event fault event => (appendEvent decay chainHash fault db event).1
  | .telemetry fault event => (appendTelemetryEvent chainHash fault db event).1
  | .events faults events => (appendEvents decay chainHash faults db events).1

/-- The database after a sequence of calls, from an empty one. -/
def run (calls : List Call) : Db :=
  calls.foldl (Db.call decay chainHash) Db.empty

variable {decay chainHash}

theorem appendSlices_invariant {State : Type*} {property : State → Prop}
    {atomic : ℕ → State → List EventInput → State × Option RepoError}
    {normalized : List EventInput}
    (kept : ∀ attempt state slice, (∀ event ∈ slice, event ∈ normalized) → property state →
      property (atomic attempt state slice).1)
    (attempt done stop : ℕ) (state : State) (holds : property state) :
    property (appendSlices atomic normalized attempt done stop state).1 := by
  have inside : ∀ done stop, ∀ event ∈ (normalized.take stop).drop done, event ∈ normalized := by
    intro done stop event member
    exact List.mem_of_mem_take (List.mem_of_mem_drop member)
  fun_induction appendSlices atomic normalized attempt done stop state with
  | case1 attempt done stop state running next ended ih
  | case2 attempt done stop state running next error ended narrow ih =>
      have step := kept attempt state _ (inside done stop) holds
      rw [ended] at step
      exact ih step
  | case3 attempt done stop state running next error failed narrow =>
      have step := kept attempt state _ (inside done stop) holds
      rwa [failed] at step
  | case4 => exact holds

theorem appendEventsWith_fst {State : Type*}
    (atomic : ℕ → State → List EventInput → State × Option RepoError) (state : State)
    (events : List EventInput) :
    (appendEventsWith atomic state events).1 =
      (appendSlices atomic ((validPrefix events).1.map normalizeEvent) 0 0
        ((validPrefix events).1.map normalizeEvent).length state).1 := by
  unfold appendEventsWith
  dsimp only
  split
  · rename_i equation
    rw [equation]
  · rename_i equation
    rw [equation]

theorem mem_validPrefix {events : List EventInput} {event : EventInput}
    (member : event ∈ (validPrefix events).1) : event.Valid := by
  induction events with
  | nil => simp [validPrefix] at member
  | cons first rest ih =>
      unfold validPrefix at member
      split at member
      · simp at member
      · rename_i passes
        rcases List.mem_cons.mp member with rfl | later
        · exact passes
        · exact ih later

variable {property : Db → Prop}
  (rollback : ∀ db fault, property db → property (db.rollback fault))
  (append : ∀ db event, event.Stored → property db →
    property (appendNormalized decay chainHash db event))

include append in
theorem foldl_appendNormalized_invariant (events : List EventInput)
    (stored : ∀ event ∈ events, event.Stored) (db : Db) (holds : property db) :
    property (events.foldl (appendNormalized decay chainHash) db) := by
  induction events generalizing db with
  | nil => exact holds
  | cons event rest ih =>
      refine ih (fun other member => stored other (List.mem_cons_of_mem _ member)) _ ?_
      exact append db event (stored event (by simp)) holds

include rollback append in
/-- What rolling back and appending one stored event keep, every call keeps. -/
theorem call_invariant (db : Db) (call : Call) (holds : property db) :
    property (db.call decay chainHash call) := by
  cases call with
  | event fault event | telemetry fault event =>
      simp only [Db.call, appendEvent, appendTelemetryEvent]
      cases passes : event.validate with
      | error error => exact holds
      | ok =>
          dsimp only
          split
          · exact holds
          case isFalse admitted =>
            simp only [Bool.not_eq_true, Bool.not_eq_false'] at admitted
            cases fault with
            | some fault => exact rollback db fault holds
            | none =>
                have step := append db _ (normalizeEvent_stored passes) holds
                simpa [appendNormalized, normalizeEvent, admitted] using step
  | events faults events =>
      have stored : ∀ event ∈ (validPrefix events).1.map normalizeEvent, event.Stored := by
        intro event member
        rcases List.mem_map.mp member with ⟨original, isMember, rfl⟩
        exact normalizeEvent_stored (mem_validPrefix isMember)
      simp only [Db.call, appendEvents, appendEventsWith_fst]
      refine appendSlices_invariant ?_ 0 0 _ db holds
      intro attempt state slice inside stateHolds
      have sliceStored : ∀ event ∈ slice, event.Stored := fun event member =>
        stored event (inside event member)
      unfold attemptAtomic
      split
      · exact rollback state _ stateHolds
      · rw [appendAtomic_eq_foldl state sliceStored]
        exact foldl_appendNormalized_invariant append slice sliceStored state stateHolds

include rollback append in
theorem run_invariant (initial : property Db.empty) (calls : List Call) :
    property (run decay chainHash calls) := by
  unfold run
  induction calls using List.reverseRecOn with
  | nil => exact initial
  | append_singleton earlier call ih =>
      rw [List.foldl_append]
      exact call_invariant rollback append _ call ih

end Calls

section Stored

/-- A stored event comes back from its row, without the session the row keeps beside the hash. -/
theorem reconstructEvent_eventRow {event : EventInput} (stored : event.Stored) (id : ℕ)
    (prevHash : Option Digest) (hash : Digest) :
    reconstructEvent (eventRow id event prevHash hash) = { event with sessionId := none } := by
  have observed := eventRow_observed stored id prevHash hash
  have weight : asU32 (asI32 event.weight) = event.weight := by
    have small := stored.weight
    unfold asU32 asI32
    omega
  have confidence : (decodeConfidence (event.confidence.rescale 3).mantissa).rescale 3 =
      event.confidence := by
    rw [Decimal.rescale_of_scale_eq stored.scale, decodeConfidence_rescale, ← stored.scale]
  simp only [reconstructEvent, observed]
  simp only [eventRow, weight, confidence]

end Stored

end Propolis
