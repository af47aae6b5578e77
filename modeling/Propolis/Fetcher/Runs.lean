import Propolis.Fetcher.Lineage
import Propolis.Lib.Run

/-!
# Runs of the nodes

Any number of nodes take their steps in any order, and every cycle finishes inside its lease.
Then the budgets hold in every state they reach, whatever the servers return and whatever fails.
How often a URL is fetched is bounded where no outcome is lost: a row whose outcome is lost is
fetched again and no attempt of it is counted.
-/

namespace Propolis.Fetcher

open Bytes FetchWorld Run

variable {env : FetchEnv} {limits : FetchLimits} {world after : FetchWorld} {row : FetchRow}

/-- What holds between any two steps, whatever fails. -/
structure Orderly (limits : FetchLimits) (world : FetchWorld) : Prop where
  exclusive : Exclusive world
  charging : Charging limits world
  lineage : Lineage limits world

theorem orderly_initial (events : List LedgerEvent) (clock : ℤ) :
    Orderly limits (.initial events clock) := by
  constructor <;> constructor <;> simp [FetchWorld.initial, UniqueRows, inFlightHashes,
    heldHashes, usedOn, parentsNamed]

theorem Orderly.step (orderly : Orderly limits world) {action : FetchAction}
    (leased : world.leased action = true) : Orderly limits (world.step env limits action) := by
  have moves := @step_moves env limits world action leased
  exact ⟨orderly.exclusive.step moves, orderly.charging.step moves,
    orderly.lineage.step orderly.exclusive moves⟩

/-- A row that is done stays as it is, and its URL is not fetched again. -/
theorem Moves.done_stays {loses : Bool} (moves : Moves env limits loses world after)
    (exclusive : Exclusive world)
    (member : row ∈ world.rows) (done : row.status.isTerminal = true) :
    row ∈ after.rows ∧ after.fetchesOf row.urlHash = world.fetchesOf row.urlHash := by
  cases moves with
  | stays | passes | appends | begins | locks | selects | decides | aborts | ends =>
      exact ⟨member, rfl⟩
  | syncs cursor found => exact ⟨insertAll_mem member found, rfl⟩
  | enqueues job _ child left _ rows made =>
      refine ⟨?_, rfl⟩
      rcases made with rfl | rfl
      · exact insertPending_mem member child
      · exact member
  | commits claim inside eligible decision stage =>
      refine ⟨claimRows_mem member ?_, rfl⟩
      intro chosen
      obtain ⟨candidate, picked, same⟩ := List.mem_map.mp chosen
      have held := (exclusive.chosen claim inside).subset (by rwa [OpenClaim.chosen, stage])
      obtain ⟨own, ownMember, sameRow, eligible⟩ := exclusive.held claim inside candidate held
      rw [exclusive.unique.eq_of_hash ownMember member ((candidate_hash sameRow).trans same)]
        at eligible
      simp [FetchRow.isEligible_open eligible] at done
  | starts job flying stage =>
      have elsewhere := exclusive.flies_elsewhere member done flying (by rw [Job.isInFlight, stage])
      simp [fetchesOf, elsewhere.symm, member]
  | finishes job flying stage outcome clock result children made =>
      have elsewhere := exclusive.flies_elsewhere member done flying (by rw [Job.isInFlight, stage])
      rw [← processOutcome_candidate made] at elsewhere
      exact ⟨upsertAttempt_mem member elsewhere, rfl⟩

/-- Every cycle finishes inside its lease, and no outcome is lost. -/
def FetchWorld.recorded (world : FetchWorld) (action : FetchAction) : Bool :=
  world.leased action && !world.losesOutcome action

section Budgets

variable {events : List LedgerEvent} {clock : ℤ}

theorem counting_of_reaches
    (reached : Reaches (step env limits) recorded (.initial events clock) world) :
    Counting world := by
  obtain ⟨actions, met, rfl⟩ := reached
  refine (invariant_of_meets (fun world => Orderly limits world ∧ Counting world) ?_
    ⟨orderly_initial events clock, by constructor <;> simp [FetchWorld.initial]⟩ met).2
  rintro world action guard ⟨orderly, counting⟩
  obtain ⟨leased, kept⟩ := Bool.and_eq_true_iff.mp guard
  have moves := @step_moves env limits world action leased
  rw [Bool.not_eq_eq_eq_not.mp kept] at moves
  exact ⟨orderly.step leased, counting.step orderly.exclusive moves⟩

theorem orderly_of_reaches
    (reached : Reaches (step env limits) leased (.initial events clock) world) :
    Orderly limits world := by
  obtain ⟨actions, met, rfl⟩ := reached
  exact invariant_of_meets (Orderly limits) (fun _ _ leased orderly => orderly.step leased)
    (orderly_initial events clock) met

/-- Every URL is its own host, and every body names one more. -/
def sampleStep : FetchWorld → FetchAction → FetchWorld :=
  step ⟨ofText, fun url => some ("http", url, none), fun _ => ["d"]⟩ ⟨5, 5, 1⟩

def sampleStart : FetchWorld :=
  .initial [⟨.v4 8 8 8 8, true, some "a"⟩, ⟨.v4 8 8 8 8, true, some "b"⟩] 0

/-- The second node waits for the first and takes the row that is left; one fetch is over, the other
is under way. -/
def twoNodes : List FetchAction :=
  [.sync 9, .begin_ 0 1 60, .begin_ 1 9 60, .lockDay 0, .lockDay 1, .select 0, .decide_ 0,
    .commit 0, .lockDay 1, .select 1, .decide_ 1, .commit 1, .start 0 (ofText "a"),
    .start 1 (ofText "b"), .finish 0 (ofText "a") (.captured (ofText "c") true) 0,
    .enqueue 0 (ofText "a") true]

def shared : FetchWorld :=
  twoNodes.foldl sampleStep sampleStart

/-- The second node panics, and a claim of a third fails. -/
def failing : List FetchAction :=
  [.drop 1 (ofText "b"), .pass 60, .begin_ 2 9 60, .lockDay 2, .select 2, .abort 2]

def failed : FetchWorld :=
  failing.foldl sampleStep shared

theorem shared_reached : Reaches sampleStep leased sampleStart shared :=
  ⟨twoNodes, by decide +kernel, rfl⟩

theorem shared_recorded : Reaches sampleStep recorded sampleStart shared :=
  ⟨twoNodes, by decide +kernel, rfl⟩

theorem failed_reached : Reaches sampleStep leased shared failed :=
  ⟨failing, by decide +kernel, rfl⟩

/-- The usage row of a day counts the rows claimed on it, which stay within the daily cap. -/
theorem claims_within_daily_cap
    (reached : Reaches (step env limits) leased (.initial events clock) world)
    (day : ℤ) :
    world.charged.countP (fun entry => entry.1 = day) = world.usedOn day ∧
      world.usedOn day ≤ limits.dailyCap :=
  ⟨(orderly_of_reaches reached).charging.charged day,
    (orderly_of_reaches reached).charging.within day⟩

theorem claims_within_daily_cap_failed :
    failed.charged.countP (fun entry => entry.1 = 0) = failed.usedOn 0 ∧ failed.usedOn 0 ≤ 5 :=
  claims_within_daily_cap (shared_reached.trans failed_reached) 0

/-- A row is in the hand of one fetch or of one transaction, and a fetch has its row under its
own lease, which holds. -/
theorem row_in_one_hand
    (reached : Reaches (step env limits) leased (.initial events clock) world) :
    (inFlightHashes world.jobs ++ heldHashes world.claims).Nodup ∧
      ∀ job ∈ world.jobs, job.isInFlight = true → world.clock < job.expires ∧
        ∃ row ∈ world.rows, row.candidate = job.candidate ∧ row.status.isTerminal = false ∧
          row.claimExpires = some job.expires :=
  ⟨(orderly_of_reaches reached).exclusive.apart, (orderly_of_reaches reached).exclusive.claimed⟩

theorem row_in_one_hand_shared :
    (inFlightHashes shared.jobs ++ heldHashes shared.claims).Nodup ∧
      ∀ job ∈ shared.jobs, job.isInFlight = true → shared.clock < job.expires ∧
        ∃ row ∈ shared.rows, row.candidate = job.candidate ∧ row.status.isTerminal = false ∧
          row.claimExpires = some job.expires :=
  row_in_one_hand shared_reached

end Budgets

end Propolis.Fetcher
