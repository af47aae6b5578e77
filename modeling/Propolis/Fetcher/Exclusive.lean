import Mathlib.Data.List.Flatten
import Propolis.Fetcher.Nodes

/-!
# A row is in one hand at a time

What a step of the nodes can do is said once (`Moves`).  From it: a row that is being
fetched, or that an open transaction has locked, is in no other hand, it is the row it
was when it was taken, and a row that is done is in none.
-/

namespace Propolis.Fetcher

open Bytes

variable {env : FetchEnv} {limits : FetchLimits} {world : FetchWorld}

/-- Everything a step that keeps to the leases can do; an outcome may be lost or not. -/
inductive Moves (env : FetchEnv) (limits : FetchLimits) (loses : Bool) (world : FetchWorld) :
    FetchWorld → Prop
  | stays : Moves env limits loses world world
  | passes (duration : ℕ)
      (inTime : ∀ job ∈ world.jobs, job.isInFlight = true → world.clock + duration < job.expires) :
      Moves env limits loses world { world with clock := world.clock + duration }
  | appends (event : LedgerEvent) :
      Moves env limits loses world { world with events := world.events ++ [event] }
  | syncs (cursor : ℕ) (found : List NewPendingRow)
      (roots : ∀ row ∈ found, row.parentHash = none ∧ row.depth = 0) :
      Moves env limits loses world { world with
        cursor, rows := found.foldl (insertPendingIfAbsent world.clock) world.rows }
  | begins (cycle batch lease : ℕ) :
      Moves env limits loses world { world with
        claims := { cycle, now := world.clock, batch, lease, stage := .begun } :: world.claims }
  | locks (claim : OpenClaim) (member : claim ∈ world.claims) (stage : claim.stage = .begun)
      (free : ∀ other ∈ world.claims, other.holdsDay = true → other.day ≠ claim.day) :
      Moves env limits loses world (world.setStage claim (.locked (world.usedOn claim.day)))
  | selects (claim : OpenClaim) (member : claim ∈ world.claims) (usedToday : ℕ)
      (stage : claim.stage = .locked usedToday) :
      Moves env limits loses world (world.setStage claim (.selected usedToday
        (selectEligible claim.now world.rows
          (world.claims.flatMap fun other => other.held.map (·.urlHash)) claim.batch)))
  | decides (claim : OpenClaim) (member : claim ∈ world.claims) (usedToday : ℕ)
      (eligible : List Candidate) (stage : claim.stage = .selected usedToday eligible) :
      Moves env limits loses world (world.setStage claim (.decided eligible (takeWithin
        (fun host => limits.perHostHour - usedByHost claim.now world.rows host)
        (limits.dailyCap - usedToday) eligible)))
  | commits (claim : OpenClaim) (member : claim ∈ world.claims) (eligible : List Candidate)
      (decision : Claim) (stage : claim.stage = .decided eligible decision)
      (inTime : ∀ candidate ∈ decision.candidates, world.clock < claim.now + claim.lease) :
      Moves env limits loses world { world with
        claims := world.claims.erase claim
        rows := claimRows claim.now world.rows (decision.candidates.map (·.urlHash)) claim.lease
        usage := (claim.day, world.usedOn claim.day +
          (decision.candidates.map (·.urlHash)).length) :: world.usage
        charged := world.charged ++ (decision.candidates.map (·.urlHash)).map fun hash =>
          (claim.day, hash)
        jobs := world.jobs ++ decision.candidates.map claim.job }
  | aborts (claim : OpenClaim) :
      Moves env limits loses world { world with claims := world.claims.erase claim }
  | starts (job : Job) (member : job ∈ world.jobs) (stage : job.stage = .waiting) :
      Moves env limits loses world { world with
        jobs := { job with stage := .fetching } :: world.jobs.erase job
        fetches := world.fetches ++
          [⟨job.candidate.urlHash, job.candidate.host, world.clock⟩] }
  | finishes (job : Job) (member : job ∈ world.jobs) (stage : job.stage = .fetching)
      (outcome : RawOutcome) (clock : ℤ) (result : AttemptResult) (children : List NewPendingRow)
      (made : processOutcome env limits.maxDepth job.candidate clock outcome =
        (result, children)) :
      Moves env limits loses world { world with
        rows := upsertAttempt world.clock world.rows result
        jobs := { job with stage := .enqueueing children } :: world.jobs.erase job }
  | ends (job : Job) (member : job ∈ world.jobs)
      (recorded : loses = false → job.isInFlight = false) :
      Moves env limits loses world { world with jobs := world.jobs.erase job }
  | enqueues (job : Job) (member : job ∈ world.jobs) (child : NewPendingRow)
      (left : List NewPendingRow) (stage : job.stage = .enqueueing (child :: left))
      (rows : List FetchRow)
      (made : rows = insertPendingIfAbsent world.clock world.rows child ∨ rows = world.rows) :
      Moves env limits loses world { world with
        rows
        jobs := { job with stage := .enqueueing left } :: world.jobs.erase job }

variable {cycle : ℕ} {claim : OpenClaim} {job : Job} {candidate : Candidate}
  {claims : List OpenClaim} {jobs : List Job} {result : AttemptResult} {loses : Bool}

section Steps

theorem onClaim_moves {next : OpenClaim → FetchWorld} (cycle : ℕ)
    (moves : ∀ claim ∈ world.claims, world.findClaim cycle = some claim →
      Moves env limits loses world (next claim)) :
    Moves env limits loses world (world.onClaim cycle next) := by
  rw [FetchWorld.onClaim]
  cases found : world.findClaim cycle with
  | none => exact .stays
  | some claim => exact moves claim (List.mem_of_find?_eq_some found) found

theorem onJob_moves {next : Job → FetchWorld} (cycle : ℕ) (urlHash : Bytes)
    (moves : ∀ job ∈ world.jobs, world.findJob cycle urlHash = some job →
      Moves env limits loses world (next job)) :
    Moves env limits loses world (world.onJob cycle urlHash next) := by
  rw [FetchWorld.onJob]
  cases found : world.findJob cycle urlHash with
  | none => exact .stays
  | some job => exact moves job (List.mem_of_find?_eq_some found) found

theorem step_moves {action : FetchAction} (leased : world.leased action = true) :
    Moves env limits (world.losesOutcome action) world (world.step env limits action) := by
  cases action with
  | pass duration =>
      apply Moves.passes
      intro job member inFlight
      have inTime := List.all_eq_true.mp leased job member
      simpa [inFlight] using inTime
  | append event => exact .appends event
  | sync chunk =>
      rw [FetchWorld.step, FetchWorld.syncChunk]
      split
      · exact .stays
      · refine .syncs _ _ ?_
        intro row member
        obtain ⟨entry, -, made⟩ := List.mem_filterMap.mp member
        obtain ⟨url, -, parsed⟩ := Option.bind_eq_some_iff.mp made
        obtain ⟨⟨scheme, host, port⟩, -, rfl⟩ := Option.map_eq_some_iff.mp parsed
        exact ⟨rfl, rfl⟩
  | begin_ cycle batch lease =>
      rw [FetchWorld.step, FetchWorld.beginClaim]
      split
      · exact .stays
      · exact .begins cycle batch lease
  | lockDay cycle =>
      apply onClaim_moves
      intro claim member _
      split
      case isFalse => exact .stays
      case isTrue free =>
        refine .locks claim member free.1 ?_
        intro other otherMember holds same
        have apart := List.all_eq_true.mp free.2 other otherMember
        simp [holds, same] at apart
  | select cycle =>
      apply onClaim_moves
      intro claim member _
      split
      case h_1 usedToday stage => exact .selects claim member usedToday stage
      case h_2 => exact .stays
  | decide_ cycle =>
      apply onClaim_moves
      intro claim member _
      split
      case h_1 usedToday eligible stage => exact .decides claim member usedToday eligible stage
      case h_2 => exact .stays
  | commit cycle =>
      apply onClaim_moves
      intro claim member found
      split
      case h_2 => exact .stays
      case h_1 eligible decision stage =>
        refine .commits claim member eligible decision stage ?_
        intro candidate chosen
        rw [FetchWorld.leased, found, Option.all_some, OpenClaim.chosen, stage] at leased
        simpa [List.ne_nil_of_mem chosen] using leased
  | abort cycle => exact onClaim_moves cycle fun claim _ _ => .aborts claim
  | start cycle urlHash =>
      apply onJob_moves
      intro job member _
      split
      case isFalse => exact .stays
      case isTrue ready => exact .starts job member ready.1
  | finish cycle urlHash outcome clock =>
      apply onJob_moves
      intro job member _
      split
      case isFalse => exact .stays
      case isTrue stage => exact .finishes job member stage outcome clock _ _ rfl
  | enqueue cycle urlHash succeeds =>
      apply onJob_moves
      intro job member _
      split
      case h_1 stage => exact .ends job member fun _ => by rw [Job.isInFlight, stage]
      case h_2 child left stage =>
        refine .enqueues job member child left stage _ ?_
        split
        · exact .inl rfl
        · exact .inr rfl
      case h_3 => exact .stays
  | drop cycle urlHash =>
      apply onJob_moves
      intro job member found
      refine .ends job member ?_
      rw [FetchWorld.losesOutcome, found]
      exact id

end Steps

section Hands

namespace FetchWorld

/-- The rows whose outcome is still to be recorded. -/
def inFlightHashes (jobs : List Job) : List Bytes :=
  (jobs.filter (·.isInFlight)).map (·.candidate.urlHash)

/-- The rows open transactions have locked. -/
def heldHashes (claims : List OpenClaim) : List Bytes :=
  claims.flatMap fun claim => claim.held.map (·.urlHash)

end FetchWorld

open FetchWorld

/-- A row is in one hand at a time, and it is the row it was when it was taken. -/
structure Exclusive (world : FetchWorld) : Prop where
  unique : UniqueRows world.rows
  apart : (inFlightHashes world.jobs ++ heldHashes world.claims).Nodup
  claimed : ∀ job ∈ world.jobs, job.isInFlight = true → world.clock < job.expires ∧
    ∃ row ∈ world.rows, row.candidate = job.candidate ∧ row.status.isTerminal = false ∧
      row.claimExpires = some job.expires
  held : ∀ claim ∈ world.claims, ∀ candidate ∈ claim.held,
    ∃ row ∈ world.rows, row.candidate = candidate ∧ row.isEligible claim.now = true
  chosen : ∀ claim ∈ world.claims, claim.chosen.Sublist claim.held
  past : ∀ claim ∈ world.claims, claim.now ≤ world.clock

theorem candidate_hash {row : FetchRow} (same : row.candidate = candidate) :
    row.urlHash = candidate.urlHash := by
  rw [← same]
  rfl

theorem heldHashes_mem (member : claim ∈ claims) (held : candidate ∈ claim.held) :
    candidate.urlHash ∈ heldHashes claims :=
  List.mem_flatMap.mpr ⟨claim, member, List.mem_map_of_mem held⟩

theorem inFlightHashes_mem (member : job ∈ jobs) (inFlight : job.isInFlight = true) :
    job.candidate.urlHash ∈ inFlightHashes jobs :=
  List.mem_map.mpr ⟨job, List.mem_filter.mpr ⟨member, inFlight⟩, rfl⟩

theorem heldHashes_perm (member : claim ∈ claims) :
    (heldHashes claims).Perm (claim.held.map (·.urlHash) ++ heldHashes (claims.erase claim)) :=
  (List.perm_cons_erase member).flatMap_right _

theorem inFlightHashes_perm (member : job ∈ jobs) :
    (inFlightHashes jobs).Perm (inFlightHashes (job :: jobs.erase job)) :=
  ((List.perm_cons_erase member).filter _).map _

theorem inFlightHashes_cons (job : Job) (jobs : List Job) :
    inFlightHashes (job :: jobs) =
      (if job.isInFlight then [job.candidate.urlHash] else []) ++ inFlightHashes jobs := by
  rw [inFlightHashes, List.filter_cons]
  split
  · rfl
  · rfl

theorem inFlightHashes_append (first second : List Job) :
    inFlightHashes (first ++ second) = inFlightHashes first ++ inFlightHashes second := by
  rw [inFlightHashes, List.filter_append, List.map_append]
  rfl

theorem inFlightHashes_jobs (claim : OpenClaim) (candidates : List Candidate) :
    inFlightHashes (candidates.map claim.job) = candidates.map (·.urlHash) := by
  induction candidates with
  | nil => rfl
  | cons candidate rest ih =>
      rw [List.map_cons, inFlightHashes_cons, ih]
      rfl

variable (exclusive : Exclusive world)
include exclusive

/-- A transaction moves on with the rows it has locked, or locks rows no one has. -/
theorem Exclusive.setStage
    (member : claim ∈ world.claims) {stage : ClaimStage} {held : List Candidate}
    (heldNow : { claim with stage }.held = held)
    (apart : (inFlightHashes world.jobs ++
      (held.map (·.urlHash) ++ heldHashes (world.claims.erase claim))).Nodup)
    (rows : ∀ candidate ∈ held, ∃ row ∈ world.rows, row.candidate = candidate ∧
      row.isEligible claim.now = true)
    (chosen : { claim with stage }.chosen.Sublist held) :
    Exclusive (world.setStage claim stage) := by
  subst heldNow
  have others : ∀ other ∈ world.claims.erase claim, other ∈ world.claims :=
    fun other => List.mem_of_mem_erase
  refine { exclusive with apart, held := ?_, chosen := ?_, past := ?_ }
  · exact List.forall_mem_cons.mpr
      ⟨rows, fun other rest => exclusive.held other (others other rest)⟩
  · exact List.forall_mem_cons.mpr
      ⟨chosen, fun other rest => exclusive.chosen other (others other rest)⟩
  · exact List.forall_mem_cons.mpr
      ⟨exclusive.past claim member, fun other rest => exclusive.past other (others other rest)⟩

/-- The rows the transaction holds are apart from all others. -/
theorem Exclusive.apart_erase (member : claim ∈ world.claims) {held : List Candidate}
    (isHeld : claim.held = held) :
    (inFlightHashes world.jobs ++
      (held.map (·.urlHash) ++ heldHashes (world.claims.erase claim))).Nodup :=
  isHeld ▸ ((heldHashes_perm member).append_left _).nodup_iff.mp exclusive.apart

theorem Exclusive.apart_job (member : job ∈ world.jobs) :
    (inFlightHashes (job :: world.jobs.erase job) ++ heldHashes world.claims).Nodup :=
  ((inFlightHashes_perm member).append_right _).nodup_iff.mp exclusive.apart

/-- Rows that no one has in hand may change, and rows may be added. -/
theorem Exclusive.setRows {rows : List FetchRow} (unique : UniqueRows rows)
    (kept : ∀ row ∈ world.rows,
      row.urlHash ∈ inFlightHashes world.jobs ++ heldHashes world.claims → row ∈ rows) :
    Exclusive { world with rows } := by
  refine { exclusive with unique, claimed := ?_, held := ?_ }
  · intro job member inFlight
    obtain ⟨inTime, row, rowMember, same, facts⟩ := exclusive.claimed job member inFlight
    refine ⟨inTime, row, kept row rowMember (List.mem_append_left _ ?_), same, facts⟩
    rw [candidate_hash same]
    exact inFlightHashes_mem member inFlight
  · intro claim member candidate isHeld
    obtain ⟨row, rowMember, same, eligible⟩ := exclusive.held claim member candidate isHeld
    refine ⟨row, kept row rowMember (List.mem_append_right _ ?_), same, eligible⟩
    rw [candidate_hash same]
    exact heldHashes_mem member isHeld

/-- A job moves on without taking a row it did not have. -/
theorem Exclusive.setJob (later : Job)
    (member : job ∈ world.jobs) (same : later.candidate = job.candidate)
    (lease : later.expires = job.expires)
    (still : later.isInFlight = true → job.isInFlight = true) :
    Exclusive { world with jobs := later :: world.jobs.erase job } := by
  have fewer : (inFlightHashes (later :: world.jobs.erase job)).Sublist
      (inFlightHashes (job :: world.jobs.erase job)) := by
    rw [inFlightHashes_cons, inFlightHashes_cons, same]
    apply List.Sublist.append_right
    cases inFlight : later.isInFlight with
    | false => exact List.nil_sublist _
    | true => rw [still inFlight]
  have apart := List.Nodup.sublist (fewer.append_right _) (exclusive.apart_job member)
  refine { exclusive with apart, claimed := ?_ }
  intro other otherMember inFlight
  rcases List.mem_cons.mp otherMember with rfl | rest
  · rw [same, lease]
    exact exclusive.claimed job member (still inFlight)
  · exact exclusive.claimed other (List.mem_of_mem_erase rest) inFlight

theorem Exclusive.eraseJob (job : Job) : Exclusive { world with jobs := world.jobs.erase job } := by
  have fewer : (inFlightHashes (world.jobs.erase job)).Sublist (inFlightHashes world.jobs) :=
    (List.erase_sublist.filter _).map _
  have apart := List.Nodup.sublist (fewer.append_right _) exclusive.apart
  refine { exclusive with apart, claimed := ?_ }
  intro other otherMember inFlight
  exact exclusive.claimed other (List.mem_of_mem_erase otherMember) inFlight

/-- What a transaction selects, no one has in hand. -/
theorem Exclusive.selected
    (member : claim ∈ world.claims) {usedToday : ℕ} (stage : claim.stage = .locked usedToday) :
    Exclusive (world.setStage claim (.selected usedToday
      (selectEligible claim.now world.rows (heldHashes world.claims) claim.batch))) := by
  have apart := exclusive.apart_erase member (by rw [OpenClaim.held, stage])
  rw [List.map_nil, List.nil_append] at apart
  refine exclusive.setStage member rfl ?_ ?_ (List.nil_sublist _)
  · obtain ⟨flying, others, disjoint⟩ := List.nodup_append.mp apart
    apply List.nodup_append.mpr
    refine ⟨flying, List.nodup_append.mpr ⟨selectEligible_nodup exclusive.unique _ _, others, ?_⟩,
      ?_⟩
    · intro hash chosen other held same
      obtain ⟨candidate, selected, rfl⟩ := List.mem_map.mp chosen
      obtain ⟨row, -, rowCandidate, -, free⟩ := selectEligible_mem selected
      apply free
      rw [candidate_hash rowCandidate, same]
      exact (heldHashes_perm member).mem_iff.mpr (List.mem_append_right _ held)
    · intro hash inFlight other there same
      subst same
      rcases List.mem_append.mp there with chosen | held
      · obtain ⟨candidate, selected, sameHash⟩ := List.mem_map.mp chosen
        obtain ⟨row, rowMember, rowCandidate, eligible, -⟩ := selectEligible_mem selected
        obtain ⟨job, jobIn, jobHash⟩ := List.mem_map.mp inFlight
        obtain ⟨jobMember, flies⟩ := List.mem_filter.mp jobIn
        obtain ⟨inTime, claimedRow, claimedMember, claimedCandidate, -, lease⟩ :=
          exclusive.claimed job jobMember flies
        have sameRow : claimedRow = row := by
          apply exclusive.unique.eq_of_hash claimedMember rowMember
          rw [candidate_hash claimedCandidate, candidate_hash rowCandidate, jobHash, sameHash]
        rw [sameRow] at lease
        have ended := FetchRow.isEligible_unclaimed eligible lease
        have past := exclusive.past claim member
        omega
      · exact disjoint hash inFlight hash held rfl
  · intro candidate selected
    obtain ⟨row, rowMember, same, eligible, -⟩ := selectEligible_mem selected
    exact ⟨row, rowMember, same, eligible⟩

/-- The commit hands the chosen rows from the transaction to the jobs. -/
theorem Exclusive.committed
    (member : claim ∈ world.claims) {eligible : List Candidate} {decision : Claim}
    (stage : claim.stage = .decided eligible decision)
    (inTime : ∀ candidate ∈ decision.candidates, world.clock < claim.now + claim.lease) :
    Exclusive { world with
      claims := world.claims.erase claim
      rows := claimRows claim.now world.rows (decision.candidates.map (·.urlHash)) claim.lease
      jobs := world.jobs ++ decision.candidates.map claim.job } := by
  have isHeld : claim.held = eligible := by
    rw [OpenClaim.held, stage]
  have chosen : decision.candidates.Sublist eligible := by
    have sub := exclusive.chosen claim member
    rwa [OpenClaim.chosen, stage, isHeld] at sub
  have apart := exclusive.apart_erase member isHeld
  obtain ⟨flying, others, disjoint⟩ := List.nodup_append.mp apart
  obtain ⟨-, -, apartHeld⟩ := List.nodup_append.mp others
  refine ⟨claimRows_unique exclusive.unique _ _, ?_, ?_, ?_, ?_, ?_⟩
  · rw [inFlightHashes_append, inFlightHashes_jobs, List.append_assoc]
    exact List.Nodup.sublist
      (((chosen.map _).append_right _).append_left _) apart
  · intro job jobMember inFlight
    rcases List.mem_append.mp jobMember with before | new
    · obtain ⟨lease, row, rowMember, same, facts⟩ := exclusive.claimed job before inFlight
      refine ⟨lease, row, claimRows_mem rowMember ?_, same, facts⟩
      intro hash
      rw [candidate_hash same] at hash
      exact disjoint _ (inFlightHashes_mem before inFlight) _
        (List.mem_append_left _ ((chosen.map _).subset hash)) rfl
    · obtain ⟨candidate, picked, rfl⟩ := List.mem_map.mp new
      obtain ⟨row, rowMember, same, eligibleRow⟩ := exclusive.held claim member candidate
        (by rw [isHeld]; exact chosen.subset picked)
      have open_ := FetchRow.isEligible_open eligibleRow
      refine ⟨inTime candidate picked, _, claimRows_claimed rowMember ?_, same, open_, rfl⟩
      rw [candidate_hash same]
      exact List.mem_map_of_mem picked
  · intro other otherMember candidate otherHeld
    obtain ⟨row, rowMember, same, eligibleRow⟩ :=
      exclusive.held other (List.mem_of_mem_erase otherMember) candidate otherHeld
    refine ⟨row, claimRows_mem rowMember ?_, same, eligibleRow⟩
    intro hash
    rw [candidate_hash same] at hash
    exact apartHeld _ ((chosen.map _).subset hash) _ (heldHashes_mem otherMember otherHeld) rfl
  · exact fun other otherMember => exclusive.chosen other (List.mem_of_mem_erase otherMember)
  · exact fun other otherMember => exclusive.past other (List.mem_of_mem_erase otherMember)

/-- An outcome is recorded in the row of its job. -/
theorem Exclusive.records (member : job ∈ world.jobs) (stage : job.stage = .fetching)
    (recorded : result.candidate = job.candidate) :
    ∃ row ∈ world.rows, row.candidate = job.candidate ∧ row.status.isTerminal = false ∧
      row.urlHash = result.candidate.urlHash ∧
      result.apply world.clock row ∈ upsertAttempt world.clock world.rows result ∧
      ∀ other ∈ upsertAttempt world.clock world.rows result,
        other = result.apply world.clock row ∨
          other ∈ world.rows ∧ other.urlHash ≠ row.urlHash := by
  obtain ⟨-, row, rowMember, same, open_, -⟩ := exclusive.claimed job member (by
    rw [Job.isInFlight, stage])
  have resultHash : row.urlHash = result.candidate.urlHash := by
    rw [recorded, candidate_hash same]
  exact ⟨row, rowMember, same, open_, resultHash,
    upsertAttempt_eq exclusive.unique rowMember open_ resultHash⟩

/-- The row a job records is in no other hand. -/
theorem Exclusive.finished (member : job ∈ world.jobs) (stage : job.stage = .fetching)
    (same : result.candidate = job.candidate) (children : List NewPendingRow) :
    Exclusive { world with
      rows := upsertAttempt world.clock world.rows result
      jobs := { job with stage := .enqueueing children } :: world.jobs.erase job } := by
  have inFlight : job.isInFlight = true := by
    rw [Job.isInFlight, stage]
  have moved := exclusive.setJob { job with stage := .enqueueing children } member rfl
    rfl (by intro still; cases still)
  have all := exclusive.apart_job member
  rw [inFlightHashes_cons, if_pos inFlight, List.append_assoc, List.singleton_append] at all
  have alone := (List.nodup_cons.mp all).1
  refine moved.setRows (upsertAttempt_unique exclusive.unique result) ?_
  intro row rowMember there
  apply upsertAttempt_mem rowMember
  intro sameHash
  rw [sameHash, same] at there
  exact alone there

/-- No job fetches a row that is done. -/
theorem Exclusive.flies_elsewhere {row : FetchRow} (member : row ∈ world.rows)
    (done : row.status.isTerminal = true) (flying : job ∈ world.jobs)
    (inFlight : job.isInFlight = true) : row.urlHash ≠ job.candidate.urlHash := by
  intro same
  obtain ⟨-, own, ownMember, sameRow, open_, -⟩ := exclusive.claimed job flying inFlight
  rw [exclusive.unique.eq_of_hash ownMember member ((candidate_hash sameRow).trans same.symm),
    done] at open_
  cases open_

theorem Exclusive.eraseClaim (claim : OpenClaim) :
    Exclusive { world with claims := world.claims.erase claim } := by
  have fewer : (heldHashes (world.claims.erase claim)).Sublist (heldHashes world.claims) :=
    List.erase_sublist.flatMap _
  have apart := List.Nodup.sublist (fewer.append_left _) exclusive.apart
  exact { exclusive with
    apart
    held := fun other member => exclusive.held other (List.mem_of_mem_erase member)
    chosen := fun other member => exclusive.chosen other (List.mem_of_mem_erase member)
    past := fun other member => exclusive.past other (List.mem_of_mem_erase member) }

theorem Exclusive.step {after : FetchWorld}
    (moves : Moves env limits loses world after) : Exclusive after := by
  cases moves with
  | stays => exact exclusive
  | passes duration inTime =>
      refine { exclusive with claimed := ?_, past := ?_ }
      · intro job member inFlight
        exact ⟨inTime job member inFlight, (exclusive.claimed job member inFlight).2⟩
      · intro claim member
        have past := exclusive.past claim member
        exact past.trans (by simp)
  | appends event =>
      exact { exclusive with }
  | syncs cursor found roots =>
      have grown := exclusive.setRows (insertAll_unique exclusive.unique found)
        (fun row member _ => @insertAll_mem world.clock _ row member found)
      exact { grown with }
  | begins =>
      refine { exclusive with held := ?_, chosen := ?_, past := ?_ }
      · exact List.forall_mem_cons.mpr ⟨by simp [OpenClaim.held], exclusive.held⟩
      · exact List.forall_mem_cons.mpr ⟨List.nil_sublist _, exclusive.chosen⟩
      · exact List.forall_mem_cons.mpr ⟨le_refl _, exclusive.past⟩
  | locks claim member stage free =>
      have apart := exclusive.apart_erase member (by rw [OpenClaim.held, stage])
      exact exclusive.setStage member rfl apart (by simp [OpenClaim.held]) (List.nil_sublist _)
  | selects claim member usedToday stage => exact exclusive.selected member stage
  | decides claim member usedToday eligible stage =>
      have isHeld : claim.held = eligible := by
        rw [OpenClaim.held, stage]
      refine exclusive.setStage member rfl (exclusive.apart_erase member isHeld) ?_
        (takeWithin_sublist _ _ _)
      intro candidate there
      exact exclusive.held claim member candidate (by rw [isHeld]; exact there)
  | commits claim member eligible decision stage inTime =>
      have handed := exclusive.committed member stage inTime
      exact { handed with }
  | aborts claim => exact exclusive.eraseClaim claim
  | starts job member stage =>
      have moved := exclusive.setJob { job with stage := .fetching } member rfl rfl
        (by intro _; rw [Job.isInFlight, stage])
      exact { moved with }
  | finishes job member stage outcome clock result children made =>
      exact exclusive.finished member stage (processOutcome_candidate made) children
  | ends job => exact exclusive.eraseJob job
  | enqueues job member child left stage rows made =>
      have moved := exclusive.setJob { job with stage := .enqueueing left } member rfl
        rfl (by intro still; cases still)
      rcases made with rfl | rfl
      · exact moved.setRows (insertPending_unique exclusive.unique child)
          (fun row rowMember _ => insertPending_mem rowMember child)
      · exact moved

end Hands

end Propolis.Fetcher
