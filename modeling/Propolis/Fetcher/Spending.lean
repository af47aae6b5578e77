import Propolis.Fetcher.Exclusive

/-!
# What is charged and what is fetched

The usage of a day is read and charged under the lock on its row, so the rows claimed
on a day stay within the daily cap.  A row is fetched once for each failure it records,
once for its success, and once more while it is in flight: three times at most, and
never again once it is done.
-/

namespace Propolis.Fetcher

open Bytes FetchWorld

variable {env : FetchEnv} {limits : FetchLimits} {world after : FetchWorld}

section Charging

variable {claim : OpenClaim}

/-- The usage a transaction has read and not yet decided on. -/
def OpenClaim.read (claim : OpenClaim) : Option ℕ :=
  match claim.stage with
  | .locked usedToday | .selected usedToday _ => some usedToday
  | _ => none

/-- One transaction at a time reads and charges the usage of a day. -/
structure Charging (limits : FetchLimits) (world : FetchWorld) : Prop where
  days : world.claims.Pairwise fun one other =>
    one.holdsDay = true → other.holdsDay = true → one.day ≠ other.day
  read : ∀ claim ∈ world.claims, ∀ usedToday, claim.read = some usedToday →
    usedToday = world.usedOn claim.day
  decided : ∀ claim ∈ world.claims,
    claim.chosen.length ≤ limits.dailyCap - world.usedOn claim.day
  within : ∀ day, world.usedOn day ≤ limits.dailyCap
  charged : ∀ day, world.charged.countP (fun entry => entry.1 = day) = world.usedOn day

theorem holdsDay_of_read {usedToday : ℕ} (read : claim.read = some usedToday) :
    claim.holdsDay = true := by
  rw [OpenClaim.holdsDay, decide_eq_true_eq]
  intro begun
  rw [OpenClaim.read, begun] at read
  cases read

theorem chosen_of_not_holdsDay (free : claim.holdsDay = false) : claim.chosen = [] := by
  rw [OpenClaim.holdsDay, decide_eq_false_iff_not, not_not] at free
  rw [OpenClaim.chosen, free]

variable (charging : Charging limits world)
include charging

/-- The other transactions hold other days. -/
theorem Charging.days_erase (member : claim ∈ world.claims) (holds : claim.holdsDay = true) :
    ∀ other ∈ world.claims.erase claim, other.holdsDay = true → claim.day ≠ other.day := by
  have symmetric : ∀ one other : OpenClaim,
      (one.holdsDay = true → other.holdsDay = true → one.day ≠ other.day) →
      other.holdsDay = true → one.holdsDay = true → other.day ≠ one.day :=
    fun one other apart second first => (apart first second).symm
  have apart := ((List.perm_cons_erase member).pairwise_iff (symmetric _ _)).mp charging.days
  exact fun other otherMember => (List.pairwise_cons.mp apart).1 other otherMember holds

/-- A transaction moves on without charging anything. -/
theorem Charging.setStage {stage : ClaimStage}
    (apart : ∀ other ∈ world.claims.erase claim, other.holdsDay = true → claim.day ≠ other.day)
    (read : ∀ usedToday, { claim with stage }.read = some usedToday →
      usedToday = world.usedOn claim.day)
    (decided : { claim with stage }.chosen.length ≤ limits.dailyCap - world.usedOn claim.day) :
    Charging limits (world.setStage claim stage) := by
  refine { charging with days := ?_, read := ?_, decided := ?_ }
  · apply List.pairwise_cons.mpr
    refine ⟨?_, charging.days.sublist List.erase_sublist⟩
    intro other otherMember _ holds
    exact apart other otherMember holds
  · exact List.forall_mem_cons.mpr
      ⟨read, fun other rest => charging.read other (List.mem_of_mem_erase rest)⟩
  · exact List.forall_mem_cons.mpr
      ⟨decided, fun other rest => charging.decided other (List.mem_of_mem_erase rest)⟩

/-- The commit charges its day with the rows it claims. -/
theorem Charging.committed
    (member : claim ∈ world.claims) {eligible : List Candidate} {decision : Claim}
    (stage : claim.stage = .decided eligible decision) (rows : List FetchRow) (jobs : List Job) :
    Charging limits { world with
      claims := world.claims.erase claim, rows, jobs
      usage := (claim.day, world.usedOn claim.day +
        (decision.candidates.map (·.urlHash)).length) :: world.usage
      charged := world.charged ++ (decision.candidates.map (·.urlHash)).map fun hash =>
        (claim.day, hash) } := by
  have holds : claim.holdsDay = true := by
    rw [OpenClaim.holdsDay, stage]
    rfl
  have apart := charging.days_erase member holds
  have fits := charging.decided claim member
  rw [OpenClaim.chosen, stage] at fits
  have charge : ∀ day, FetchWorld.usedOn { world with
      usage := (claim.day, world.usedOn claim.day +
        (decision.candidates.map (·.urlHash)).length) :: world.usage } day =
      if day = claim.day then world.usedOn day + decision.candidates.length
      else world.usedOn day := by
    intro day
    by_cases same : day = claim.day
    · simp [usedOn, same]
    · simp [usedOn, same, List.lookup_cons, beq_eq_false_iff_ne.mpr same]
  refine ⟨charging.days.sublist List.erase_sublist, ?_, ?_, ?_, ?_⟩
  · intro other otherMember usedToday read
    have different := apart other otherMember (holdsDay_of_read read)
    exact (charging.read other (List.mem_of_mem_erase otherMember) usedToday read).trans
      ((charge other.day).trans (if_neg different.symm)).symm
  · intro other otherMember
    have before := charging.decided other (List.mem_of_mem_erase otherMember)
    cases otherHolds : other.holdsDay with
    | false =>
        rw [chosen_of_not_holdsDay otherHolds]
        exact Nat.zero_le _
    | true =>
        have different := apart other otherMember otherHolds
        exact ((charge other.day).trans (if_neg different.symm)).symm ▸ before
  · intro day
    have before := charging.within day
    refine le_of_eq_of_le (charge day) ?_
    split
    case isTrue same =>
      rw [← same] at fits
      dsimp only at fits
      omega
    case isFalse => exact before
  · intro day
    refine Eq.trans ?_ (charge day).symm
    rw [List.countP_append, charging.charged day, List.map_map]
    split
    case isTrue same =>
      congr 1
      rw [List.countP_eq_length.mpr]
      · simp
      · simp [same]
    case isFalse different =>
      rw [List.countP_eq_zero.mpr]
      · rfl
      · simp [Ne.symm different]

theorem Charging.step {loses : Bool} (moves : Moves env limits loses world after) :
    Charging limits after := by
  cases moves with
  | stays | passes _ _ | appends _ | syncs _ _ _ | starts _ _ _ | finishes _ _ _ _ _ _ _ _
  | ends _ _ _ | enqueues _ _ _ _ _ _ _ =>
      exact { charging with }
  | aborts claim =>
      exact { charging with
        days := charging.days.sublist List.erase_sublist
        read := fun other member => charging.read other (List.mem_of_mem_erase member)
        decided := fun other member => charging.decided other (List.mem_of_mem_erase member) }
  | begins =>
      refine { charging with
        days := List.pairwise_cons.mpr ⟨?_, charging.days⟩, read := ?_, decided := ?_ }
      · intro other _ holds
        cases holds
      · exact List.forall_mem_cons.mpr ⟨by simp [OpenClaim.read], charging.read⟩
      · exact List.forall_mem_cons.mpr ⟨Nat.zero_le _, charging.decided⟩
  | locks claim member stage free =>
      refine charging.setStage ?_ ?_ (Nat.zero_le _)
      · intro other otherMember holds
        exact (free other (List.mem_of_mem_erase otherMember) holds).symm
      · intro usedToday read
        exact (Option.some.inj read).symm
  | selects claim member usedToday stage =>
      have read : claim.read = some usedToday := by
        rw [OpenClaim.read, stage]
      refine charging.setStage (charging.days_erase member (holdsDay_of_read read)) ?_
        (Nat.zero_le _)
      intro other same
      exact charging.read claim member other (read.trans same)
  | decides claim member usedToday eligible stage =>
      have read : claim.read = some usedToday := by
        rw [OpenClaim.read, stage]
      refine charging.setStage (charging.days_erase member (holdsDay_of_read read)) ?_ ?_
      · intro other none
        cases none
      · rw [← charging.read claim member usedToday read]
        exact takeWithin_length _ _ _
  | commits claim member eligible decision stage inTime =>
      exact charging.committed member stage _ _

end Charging

variable {job : Job} {clock : ℤ} {outcome : RawOutcome} {result : AttemptResult} {row : FetchRow}

section Counting

variable {jobs : List Job} {children : List NewPendingRow}

/-- The jobs that are fetching a row. -/
def fetchingNow (jobs : List Job) (hash : Bytes) : ℕ :=
  jobs.countP fun job => job.stage = .fetching && job.candidate.urlHash = hash

/-- The fetches of a row whose outcome is recorded. -/
def FetchRow.recorded (row : FetchRow) : ℕ :=
  row.attempts + if row.status = .success then 1 else 0

def FetchWorld.fetchesOf (world : FetchWorld) (hash : Bytes) : ℕ :=
  world.fetches.countP fun fetch => fetch.urlHash = hash

/-- Failures are counted up to the last, and a row that waits for its first fetch has none. -/
structure FetchRow.Counts (row : FetchRow) : Prop where
  most : row.attempts ≤ maxAttempts
  more : row.status ≠ .dead → row.attempts < maxAttempts
  first : row.status = .pending → row.attempts = 0

structure Counting (world : FetchWorld) : Prop where
  counts : ∀ row ∈ world.rows, row.Counts
  fetched : ∀ row ∈ world.rows,
    world.fetchesOf row.urlHash = row.recorded + fetchingNow world.jobs row.urlHash
  known : ∀ fetch ∈ world.fetches, ∃ row ∈ world.rows,
    row.urlHash = fetch.urlHash ∧ row.host = fetch.host

theorem fetchingNow_perm (member : job ∈ jobs) (hash : Bytes) :
    fetchingNow jobs hash = fetchingNow (job :: jobs.erase job) hash :=
  (List.perm_cons_erase member).countP_eq _

theorem fetchingNow_cons (job : Job) (jobs : List Job) (hash : Bytes) :
    fetchingNow (job :: jobs) hash = fetchingNow jobs hash +
      if job.stage = .fetching ∧ job.candidate.urlHash = hash then 1 else 0 := by
  rw [fetchingNow, List.countP_cons]
  simp [fetchingNow]

/-- Jobs that neither start nor end a fetch. -/
theorem Counting.setJobs (counting : Counting world)
    (same : ∀ hash, fetchingNow jobs hash = fetchingNow world.jobs hash) :
    Counting { world with jobs } := by
  refine ⟨counting.counts, ?_, counting.known⟩
  intro row member
  exact (counting.fetched row member).trans (by rw [same])

/-- Claiming a row records nothing of it. -/
theorem Counting.committed (counting : Counting world) (now : ℤ) (hashes : List Bytes)
    (lease : ℕ)
    (same : ∀ hash, fetchingNow jobs hash = fetchingNow world.jobs hash) :
    Counting { world with rows := claimRows now world.rows hashes lease, jobs } := by
  refine ⟨?_, ?_, ?_⟩
  · intro row member
    obtain ⟨stored, storedMember, claimed, -⟩ := claimRows_cases member
    rw [claimed]
    obtain ⟨most, more, first⟩ := counting.counts stored storedMember
    exact ⟨most, more, first⟩
  · intro row member
    obtain ⟨stored, storedMember, claimed, -⟩ := claimRows_cases member
    rw [claimed]
    exact (counting.fetched stored storedMember).trans (by rw [same]; rfl)
  · intro fetch member
    obtain ⟨row, rowMember, facts⟩ := counting.known fetch member
    by_cases claimed : row.urlHash ∈ hashes
    · exact ⟨_, claimRows_claimed rowMember claimed, facts⟩
    · exact ⟨row, claimRows_mem rowMember claimed, facts⟩

theorem alive_of_open {status : FetchStatus} (open_ : status.isTerminal = false) :
    status ≠ .dead ∧ status ≠ .success := by
  cases status <;> simp [FetchStatus.isTerminal] at open_ ⊢

/-- The outcome of a fetch is recorded as one more failure or as the success. -/
theorem processOutcome_counts {candidate : Candidate} {maxDepth : ℕ}
    (made : processOutcome env maxDepth candidate clock outcome = (result, children))
    (same : row.candidate = candidate) (counts : row.Counts) (open_ : row.status.isTerminal = false)
    (now : ℤ) :
    (result.apply now row).Counts ∧ (result.apply now row).recorded = row.recorded + 1 := by
  have alive := alive_of_open open_
  have room := counts.more alive.1
  have attempts : row.attempts = candidate.attempts := by
    rw [← same]
    rfl
  have before : row.recorded = row.attempts := by
    rw [FetchRow.recorded, if_neg alive.2, Nat.add_zero]
  rw [before]
  rcases processOutcome_cases made with ⟨failure, rfl, -⟩ | ⟨body, rfl, -⟩
  · obtain ⟨-, more, status⟩ := recordFailure_cases candidate failure clock
    have notSuccess : (recordFailure candidate failure clock).status ≠ .success ∧
        (recordFailure candidate failure clock).status ≠ .pending := by
      rcases status with dead | ⟨failed, -⟩
      · rw [dead]
        exact ⟨by decide, by decide⟩
      · rw [failed]
        exact failure.status_ne
    refine ⟨⟨?_, ?_, fun pending => absurd pending notSuccess.2⟩, ?_⟩
    · rw [AttemptResult.apply]
      dsimp only
      omega
    · intro notDead
      rcases status with dead | ⟨-, few⟩
      · exact absurd dead notDead
      · rw [AttemptResult.apply]
        dsimp only
        omega
    · rw [FetchRow.recorded, AttemptResult.apply]
      rw [if_neg notSuccess.1, more, attempts]
  · refine ⟨⟨?_, ?_, fun pending => by cases pending⟩, ?_⟩
    · change candidate.attempts ≤ maxAttempts
      exact attempts ▸ counts.most
    · intro _
      change candidate.attempts < maxAttempts
      exact attempts ▸ room
    · rw [attempts]
      rfl

/-- One job at most is fetching a row, and then the row is not done. -/
theorem fetchingNow_le_one (exclusive : Exclusive world) (hash : Bytes) :
    fetchingNow world.jobs hash ≤ 1 := by
  have flying : (inFlightHashes world.jobs).Nodup := (List.nodup_append.mp exclusive.apart).1
  have counted : fetchingNow world.jobs hash ≤ (inFlightHashes world.jobs).count hash := by
    rw [fetchingNow, inFlightHashes, List.count, List.countP_map, List.countP_filter]
    apply List.countP_mono_left
    intro job _ matched
    simp only [Bool.and_eq_true, decide_eq_true_eq] at matched
    simp [Job.isInFlight, matched.1, matched.2]
  exact counted.trans (List.nodup_iff_count_le_one.mp flying hash)

theorem fetchingNow_of_terminal (exclusive : Exclusive world) (member : row ∈ world.rows)
    (done : row.status.isTerminal = true) : fetchingNow world.jobs row.urlHash = 0 := by
  apply List.countP_eq_zero.mpr
  intro job flying matched
  simp only [Bool.and_eq_true, decide_eq_true_eq] at matched
  have inFlight : job.isInFlight = true := by
    rw [Job.isInFlight, matched.1]
  exact exclusive.flies_elsewhere member done flying inFlight matched.2.symm

variable (counting : Counting world) (exclusive : Exclusive world)
include counting exclusive

/-- Nothing was fetched under a hash no row has. -/
theorem Counting.absent {hash : Bytes} (absent : ∀ row ∈ world.rows, row.urlHash ≠ hash) :
    world.fetchesOf hash = 0 ∧ fetchingNow world.jobs hash = 0 := by
  constructor
  · apply List.countP_eq_zero.mpr
    intro fetch member same
    obtain ⟨row, rowMember, sameHash, -⟩ := counting.known fetch member
    exact absent row rowMember (sameHash.trans (by simpa using same))
  · apply List.countP_eq_zero.mpr
    intro job member matched
    simp only [Bool.and_eq_true, decide_eq_true_eq] at matched
    have inFlight : job.isInFlight = true := by
      rw [Job.isInFlight, matched.1]
    obtain ⟨-, row, rowMember, same, -⟩ := exclusive.claimed job member inFlight
    exact absent row rowMember ((candidate_hash same).trans matched.2)

/-- New rows wait for their first fetch. -/
theorem Counting.inserted (new : NewPendingRow) :
    Counting { world with rows := insertPendingIfAbsent world.clock world.rows new } := by
  rcases insertPending_eq world.clock world.rows new with same | ⟨absent, -⟩
  · rw [same]
    exact counting
  obtain ⟨unfetched, idle⟩ := counting.absent exclusive absent
  refine ⟨?_, ?_, ?_⟩
  · intro row member
    rcases insertPending_cases member with old | rfl
    · exact counting.counts row old
    · exact ⟨Nat.zero_le _, fun _ => Nat.zero_lt_succ _, fun _ => rfl⟩
  · intro row member
    rcases insertPending_cases member with old | rfl
    · exact counting.fetched row old
    · rw [FetchRow.recorded]
      exact unfetched.trans (by simpa [NewPendingRow.stored] using idle.symm)
  · intro fetch member
    obtain ⟨row, rowMember, facts⟩ := counting.known fetch member
    exact ⟨row, insertPending_mem rowMember new, facts⟩

theorem Counting.insertedAll (news : List NewPendingRow) :
    Counting { world with
      rows := news.foldl (insertPendingIfAbsent world.clock) world.rows } := by
  induction news generalizing world with
  | nil => exact counting
  | cons new rest ih =>
      refine ih (counting.inserted exclusive new) ?_
      exact exclusive.setRows (insertPending_unique exclusive.unique new)
        (fun row member _ => insertPending_mem member new)

theorem Counting.finished (member : job ∈ world.jobs) (stage : job.stage = .fetching)
    (made : processOutcome env limits.maxDepth job.candidate clock outcome = (result, children)) :
    Counting { world with
      rows := upsertAttempt world.clock world.rows result
      jobs := { job with stage := .enqueueing children } :: world.jobs.erase job } := by
  obtain ⟨row, rowMember, same, open_, resultHash, applied, others⟩ :=
    exclusive.records member stage (processOutcome_candidate made)
  obtain ⟨counts, recorded⟩ := processOutcome_counts made same (counting.counts row rowMember)
    open_ world.clock
  have jobs : ∀ hash, fetchingNow world.jobs hash =
      fetchingNow ({ job with stage := .enqueueing children } :: world.jobs.erase job) hash +
        if row.urlHash = hash then 1 else 0 := by
    intro hash
    rw [fetchingNow_perm member, fetchingNow_cons, fetchingNow_cons, candidate_hash same]
    simp [stage]
  refine ⟨?_, ?_, ?_⟩
  · intro other otherMember
    rcases others other otherMember with rfl | ⟨old, -⟩
    · exact counts
    · exact counting.counts other old
  · intro other otherMember
    rcases others other otherMember with rfl | ⟨old, different⟩
    · have before := counting.fetched row rowMember
      rw [jobs row.urlHash, if_pos rfl] at before
      rw [recorded]
      exact before.trans (by rw [Nat.add_right_comm]; rfl)
    · have before := counting.fetched other old
      rw [jobs other.urlHash, if_neg (Ne.symm different)] at before
      exact before
  · intro fetch fetchMember
    obtain ⟨stored, storedMember, facts⟩ := counting.known fetch fetchMember
    by_cases sameRow : stored.urlHash = row.urlHash
    · rw [exclusive.unique.eq_of_hash storedMember rowMember sameRow] at facts
      exact ⟨_, applied, facts⟩
    · exact ⟨stored, upsertAttempt_mem storedMember (fun taken =>
        sameRow (taken.trans resultHash.symm)), facts⟩

theorem Counting.started (member : job ∈ world.jobs) (stage : job.stage = .waiting) :
    Counting { world with
      jobs := { job with stage := .fetching } :: world.jobs.erase job
      fetches := world.fetches ++ [⟨job.candidate.urlHash, job.candidate.host, world.clock⟩] } := by
  have inFlight : job.isInFlight = true := by
    rw [Job.isInFlight, stage]
  obtain ⟨-, own, ownMember, same, -⟩ := exclusive.claimed job member inFlight
  refine ⟨counting.counts, ?_, ?_⟩
  · intro row rowMember
    have before := counting.fetched row rowMember
    rw [fetchingNow_perm member, fetchingNow_cons, fetchesOf] at before
    rw [fetchesOf, List.countP_append, fetchingNow_cons]
    simp only [stage, List.countP_singleton, decide_eq_true_eq] at before ⊢
    simp only [reduceCtorEq, false_and, if_false, true_and] at before ⊢
    omega
  · intro fetch fetchMember
    rcases List.mem_append.mp fetchMember with before | new
    · exact counting.known fetch before
    · obtain rfl := List.mem_singleton.mp new
      refine ⟨own, ownMember, candidate_hash same, ?_⟩
      rw [← same]
      rfl

theorem Counting.step (moves : Moves env limits false world after) : Counting after := by
  cases moves with
  | stays | passes _ _ | appends _ | begins _ _ _ | locks _ _ _ _ | selects _ _ _ _
  | decides _ _ _ _ _ | aborts _ => exact { counting with }
  | syncs cursor found roots =>
      have grown := counting.insertedAll exclusive found
      exact { grown with }
  | commits claim member eligible decision =>
      have same : ∀ hash, fetchingNow (world.jobs ++ decision.candidates.map claim.job) hash =
          fetchingNow world.jobs hash := by
        intro hash
        simp [fetchingNow, OpenClaim.job]
      have claimed := counting.committed claim.now (decision.candidates.map (·.urlHash))
        claim.lease same
      exact { claimed with }
  | starts job member stage => exact counting.started exclusive member stage
  | finishes job member stage outcome clock result children made =>
      exact counting.finished exclusive member stage made
  | ends job member recorded =>
      apply counting.setJobs
      intro hash
      have idle : job.stage ≠ .fetching := by
        intro stage
        simp [Job.isInFlight, stage] at recorded
      rw [fetchingNow_perm member, fetchingNow_cons]
      simp [idle]
  | enqueues job member child left stage rows made =>
      have moved : Counting { world with
          jobs := { job with stage := .enqueueing left } :: world.jobs.erase job } := by
        apply counting.setJobs
        intro hash
        rw [fetchingNow_perm member, fetchingNow_cons, fetchingNow_cons]
        simp [stage]
      rcases made with rfl | rfl
      · apply moved.inserted
        exact exclusive.setJob { job with stage := .enqueueing left } member rfl rfl
          (by intro still; cases still)
      · exact moved

/-- A URL is fetched three times at most. -/
theorem Counting.fetchesOf_le (hash : Bytes) : world.fetchesOf hash ≤ maxAttempts := by
  by_cases known : ∃ row ∈ world.rows, row.urlHash = hash
  · obtain ⟨row, member, rfl⟩ := known
    rw [counting.fetched row member]
    have counts := counting.counts row member
    have now := fetchingNow_le_one exclusive row.urlHash
    cases done : row.status.isTerminal with
    | true =>
        rw [fetchingNow_of_terminal exclusive member done, FetchRow.recorded]
        by_cases success : row.status = .success
        · have more := counts.more (by rw [success]; decide)
          rw [if_pos success]
          omega
        · rw [if_neg success]
          exact counts.most
    | false =>
        have alive := alive_of_open done
        have more := counts.more alive.1
        rw [FetchRow.recorded, if_neg alive.2]
        omega
  · push Not at known
    rw [(counting.absent exclusive known).1]
    exact Nat.zero_le _

end Counting

end Propolis.Fetcher
