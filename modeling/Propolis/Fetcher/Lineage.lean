import Propolis.Fetcher.Spending
import Propolis.Lib.Forest

/-!
# What one download leads to

A row that was found in a captured body names the row it was captured for and is one
level deeper.  A body is captured once, and adds so many rows at most, none below the
deepest level.  So the rows that go back to one URL are no more than a full tree has.
-/

namespace Propolis.Fetcher

open Bytes FetchWorld

variable {env : FetchEnv} {limits : FetchLimits} {world after : FetchWorld}

/-- The rows a job has still to enqueue. -/
def Job.left (job : Job) : List NewPendingRow :=
  match job.stage with
  | .enqueueing left => left
  | _ => []

/-- The parents of all rows, stored or still to be enqueued. -/
def FetchWorld.parentsNamed (world : FetchWorld) : List (Option Bytes) :=
  world.rows.map (·.parentHash) ++ (world.jobs.flatMap Job.left).map (·.parentHash)

/-- If a parent is named, it has a row one level above. -/
def HasParent (rows : List FetchRow) (parentHash : Option Bytes) (depth : ℕ) : Prop :=
  ∀ hash, parentHash = some hash → ∃ above ∈ rows, above.urlHash = hash ∧ depth = above.depth + 1

structure Lineage (limits : FetchLimits) (world : FetchWorld) : Prop where
  shallow : ∀ row ∈ world.rows, row.depth ≤ limits.maxDepth
  parents : ∀ row ∈ world.rows, HasParent world.rows row.parentHash row.depth
  left : ∀ job ∈ world.jobs, ∀ child ∈ job.left,
    child.depth ≤ limits.maxDepth ∧ HasParent world.rows child.parentHash child.depth
  few : ∀ hash, world.parentsNamed.count (some hash) ≤ maxUrls
  childless : ∀ row ∈ world.rows, row.status.isTerminal = false →
    world.parentsNamed.count (some row.urlHash) = 0

section Columns

variable {rows later : List FetchRow}

/-- The columns that say where a row stands. -/
def FetchRow.place (row : FetchRow) : Bytes × Option Bytes × ℕ :=
  (row.urlHash, row.parentHash, row.depth)

theorem place_map {update : FetchRow → FetchRow}
    (keeps : ∀ row, (update row).place = row.place) :
    (rows.map update).map FetchRow.place = rows.map FetchRow.place := by
  rw [List.map_map]
  exact List.map_congr_left fun row _ => keeps row

theorem claimRows_place (now : ℤ) (rows : List FetchRow) (hashes : List Bytes) (lease : ℕ) :
    (claimRows now rows hashes lease).map FetchRow.place = rows.map FetchRow.place := by
  apply place_map
  intro row
  split <;> rfl

theorem upsertAttempt_place (now : ℤ) {row : FetchRow} (member : row ∈ rows)
    {result : AttemptResult} (same : row.urlHash = result.candidate.urlHash) :
    (upsertAttempt now rows result).map FetchRow.place = rows.map FetchRow.place := by
  have there : (rows.any fun stored => stored.urlHash = result.candidate.urlHash) = true :=
    List.any_eq_true.mpr ⟨row, member, by simpa using same⟩
  rw [upsertAttempt, if_pos there]
  apply place_map
  intro stored
  split <;> rfl

theorem parentHash_of_place (same : later.map FetchRow.place = rows.map FetchRow.place) :
    later.map (·.parentHash) = rows.map (·.parentHash) := by
  have columns := congrArg (List.map fun place => place.2.1) same
  rw [List.map_map, List.map_map] at columns
  exact columns

/-- The rows stand where they stood. -/
theorem mem_of_place (same : later.map FetchRow.place = rows.map FetchRow.place) {row : FetchRow}
    (member : row ∈ later) : ∃ stored ∈ rows, stored.urlHash = row.urlHash ∧
      stored.parentHash = row.parentHash ∧ stored.depth = row.depth := by
  have placed : row.place ∈ rows.map FetchRow.place := same ▸ List.mem_map_of_mem member
  simpa only [FetchRow.place, Prod.mk.injEq] using List.mem_map.mp placed

theorem HasParent.of_place {parentHash : Option Bytes} {depth : ℕ}
    (has : HasParent rows parentHash depth)
    (same : later.map FetchRow.place = rows.map FetchRow.place) :
    HasParent later parentHash depth := by
  intro hash named
  obtain ⟨above, member, sameHash, deeper⟩ := has hash named
  obtain ⟨kept, keptMember, key, -, depth⟩ := mem_of_place same.symm member
  exact ⟨kept, keptMember, key.trans sameHash, depth ▸ deeper⟩

theorem HasParent.mono {parentHash : Option Bytes} {depth : ℕ}
    (has : HasParent rows parentHash depth) (more : ∀ row ∈ rows, row ∈ later) :
    HasParent later parentHash depth := by
  intro hash named
  obtain ⟨above, member, facts⟩ := has hash named
  exact ⟨above, more above member, facts⟩

end Columns

section Keeping

variable {job : Job}

theorem parentsNamed_split (member : job ∈ world.jobs) (hash : Option Bytes) :
    world.parentsNamed.count hash =
      ({ world with jobs := job :: world.jobs.erase job }).parentsNamed.count hash := by
  simp only [parentsNamed, List.count_append]
  rw [(((List.perm_cons_erase member).flatMap_right _).map _).count_eq]

/-- Replacing a job replaces the rows it has still to enqueue. -/
theorem parentsNamed_setJob (member : job ∈ world.jobs) (later : Job)
    (hash : Option Bytes) :
    ({ world with jobs := later :: world.jobs.erase job }).parentsNamed.count hash +
        (job.left.map (·.parentHash)).count hash =
      world.parentsNamed.count hash + (later.left.map (·.parentHash)).count hash := by
  rw [parentsNamed_split member]
  simp only [parentsNamed, List.count_append, List.flatMap_cons, List.map_append]
  omega

variable (lineage : Lineage limits world) {children : List NewPendingRow}
include lineage

/-- Jobs may have fewer rows left. -/
theorem Lineage.setJobs {jobs : List Job}
    (left : ∀ job ∈ jobs, ∀ child ∈ job.left, ∃ before ∈ world.jobs, child ∈ before.left)
    (fewer : ∀ hash, ({ world with jobs }).parentsNamed.count hash ≤
      world.parentsNamed.count hash) : Lineage limits { world with jobs } := by
  refine { lineage with left := ?_, few := ?_, childless := ?_ }
  · intro job member child childMember
    obtain ⟨before, beforeMember, there⟩ := left job member child childMember
    exact lineage.left before beforeMember child there
  · intro hash
    exact (fewer _).trans (lineage.few hash)
  · intro row member open_
    exact Nat.le_zero.mp ((fewer _).trans_eq (lineage.childless row member open_))

theorem Lineage.setReplaced
    (member : job ∈ world.jobs) (later : Job) (nothing : job.left = []) (still : later.left = []) :
    Lineage limits { world with jobs := later :: world.jobs.erase job } := by
  apply lineage.setJobs
  · intro other otherMember child childMember
    rcases List.mem_cons.mp otherMember with rfl | rest
    · rw [still] at childMember
      cases childMember
    · exact ⟨other, List.mem_of_mem_erase rest, childMember⟩
  · intro hash
    have moved := parentsNamed_setJob member later hash
    rw [nothing, still] at moved
    exact (Nat.add_right_cancel moved).le

theorem Lineage.setRows {rows : List FetchRow}
    (same : rows.map FetchRow.place = world.rows.map FetchRow.place)
    (childless : ∀ row ∈ rows, row.status.isTerminal = false →
      world.parentsNamed.count (some row.urlHash) = 0) : Lineage limits { world with rows } := by
  have named : ({ world with rows }).parentsNamed = world.parentsNamed := by
    rw [parentsNamed, parentHash_of_place same]
    rfl
  refine ⟨?_, ?_, ?_, ?_, ?_⟩
  · intro row member
    obtain ⟨stored, storedMember, -, -, depth⟩ := mem_of_place same member
    exact depth ▸ lineage.shallow stored storedMember
  · intro row member
    obtain ⟨stored, storedMember, -, parent, depth⟩ := mem_of_place same member
    rw [← parent, ← depth]
    exact (lineage.parents stored storedMember).of_place same
  · intro job member child childMember
    obtain ⟨shallow, has⟩ := lineage.left job member child childMember
    exact ⟨shallow, has.of_place same⟩
  · intro hash
    rw [named]
    exact lineage.few hash
  · intro row member open_
    rw [named]
    exact childless row member open_

/-- A hash no row has is no row's parent. -/
theorem Lineage.unnamed {hash : Bytes} (absent : ∀ row ∈ world.rows, row.urlHash ≠ hash) :
    world.parentsNamed.count (some hash) = 0 := by
  apply List.count_eq_zero.mpr
  intro named
  rcases List.mem_append.mp named with stored | waiting
  · obtain ⟨row, member, parent⟩ := List.mem_map.mp stored
    obtain ⟨above, aboveMember, same, -⟩ := lineage.parents row member hash parent
    exact absent above aboveMember same
  · obtain ⟨child, member, parent⟩ := List.mem_map.mp waiting
    obtain ⟨job, jobMember, left⟩ := List.mem_flatMap.mp member
    obtain ⟨above, aboveMember, same, -⟩ :=
      (lineage.left job jobMember child left).2 hash parent
    exact absent above aboveMember same

/-- A row is inserted below a row that has room for it. -/
theorem Lineage.inserted {new : NewPendingRow} (shallow : new.depth ≤ limits.maxDepth)
    (has : HasParent world.rows new.parentHash new.depth)
    (few : ∀ hash, new.parentHash = some hash → world.parentsNamed.count (some hash) < maxUrls)
    (done : ∀ row ∈ world.rows, row.status.isTerminal = false →
      new.parentHash ≠ some row.urlHash) :
    Lineage limits { world with rows := insertPendingIfAbsent world.clock world.rows new } := by
  rcases insertPending_eq world.clock world.rows new with same | ⟨absent, rowsEq⟩
  · rw [same]
    exact lineage
  have more : ∀ row ∈ world.rows, row ∈ world.rows ++ [new.stored world.clock] :=
    fun row member => List.mem_append_left _ member
  have counted : ∀ hash, ({ world with
      rows := world.rows ++ [new.stored world.clock] }).parentsNamed.count (some hash) =
        world.parentsNamed.count (some hash) + if new.parentHash = some hash then 1 else 0 := by
    intro hash
    simp only [parentsNamed, List.map_append, List.count_append, List.map_cons, List.map_nil,
      List.count_singleton, NewPendingRow.stored, beq_iff_eq]
    omega
  rw [rowsEq]
  refine ⟨?_, ?_, ?_, ?_, ?_⟩
  · exact List.forall_mem_append.mpr
      ⟨lineage.shallow, List.forall_mem_singleton.mpr shallow⟩
  · intro row member
    rcases List.mem_append.mp member with old | new_
    · exact (lineage.parents row old).mono more
    · obtain rfl := List.mem_singleton.mp new_
      exact has.mono more
  · intro job member child childMember
    obtain ⟨childShallow, childHas⟩ := lineage.left job member child childMember
    exact ⟨childShallow, childHas.mono more⟩
  · intro hash
    rw [counted]
    split
    case isTrue named => exact few hash named
    case isFalse => exact lineage.few hash
  · intro row member open_
    rw [counted]
    rcases List.mem_append.mp member with old | new_
    · rw [if_neg (done row old open_), lineage.childless row old open_]
    · -- The row is new: it is not its own parent either, for that row would be there already.
      obtain rfl := List.mem_singleton.mp new_
      have own : new.parentHash ≠ some new.urlHash := by
        intro named
        obtain ⟨above, aboveMember, same, -⟩ := has new.urlHash named
        exact absent above aboveMember same
      exact (congrArg₂ (· + ·) (lineage.unnamed absent) (if_neg own))

theorem Lineage.insertedRoots {roots : List NewPendingRow}
    (top : ∀ root ∈ roots, root.parentHash = none ∧ root.depth = 0) :
    Lineage limits { world with
      rows := roots.foldl (insertPendingIfAbsent world.clock) world.rows } := by
  induction roots generalizing world with
  | nil => exact lineage
  | cons root rest ih =>
      obtain ⟨none_, depth⟩ := top root List.mem_cons_self
      have parentless : ∀ hash, root.parentHash ≠ some hash := by
        simp [none_]
      have first := lineage.inserted (depth ▸ Nat.zero_le _)
        (fun hash named => absurd named (parentless hash))
        (fun hash named => absurd named (parentless hash)) fun row _ _ => parentless row.urlHash
      exact ih first fun other member => top other (List.mem_cons_of_mem _ member)

/-- The children a job gets are at the level below its row. -/
theorem Lineage.captured (member : job ∈ world.jobs)
    (stage : job.stage = .fetching)
    (below : ∀ child ∈ children, child.parentHash = some job.candidate.urlHash ∧
      child.depth ≤ limits.maxDepth ∧
      HasParent world.rows child.parentHash child.depth)
    (few : world.parentsNamed.count (some job.candidate.urlHash) + children.length ≤ maxUrls)
    (childless : children ≠ [] → ∀ row ∈ world.rows, row.urlHash = job.candidate.urlHash →
      row.status.isTerminal = true) :
    Lineage limits { world with
      jobs := { job with stage := .enqueueing children } :: world.jobs.erase job } := by
  have nothing : job.left = [] := by
    rw [Job.left, stage]
  have counted : ∀ hash, ({ world with jobs :=
      { job with stage := .enqueueing children } :: world.jobs.erase job }).parentsNamed.count
        (some hash) = world.parentsNamed.count (some hash) +
          (children.map (·.parentHash)).count (some hash) := by
    intro hash
    have moved := parentsNamed_setJob member { job with stage := .enqueueing children } (some hash)
    rw [nothing] at moved
    exact moved
  have others : ∀ hash, hash ≠ job.candidate.urlHash →
      (children.map (·.parentHash)).count (some hash) = 0 := by
    intro hash other
    apply List.count_eq_zero.mpr
    intro named
    obtain ⟨child, childMember, parent⟩ := List.mem_map.mp named
    rw [(below child childMember).1] at parent
    exact other (Option.some.inj parent).symm
  refine { lineage with left := ?_, few := ?_, childless := ?_ }
  · intro other otherMember child childMember
    rcases List.mem_cons.mp otherMember with rfl | rest
    · exact (below child childMember).2
    · exact lineage.left other (List.mem_of_mem_erase rest) child childMember
  · intro hash
    rw [counted]
    by_cases same : hash = job.candidate.urlHash
    · subst same
      have most : (children.map (·.parentHash)).count (some job.candidate.urlHash) ≤
          children.length := List.count_le_length.trans_eq (List.length_map _)
      omega
    · rw [others hash same]
      exact lineage.few hash
  · intro row rowMember open_
    rw [counted, lineage.childless row rowMember open_]
    by_cases same : row.urlHash = job.candidate.urlHash
    · by_cases some_ : children = []
      · simp [some_]
      · rw [childless some_ row rowMember same] at open_
        cases open_
    · rw [others row.urlHash same]

theorem Lineage.finished (exclusive : Exclusive world)
    (member : job ∈ world.jobs) (stage : job.stage = .fetching) {outcome : RawOutcome} {clock : ℤ}
    {result : AttemptResult}
    (made : processOutcome env limits.maxDepth job.candidate clock outcome =
      (result, children)) :
    Lineage limits { world with
      rows := upsertAttempt world.clock world.rows result
      jobs := { job with stage := .enqueueing children } :: world.jobs.erase job } := by
  obtain ⟨row, rowMember, same, open_, resultHash, applied, others⟩ :=
    exclusive.records member stage (processOutcome_candidate made)
  have depth : row.depth = job.candidate.depth := by
    rw [← same]
    rfl
  have placed := upsertAttempt_place world.clock rowMember resultHash
  have zero := lineage.childless row rowMember open_
  have recorded : Lineage limits { world with
      rows := upsertAttempt world.clock world.rows result } := by
    apply lineage.setRows placed
    intro other otherMember otherOpen
    rcases others other otherMember with rfl | ⟨old, -⟩
    · exact zero
    · exact lineage.childless other old otherOpen
  have unchanged : ({ world with
      rows := upsertAttempt world.clock world.rows result }).parentsNamed = world.parentsNamed := by
    rw [parentsNamed, parentHash_of_place placed]
    rfl
  rw [candidate_hash same] at zero
  refine recorded.captured member stage ?_ ?_ ?_
  · intro child childMember
    rcases processOutcome_cases made with ⟨failure, -, rfl⟩ | ⟨body, rfl, rfl⟩
    · cases childMember
    · obtain ⟨parent, deeper, shallow⟩ := childRows_mem childMember
      refine ⟨parent, shallow, ?_⟩
      intro hash named
      rw [parent] at named
      exact ⟨_, applied, (candidate_hash same).trans (Option.some.inj named),
        deeper.trans (congrArg (· + 1) depth.symm)⟩
  · rw [unchanged, zero, Nat.zero_add]
    rcases processOutcome_cases made with ⟨failure, -, rfl⟩ | ⟨body, -, rfl⟩
    · exact Nat.zero_le _
    · exact childRows_length _ _ _ _
  · intro some_ other otherMember sameHash
    rcases processOutcome_cases made with ⟨failure, -, rfl⟩ | ⟨body, rfl, -⟩
    · exact absurd rfl some_
    · rcases others other otherMember with rfl | ⟨-, differs⟩
      · rfl
      · exact absurd (sameHash.trans (candidate_hash same).symm) differs

theorem Lineage.enqueued (member : job ∈ world.jobs)
    {child : NewPendingRow} {left : List NewPendingRow}
    (stage : job.stage = .enqueueing (child :: left)) {rows : List FetchRow}
    (made : rows = insertPendingIfAbsent world.clock world.rows child ∨ rows = world.rows) :
    Lineage limits { world with
      rows
      jobs := { job with stage := .enqueueing left } :: world.jobs.erase job } := by
  have leftEq : job.left = child :: left := by
    rw [Job.left, stage]
  have counted : ∀ hash, ({ world with jobs :=
      { job with stage := .enqueueing left } :: world.jobs.erase job }).parentsNamed.count hash +
        (if child.parentHash = hash then 1 else 0) = world.parentsNamed.count hash := by
    intro hash
    have moved := parentsNamed_setJob member { job with stage := .enqueueing left } hash
    have same : (Job.left { job with stage := .enqueueing left }) = left := rfl
    rw [leftEq, same, List.map_cons, List.count_cons] at moved
    simp only [beq_iff_eq] at moved
    omega
  have moved : Lineage limits { world with
      jobs := { job with stage := .enqueueing left } :: world.jobs.erase job } := by
    apply lineage.setJobs
    · intro other otherMember waiting waitingMember
      rcases List.mem_cons.mp otherMember with rfl | rest
      · exact ⟨job, member, leftEq ▸ List.mem_cons_of_mem _ waitingMember⟩
      · exact ⟨other, List.mem_of_mem_erase rest, waitingMember⟩
    · intro hash
      have := counted hash
      omega
  rcases made with rfl | rfl
  swap
  · exact moved
  obtain ⟨shallow, has⟩ := lineage.left job member child (leftEq ▸ List.mem_cons_self)
  apply moved.inserted shallow has
  · intro hash named
    have total := counted (some hash)
    have most := lineage.few hash
    rw [if_pos named] at total
    omega
  · intro row rowMember open_ named
    have total := counted (some row.urlHash)
    rw [if_pos named, lineage.childless row rowMember open_] at total
    omega

theorem Lineage.committed (claim : OpenClaim) (candidates : List Candidate) :
    Lineage limits { world with
      rows := claimRows claim.now world.rows (candidates.map (·.urlHash)) claim.lease
      jobs := world.jobs ++ candidates.map claim.job } := by
  generalize candidates.map (·.urlHash) = hashes
  have claimed : Lineage limits { world with
      rows := claimRows claim.now world.rows hashes claim.lease } := by
    apply lineage.setRows (claimRows_place _ _ _ _)
    intro row rowMember open_
    obtain ⟨stored, storedMember, same, -⟩ := claimRows_cases rowMember
    rw [same] at open_ ⊢
    exact lineage.childless stored storedMember open_
  have idle : (candidates.map claim.job).flatMap Job.left = [] := by
    apply List.flatMap_eq_nil_iff.mpr
    intro job jobMember
    obtain ⟨candidate, -, rfl⟩ := List.mem_map.mp jobMember
    rfl
  apply claimed.setJobs
  · intro job jobMember child childMember
    rcases List.mem_append.mp jobMember with old | new
    · exact ⟨job, old, childMember⟩
    · obtain ⟨candidate, -, rfl⟩ := List.mem_map.mp new
      cases childMember
  · intro hash
    simp [parentsNamed, List.flatMap_append, idle, List.append_nil]

theorem Lineage.step (exclusive : Exclusive world) {loses : Bool}
    (moves : Moves env limits loses world after) : Lineage limits after := by
  cases moves with
  | stays | passes _ _ | appends _ | begins _ _ _ | locks _ _ _ _ | selects _ _ _ _
  | decides _ _ _ _ _ | aborts _ =>
      exact { lineage with }
  | syncs cursor found roots =>
      have grown := lineage.insertedRoots roots
      exact { grown with }
  | commits claim member eligible decision =>
      have begun := lineage.committed claim decision.candidates
      exact { begun with }
  | starts job member stage =>
      have nothing : job.left = [] := by
        rw [Job.left, stage]
      have started := lineage.setReplaced member { job with stage := .fetching } nothing rfl
      exact { started with }
  | finishes job member stage outcome clock result children made =>
      exact lineage.finished exclusive member stage made
  | ends job member =>
      apply lineage.setJobs
      · intro other otherMember child childMember
        exact ⟨other, List.mem_of_mem_erase otherMember, childMember⟩
      · intro hash
        rw [parentsNamed_split member]
        simp only [parentsNamed, List.count_append, List.flatMap_cons, List.map_append]
        omega
  | enqueues job member child left stage rows made => exact lineage.enqueued member stage made

end Keeping

section Descending

/-- The rows that go back to a URL, up to so many levels below it. -/
def FetchWorld.descendants (world : FetchWorld) (root : Bytes) (levels : ℕ) : List FetchRow :=
  Forest.descendants FetchRow.urlHash FetchRow.parentHash world.rows root levels

/-- The fetches started for them. -/
def FetchWorld.fetchesFrom (world : FetchWorld) (root : Bytes) (levels : ℕ) : ℕ :=
  world.fetches.countP fun fetch =>
    (world.descendants root levels).any fun row => fetch.urlHash = row.urlHash

/-- The rows of a full tree of the deepest level. -/
def FetchLimits.mostDescendants (limits : FetchLimits) : ℕ :=
  ∑ level ∈ Finset.range (limits.maxDepth + 1), maxUrls ^ level

theorem Lineage.descendants_length (lineage : Lineage limits world) (exclusive : Exclusive world)
    (root : Bytes) (levels : ℕ) :
    (world.descendants root levels).length ≤ limits.mostDescendants := by
  apply Forest.descendants_length exclusive.unique
  · intro hash
    have few := lineage.few hash
    rw [parentsNamed, List.count_append, List.count, List.countP_map] at few
    refine le_trans ?_ ((Nat.le_add_right _ _).trans few)
    apply List.countP_mono_left
    intro row _ named
    simpa using named
  · intro row member above aboveMember named
    obtain ⟨parent, parentMember, same, deeper⟩ := lineage.parents row member _ named
    rw [← exclusive.unique.eq_of_hash parentMember aboveMember same]
    exact deeper
  · exact lineage.shallow

/-- Whatever the servers return, a URL leads to so many fetches at most. -/
theorem Lineage.fetchesFrom_le (lineage : Lineage limits world) (exclusive : Exclusive world)
    {most : ℕ} (each : ∀ hash, world.fetchesOf hash ≤ most) (root : Bytes) (levels : ℕ) :
    world.fetchesFrom root levels ≤ limits.mostDescendants * most := by
  calc world.fetchesFrom root levels
      ≤ ((world.descendants root levels).map fun row => world.fetchesOf row.urlHash).sum :=
        Forest.countP_any_le world.fetches (world.descendants root levels)
          fun row fetch => decide (fetch.urlHash = row.urlHash)
    _ ≤ (world.descendants root levels).length * most :=
        Forest.sum_map_le _ _ _ fun row _ => each row.urlHash
    _ ≤ limits.mostDescendants * most :=
        Nat.mul_le_mul_right _ (lineage.descendants_length exclusive root levels)

end Descending

end Propolis.Fetcher
