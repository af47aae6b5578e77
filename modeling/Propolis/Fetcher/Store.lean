import Mathlib.Data.List.Sort
import Propolis.Lib.Bytes
import Propolis.Scoring.Domain

/-!
# The fetch table

The rows of `fetch_attempt` and the statements on them (`fetcher/store.rs`), with the
outcomes `process_one` records (`fetcher/mod.rs`).  The columns that only describe a
capture are left out: no statement reads them.

The URL parser and the hash of a URL are parameters, and so is the scan of a body for
URLs; how many of those are taken is not.
-/

namespace Propolis.Fetcher

open Bytes

inductive FetchStatus where
  | pending | success | dead | rejected | tooBig | timeout | empty
  deriving DecidableEq

/-- Neither is ever selected again. -/
def FetchStatus.isTerminal : FetchStatus → Bool
  | .success | .dead => true
  | _ => false

def FetchStatus.isRetryable : FetchStatus → Bool
  | .rejected | .tooBig | .timeout | .empty => true
  | _ => false

structure FetchRow where
  urlHash : Bytes
  url : String
  host : String
  scheme : String
  port : Option ℤ
  sourceIp : Option IpAddr
  parentHash : Option Bytes
  depth : ℕ
  status : FetchStatus
  attempts : ℕ
  nextAttempt : Option ℤ
  firstSeen : ℤ
  lastAttempt : ℤ
  claimExpires : Option ℤ
  deriving DecidableEq

structure Candidate where
  urlHash : Bytes
  url : String
  host : String
  scheme : String
  port : Option ℤ
  sourceIp : Option IpAddr
  parentHash : Option Bytes
  depth : ℕ
  attempts : ℕ
  deriving DecidableEq

def FetchRow.candidate (row : FetchRow) : Candidate where
  urlHash := row.urlHash
  url := row.url
  host := row.host
  scheme := row.scheme
  port := row.port
  sourceIp := row.sourceIp
  parentHash := row.parentHash
  depth := row.depth
  attempts := row.attempts

structure NewPendingRow where
  urlHash : Bytes
  url : String
  host : String
  scheme : String
  port : Option ℤ
  sourceIp : Option IpAddr
  parentHash : Option Bytes
  depth : ℕ
  deriving DecidableEq

section Times

/-- In nanoseconds, as all times. -/
def minutes (count : ℕ) : ℤ :=
  count * 60000000000

def oneHour : ℤ := minutes 60

def maxAttempts : ℕ := 3

/-- `backoff_delay`: five minutes, then twenty. -/
def backoffDelay (attempts : ℕ) : ℤ :=
  minutes (5 * 4 ^ min (attempts - 1) 6)

end Times

section Statements

variable (now : ℤ) (rows : List FetchRow)

/-- A row as it is first stored. -/
def NewPendingRow.stored (row : NewPendingRow) : FetchRow where
  urlHash := row.urlHash
  url := row.url
  host := row.host
  scheme := row.scheme
  port := row.port
  sourceIp := row.sourceIp
  parentHash := row.parentHash
  depth := row.depth
  status := .pending
  attempts := 0
  nextAttempt := none
  firstSeen := now
  lastAttempt := now
  claimExpires := none

/-- `insert_pending_if_absent`: a URL that has a row keeps it untouched, at any status. -/
def insertPendingIfAbsent (row : NewPendingRow) : List FetchRow :=
  if rows.any fun stored => stored.urlHash = row.urlHash then rows
  else rows ++ [row.stored now]

/-- The outcome of an attempt, of the columns that are read again. -/
structure AttemptResult where
  candidate : Candidate
  status : FetchStatus
  attempts : ℕ
  nextAttempt : Option ℤ

/-- The row after `ON CONFLICT DO UPDATE`; the claim is released. -/
def AttemptResult.apply (result : AttemptResult) (row : FetchRow) : FetchRow :=
  { row with
    status := result.status, attempts := result.attempts, nextAttempt := result.nextAttempt,
    lastAttempt := now, claimExpires := none }

/-- The row `upsert_attempt` would insert if there were none. -/
def AttemptResult.inserted (result : AttemptResult) : FetchRow where
  urlHash := result.candidate.urlHash
  url := result.candidate.url
  host := result.candidate.host
  scheme := result.candidate.scheme
  port := result.candidate.port
  sourceIp := result.candidate.sourceIp
  parentHash := result.candidate.parentHash
  depth := result.candidate.depth
  status := result.status
  attempts := result.attempts
  nextAttempt := result.nextAttempt
  firstSeen := now
  lastAttempt := now
  claimExpires := none

/-- `upsert_attempt`: a row that is terminal is not updated. -/
def upsertAttempt (result : AttemptResult) : List FetchRow :=
  if rows.any fun row => row.urlHash = result.candidate.urlHash then
    rows.map fun row =>
      if row.urlHash = result.candidate.urlHash ∧ row.status.isTerminal = false then
        result.apply now row
      else row
  else rows ++ [result.inserted now]

/-- What `claim_candidates` may select: never attempted, or due for a retry, and not claimed. -/
def FetchRow.isEligible (row : FetchRow) : Bool :=
  (row.status = .pending ∨
    row.status.isRetryable ∧ row.nextAttempt.any fun due => due ≤ now) ∧
  row.claimExpires.all fun expires => expires ≤ now

/-- The eligible rows no other transaction has locked, newest first. -/
def selectEligible (locked : List Bytes) (batch : ℕ) : List Candidate :=
  (((rows.filter fun row => row.isEligible now && !locked.contains row.urlHash).insertionSort
    fun one other => other.firstSeen ≤ one.firstSeen).take batch).map (·.candidate)

/-- The row counts against its host: attempted in the trailing hour, or claimed. -/
def FetchRow.isUsed (row : FetchRow) : Bool :=
  row.status ≠ .pending ∧ now - oneHour ≤ row.lastAttempt ∨
    row.claimExpires.any fun expires => now < expires

def usedByHost (host : String) : ℕ :=
  rows.countP fun row => row.host = host && row.isUsed now

structure Claim where
  candidates : List Candidate
  skippedBucket : ℕ
  skippedDaily : ℕ
  deriving DecidableEq

/-- The loop of `claim_candidates` over the eligible rows, within what is left of the budgets. -/
def takeWithin (hostLeft : String → ℕ) (dailyLeft : ℕ) : List Candidate → Claim
  | [] => ⟨[], 0, 0⟩
  | candidate :: rest =>
      if hostLeft candidate.host = 0 then
        let claim := takeWithin hostLeft dailyLeft rest
        { claim with skippedBucket := claim.skippedBucket + 1 }
      else if dailyLeft = 0 then
        let claim := takeWithin hostLeft dailyLeft rest
        { claim with skippedDaily := claim.skippedDaily + 1 }
      else
        let claim := takeWithin
          (Function.update hostLeft candidate.host (hostLeft candidate.host - 1))
          (dailyLeft - 1) rest
        { claim with candidates := candidate :: claim.candidates }

/-- The claimed rows get their lease. -/
def claimRows (hashes : List Bytes) (lease : ℕ) : List FetchRow :=
  rows.map fun row =>
    if hashes.contains row.urlHash then { row with claimExpires := some (now + lease) } else row

end Statements

section Outcomes

/-- What other code decides: the hash of a URL, its parts, and the URLs a body is scanned for, in
the order the scan finds them. -/
structure FetchEnv where
  urlHash : String → Bytes
  parseUrlParts : String → Option (String × String × Option ℤ)
  scannedUrls : Bytes → List String

def maxBodyLen : ℕ := 65536

def maxUrls : ℕ := 256

/-- The URLs not seen before, up to the cap: with the cap reached nothing more is looked at. -/
def takeUnseen : List String → List String → List String
  | [], urls => urls
  | url :: rest, urls =>
      if maxUrls ≤ urls.length then urls
      else takeUnseen rest (if url ∈ urls then urls else urls ++ [url])

def extractUrls (env : FetchEnv) (body : Bytes) : List String :=
  if maxBodyLen < body.length then [] else takeUnseen (env.scannedUrls body) []

/-- How a fetch can fail. -/
inductive Failure where
  | rejected | tooBig | timeout | empty
  deriving DecidableEq

def Failure.status : Failure → FetchStatus
  | .rejected => .rejected
  | .tooBig => .tooBig
  | .timeout => .timeout
  | .empty => .empty

/-- `RawOutcome`, and whether the spool stores the body. -/
inductive RawOutcome where
  | captured (body : Bytes) (stored : Bool)
  | failed (failure : Failure)

/-- `record_failure`: the attempt that makes it three is the last. -/
def recordFailure (candidate : Candidate) (failure : Failure) (clock : ℤ) : AttemptResult :=
  let attempts := candidate.attempts + 1
  if maxAttempts ≤ attempts then
    { candidate, status := .dead, attempts, nextAttempt := none }
  else
    { candidate, status := failure.status, attempts,
      nextAttempt := some (clock + backoffDelay attempts) }

def successResult (candidate : Candidate) : AttemptResult :=
  { candidate, status := .success, attempts := candidate.attempts, nextAttempt := none }

/-- The rows a captured body adds, one level deeper, unless the level is the last. -/
def childRows (env : FetchEnv) (maxDepth : ℕ) (candidate : Candidate) (body : Bytes) :
    List NewPendingRow :=
  if candidate.depth < maxDepth then
    (extractUrls env body).filterMap fun url =>
      (env.parseUrlParts url).map fun (scheme, host, port) =>
        { urlHash := env.urlHash url, url, host, scheme, port, sourceIp := candidate.sourceIp,
          parentHash := some candidate.urlHash, depth := candidate.depth + 1 }
  else []

/-- `process_one`: what is recorded, and the rows to enqueue after it. -/
def processOutcome (env : FetchEnv) (maxDepth : ℕ) (candidate : Candidate) (clock : ℤ) :
    RawOutcome → AttemptResult × List NewPendingRow
  | .captured body stored =>
      if body.isEmpty then (recordFailure candidate .empty clock, [])
      else if stored then (successResult candidate, childRows env maxDepth candidate body)
      else (recordFailure candidate .timeout clock, [])
  | .failed failure => (recordFailure candidate failure clock, [])

end Outcomes

section Facts

variable {now : ℤ} {rows : List FetchRow} {row : FetchRow} {result : AttemptResult}
  {hashes : List Bytes} {lease : ℕ} {candidate : Candidate} {env : FetchEnv} {maxDepth : ℕ}
  {children : List NewPendingRow}

/-- Every URL has one row. -/
def UniqueRows (rows : List FetchRow) : Prop :=
  (rows.map (·.urlHash)).Nodup

section Apart

variable (unique : UniqueRows rows)
include unique

theorem UniqueRows.eq_of_hash {other : FetchRow}
    (member : row ∈ rows) (otherMember : other ∈ rows) (same : row.urlHash = other.urlHash) :
    row = other :=
  List.inj_on_of_nodup_map unique member otherMember same

theorem uniqueRows_append
    (absent : ¬ (rows.any fun stored => stored.urlHash = row.urlHash) = true) :
    UniqueRows (rows ++ [row]) := by
  have fresh : ∀ stored ∈ rows, stored.urlHash ≠ row.urlHash := by
    simpa using absent
  rw [UniqueRows, List.map_append]
  apply List.nodup_append.mpr
  refine ⟨unique, List.pairwise_singleton _ _, ?_⟩
  simp only [List.mem_map, List.map_cons, List.map_nil, List.mem_singleton]
  rintro _ ⟨stored, member, rfl⟩ _ rfl
  exact fresh stored member

/-- An update that keeps the key of a row keeps the rows apart. -/
theorem uniqueRows_map {update : FetchRow → FetchRow}
    (keyed : ∀ row, (update row).urlHash = row.urlHash) : UniqueRows (rows.map update) := by
  have same : (rows.map update).map (·.urlHash) = rows.map (·.urlHash) := by
    rw [List.map_map]
    exact List.map_congr_left fun row _ => keyed row
  rw [UniqueRows, same]
  exact unique

theorem insertPending_unique (new : NewPendingRow) :
    UniqueRows (insertPendingIfAbsent now rows new) := by
  rw [insertPendingIfAbsent]
  split
  case isTrue => exact unique
  case isFalse absent => exact uniqueRows_append unique absent

theorem insertAll_unique (news : List NewPendingRow) :
    UniqueRows (news.foldl (insertPendingIfAbsent now) rows) := by
  induction news generalizing rows with
  | nil => exact unique
  | cons new rest ih => exact ih (insertPending_unique unique new)

theorem upsertAttempt_unique (result : AttemptResult) :
    UniqueRows (upsertAttempt now rows result) := by
  rw [upsertAttempt]
  split
  case isTrue =>
    apply uniqueRows_map unique
    intro row
    split <;> rfl
  case isFalse absent => exact uniqueRows_append unique absent

/-- Recording an outcome changes the one row it is for. -/
theorem upsertAttempt_eq (member : row ∈ rows) (open_ : row.status.isTerminal = false)
    (same : row.urlHash = result.candidate.urlHash) :
    result.apply now row ∈ upsertAttempt now rows result ∧
      ∀ other ∈ upsertAttempt now rows result,
        other = result.apply now row ∨ other ∈ rows ∧ other.urlHash ≠ row.urlHash := by
  have there : (rows.any fun stored => stored.urlHash = result.candidate.urlHash) = true :=
    List.any_eq_true.mpr ⟨row, member, by simpa using same⟩
  rw [upsertAttempt, if_pos there]
  refine ⟨List.mem_map.mpr ⟨row, member, if_pos ⟨same, open_⟩⟩, ?_⟩
  intro other otherMember
  obtain ⟨stored, storedMember, rfl⟩ := List.mem_map.mp otherMember
  by_cases sameKey : stored.urlHash = row.urlHash
  · rw [unique.eq_of_hash storedMember member sameKey, if_pos ⟨same, open_⟩]
    exact .inl rfl
  · rw [if_neg (fun both => sameKey (both.1.trans same.symm))]
    exact .inr ⟨storedMember, sameKey⟩

theorem claimRows_unique (hashes : List Bytes) (lease : ℕ) :
    UniqueRows (claimRows now rows hashes lease) := by
  apply uniqueRows_map unique
  intro row
  split <;> rfl

theorem selectEligible_nodup (locked : List Bytes) (batch : ℕ) :
    ((selectEligible now rows locked batch).map (·.urlHash)).Nodup := by
  rw [selectEligible, List.map_map]
  apply List.Nodup.sublist ((List.take_sublist _ _).map _)
  apply ((List.perm_insertionSort _ _).map _).nodup_iff.mpr
  exact List.Nodup.sublist (List.filter_sublist.map _) unique

end Apart

/-! ### Inserting -/

/-- A row with the hash is there, or the new row is added. -/
theorem insertPending_eq (now : ℤ) (rows : List FetchRow) (new : NewPendingRow) :
    insertPendingIfAbsent now rows new = rows ∨ (∀ row ∈ rows, row.urlHash ≠ new.urlHash) ∧
      insertPendingIfAbsent now rows new = rows ++ [new.stored now] := by
  rw [insertPendingIfAbsent]
  split
  case isTrue => exact .inl rfl
  case isFalse absent => exact .inr ⟨by simpa using absent, rfl⟩

theorem insertPending_mem (member : row ∈ rows) (new : NewPendingRow) :
    row ∈ insertPendingIfAbsent now rows new := by
  rw [insertPendingIfAbsent]
  split
  · exact member
  · exact List.mem_append_left _ member

theorem insertPending_cases {new : NewPendingRow}
    (member : row ∈ insertPendingIfAbsent now rows new) : row ∈ rows ∨ row = new.stored now := by
  rw [insertPendingIfAbsent] at member
  split at member
  · exact .inl member
  · exact (List.mem_append.mp member).imp id List.mem_singleton.mp

theorem insertAll_mem (member : row ∈ rows) (news : List NewPendingRow) :
    row ∈ news.foldl (insertPendingIfAbsent now) rows := by
  induction news generalizing rows with
  | nil => exact member
  | cons new rest ih => exact ih (insertPending_mem member new)

/-! ### Recording and claiming -/

theorem upsertAttempt_mem (member : row ∈ rows)
    (other : row.urlHash ≠ result.candidate.urlHash) : row ∈ upsertAttempt now rows result := by
  rw [upsertAttempt]
  split
  · refine List.mem_map.mpr ⟨row, member, ?_⟩
    rw [if_neg (fun both => other both.1)]
  · exact List.mem_append_left _ member

theorem claimRows_mem (member : row ∈ rows)
    (other : row.urlHash ∉ hashes) : row ∈ claimRows now rows hashes lease := by
  refine List.mem_map.mpr ⟨row, member, ?_⟩
  rw [if_neg (by simpa using other)]

theorem claimRows_claimed (member : row ∈ rows) (claimed : row.urlHash ∈ hashes) :
    { row with claimExpires := some (now + lease) } ∈ claimRows now rows hashes lease := by
  refine List.mem_map.mpr ⟨row, member, ?_⟩
  rw [if_pos (by simpa using claimed)]

/-- Claiming changes nothing of a row but its claim. -/
theorem claimRows_cases (member : row ∈ claimRows now rows hashes lease) :
    ∃ stored ∈ rows, row = { stored with claimExpires := row.claimExpires } ∧
      (row = stored ∨ stored.urlHash ∈ hashes) := by
  obtain ⟨stored, storedMember, rfl⟩ := List.mem_map.mp member
  refine ⟨stored, storedMember, ?_⟩
  split
  case isTrue claimed => exact ⟨rfl, .inr (by simpa using claimed)⟩
  case isFalse => exact ⟨rfl, .inl rfl⟩

/-! ### Selecting -/

theorem selectEligible_mem {locked : List Bytes} {batch : ℕ}
    (member : candidate ∈ selectEligible now rows locked batch) :
    ∃ row ∈ rows, row.candidate = candidate ∧ row.isEligible now = true ∧
      row.urlHash ∉ locked := by
  obtain ⟨row, taken, rfl⟩ := List.mem_map.mp member
  have sorted := (List.perm_insertionSort _ _).mem_iff.mp (List.mem_of_mem_take taken)
  obtain ⟨stored, chosen⟩ := List.mem_filter.mp sorted
  rw [Bool.and_eq_true] at chosen
  exact ⟨row, stored, rfl, chosen.1, by simpa using chosen.2⟩

theorem FetchRow.isEligible_open (eligible : row.isEligible now = true) :
    row.status.isTerminal = false := by
  simp only [isEligible, decide_eq_true_eq] at eligible
  rcases eligible.1 with pending | retryable
  · rw [pending]
    rfl
  · revert retryable
    cases row.status <;> simp [FetchStatus.isRetryable, FetchStatus.isTerminal]

/-- An eligible row is not under a claim that still holds. -/
theorem FetchRow.isEligible_unclaimed (eligible : row.isEligible now = true)
    {expires : ℤ} (claimed : row.claimExpires = some expires) : expires ≤ now := by
  simp only [isEligible, claimed, decide_eq_true_eq] at eligible
  simpa using eligible.2

/-! ### Deciding -/

theorem takeWithin_sublist (hostLeft : String → ℕ) (dailyLeft : ℕ) (eligible : List Candidate) :
    (takeWithin hostLeft dailyLeft eligible).candidates.Sublist eligible := by
  induction eligible generalizing hostLeft dailyLeft with
  | nil => exact List.Sublist.slnil
  | cons candidate rest ih =>
      rw [takeWithin]
      split
      · exact (ih _ _).cons _
      split
      · exact (ih _ _).cons _
      · exact (ih _ _).cons_cons _

theorem takeWithin_length (hostLeft : String → ℕ) (dailyLeft : ℕ) (eligible : List Candidate) :
    (takeWithin hostLeft dailyLeft eligible).candidates.length ≤ dailyLeft := by
  induction eligible generalizing hostLeft dailyLeft with
  | nil => exact Nat.zero_le _
  | cons candidate rest ih =>
      rw [takeWithin]
      split
      · exact ih _ _
      split
      · exact ih _ _
      case isFalse left =>
        have later := ih (Function.update hostLeft candidate.host (hostLeft candidate.host - 1))
          (dailyLeft - 1)
        simp only [List.length_cons]
        omega

/-! ### Outcomes -/

theorem takeUnseen_length (found urls : List String) (few : urls.length ≤ maxUrls) :
    (takeUnseen found urls).length ≤ maxUrls := by
  induction found generalizing urls with
  | nil => exact few
  | cons url rest ih =>
      rw [takeUnseen]
      split
      · exact few
      case isFalse room =>
        apply ih
        split
        · exact few
        · rw [List.length_append, List.length_singleton]
          omega

/-- A body adds at most so many rows, all of them one level below the one it was fetched for. -/
theorem childRows_length (env : FetchEnv) (maxDepth : ℕ) (candidate : Candidate) (body : Bytes) :
    (childRows env maxDepth candidate body).length ≤ maxUrls := by
  rw [childRows]
  split
  · apply (List.length_filterMap_le _ _).trans
    rw [extractUrls]
    split
    · exact Nat.zero_le _
    · exact takeUnseen_length _ _ (Nat.zero_le _)
  · exact Nat.zero_le _

theorem childRows_mem {body : Bytes}
    {child : NewPendingRow} (member : child ∈ childRows env maxDepth candidate body) :
    child.parentHash = some candidate.urlHash ∧ child.depth = candidate.depth + 1 ∧
      child.depth ≤ maxDepth := by
  rw [childRows] at member
  split at member
  case isTrue room =>
    obtain ⟨url, -, made⟩ := List.mem_filterMap.mp member
    obtain ⟨⟨scheme, host, port⟩, -, rfl⟩ := Option.map_eq_some_iff.mp made
    exact ⟨rfl, rfl, room⟩
  case isFalse => cases member

/-- One more failure: the last one makes the row dead. -/
theorem recordFailure_cases (candidate : Candidate) (failure : Failure) (clock : ℤ) :
    (recordFailure candidate failure clock).candidate = candidate ∧
      (recordFailure candidate failure clock).attempts = candidate.attempts + 1 ∧
      ((recordFailure candidate failure clock).status = .dead ∨
        (recordFailure candidate failure clock).status = failure.status ∧
          candidate.attempts + 1 < maxAttempts) := by
  by_cases last : maxAttempts ≤ candidate.attempts + 1
  · rw [recordFailure, if_pos last]
    exact ⟨rfl, rfl, .inl rfl⟩
  · rw [recordFailure, if_neg last]
    exact ⟨rfl, rfl, .inr ⟨rfl, Nat.lt_of_not_le last⟩⟩

section

variable {clock : ℤ} {outcome : RawOutcome}
  (made : processOutcome env maxDepth candidate clock outcome = (result, children))
include made

/-- A fetch ends as a failure, or as a success with the URLs of its body. -/
theorem processOutcome_cases :
    (∃ failure, result = recordFailure candidate failure clock ∧ children = []) ∨
      ∃ body, result = successResult candidate ∧
        children = childRows env maxDepth candidate body := by
  cases outcome with
  | failed failure =>
      cases made
      exact .inl ⟨failure, rfl, rfl⟩
  | captured body stored =>
      rw [processOutcome] at made
      split at made
      · cases made
        exact .inl ⟨.empty, rfl, rfl⟩
      split at made
      · cases made
        exact .inr ⟨body, rfl, rfl⟩
      · cases made
        exact .inl ⟨.timeout, rfl, rfl⟩

theorem processOutcome_candidate : result.candidate = candidate := by
  rcases processOutcome_cases made with ⟨failure, rfl, -⟩ | ⟨body, rfl, -⟩
  · exact (recordFailure_cases candidate failure clock).1
  · rfl

end

theorem Failure.status_ne (failure : Failure) :
    failure.status ≠ .success ∧ failure.status ≠ .pending := by
  cases failure <;> decide

end Facts

end Propolis.Fetcher
