import Propolis.Fetcher.Store

/-!
# Nodes that share a fetch table

Any number of fetch cycles over one database.  A cycle opens the claim transaction
of `claim_candidates`, whose statements are steps of their own: the lock on the row of
the day, the selection of rows with their locks, the count by host, and the commit that
makes its writes visible.  Then it fetches what it has claimed, at most `CONCURRENCY`
at a time, records each outcome and enqueues the URLs of a captured body one by one.
`now()` is the time a transaction was opened.

A transaction writes only rows it has locked, so its writes are made at the commit.
The statements that do not stand in a transaction, and the transaction of one chunk of
`sync_new_events`, which takes the lock on the cursor first, are single steps.

A statement may fail, the work on a row may panic and a node may die: then a transaction
is rolled back, a URL is not enqueued, or the work on a row is over without its outcome.
A statement that fails alone changes nothing and is no step.
-/

namespace Propolis.Fetcher

open Bytes

/-- The budgets of the nodes, and how deep a chain of scripts is followed. -/
structure FetchLimits where
  perHostHour : ℕ
  dailyCap : ℕ
  maxDepth : ℕ

/-- How many fetches of one cycle are in flight at once. -/
def concurrency : ℕ := 8

/-- How far a claim transaction has come. -/
inductive ClaimStage where
  | begun
  | locked (usedToday : ℕ)
  | selected (usedToday : ℕ) (eligible : List Candidate)
  | decided (eligible : List Candidate) (claim : Claim)
  deriving DecidableEq

/-- An open claim transaction. -/
structure OpenClaim where
  cycle : ℕ
  now : ℤ
  batch : ℕ
  lease : ℕ
  stage : ClaimStage
  deriving DecidableEq

namespace OpenClaim

/-- The UTC day whose usage the transaction charges. -/
def day (claim : OpenClaim) : ℤ :=
  dateNaive claim.now

/-- The rows the transaction has locked. -/
def held (claim : OpenClaim) : List Candidate :=
  match claim.stage with
  | .begun | .locked _ => []
  | .selected _ eligible | .decided eligible _ => eligible

/-- The rows the transaction has decided to claim. -/
def chosen (claim : OpenClaim) : List Candidate :=
  match claim.stage with
  | .decided _ decision => decision.candidates
  | _ => []

/-- The transaction holds the lock on the row of its day. -/
def holdsDay (claim : OpenClaim) : Bool :=
  claim.stage ≠ .begun

end OpenClaim

/-- A claimed row: waiting for its turn, being fetched, or done with URLs left to enqueue. -/
inductive JobStage where
  | waiting | fetching
  | enqueueing (left : List NewPendingRow)
  deriving DecidableEq

structure Job where
  cycle : ℕ
  candidate : Candidate
  expires : ℤ
  stage : JobStage
  deriving DecidableEq

/-- A row the transaction has claimed. -/
def OpenClaim.job (claim : OpenClaim) (candidate : Candidate) : Job where
  cycle := claim.cycle
  candidate := candidate
  expires := claim.now + claim.lease
  stage := .waiting

/-- The outcome is still to be recorded. -/
def Job.isInFlight (job : Job) : Bool :=
  match job.stage with
  | .waiting | .fetching => true
  | .enqueueing _ => false

/-- An event of the ledger; `url` is the one a download event carries. -/
structure LedgerEvent where
  sourceIp : IpAddr
  isDownload : Bool
  url : Option String

/-- A fetch that was started. -/
structure FetchStart where
  urlHash : Bytes
  host : String
  time : ℤ
  deriving DecidableEq

structure FetchWorld where
  clock : ℤ
  events : List LedgerEvent
  cursor : ℕ
  rows : List FetchRow
  usage : List (ℤ × ℕ)
  claims : List OpenClaim
  jobs : List Job
  /-- The rows claimed so far, each with the day it was charged to. -/
  charged : List (ℤ × Bytes)
  /-- The fetches started so far. -/
  fetches : List FetchStart

def FetchWorld.initial (events : List LedgerEvent) (clock : ℤ) : FetchWorld where
  clock := clock
  events := events
  cursor := 0
  rows := []
  usage := []
  claims := []
  jobs := []
  charged := []
  fetches := []

inductive FetchAction where
  | pass (duration : ℕ)
  | append (event : LedgerEvent)
  | sync (chunk : ℕ)
  | begin_ (cycle batch lease : ℕ)
  | lockDay (cycle : ℕ)
  | select (cycle : ℕ)
  | decide_ (cycle : ℕ)
  | commit (cycle : ℕ)
  | abort (cycle : ℕ)
  | start (cycle : ℕ) (urlHash : Bytes)
  | finish (cycle : ℕ) (urlHash : Bytes) (outcome : RawOutcome) (clock : ℤ)
  | enqueue (cycle : ℕ) (urlHash : Bytes) (succeeds : Bool)
  | drop (cycle : ℕ) (urlHash : Bytes)

namespace FetchWorld

variable (env : FetchEnv) (limits : FetchLimits) (world : FetchWorld)

/-- The download events past the cursor, each with its id. -/
def pendingDownloads : List (ℕ × LedgerEvent) :=
  ((world.events.zipIdx 1).map fun (event, id) => (id, event)).filter fun (id, event) =>
    world.cursor < id && event.isDownload && event.url.isSome

/-- The row a download event asks for, if its URL can be fetched. -/
def eventRow (event : LedgerEvent) : Option NewPendingRow :=
  event.url.bind fun url => (env.parseUrlParts url).map fun (scheme, host, port) =>
    { urlHash := env.urlHash url, url, host, scheme, port, sourceIp := some event.sourceIp,
      parentHash := none, depth := 0 }

/-- One chunk of `sync_new_events`. -/
def syncChunk (chunk : ℕ) : FetchWorld :=
  if world.events.length ≤ world.cursor then world
  else
    let found := world.pendingDownloads.take chunk
    { world with
      cursor := if found.length = chunk then
        (found.getLast?.map (·.1)).getD world.events.length else world.events.length
      rows := (found.filterMap fun entry => eventRow env entry.2).foldl
        (insertPendingIfAbsent world.clock) world.rows }

def usedOn (day : ℤ) : ℕ :=
  (world.usage.lookup day).getD 0

def findClaim (cycle : ℕ) : Option OpenClaim :=
  world.claims.find? fun claim => claim.cycle = cycle

/-- A step of the open transaction of a cycle. -/
def onClaim (cycle : ℕ) (next : OpenClaim → FetchWorld) : FetchWorld :=
  (world.findClaim cycle).elim world next

/-- The transaction is at another stage. -/
def setStage (claim : OpenClaim) (stage : ClaimStage) : FetchWorld :=
  { world with claims := { claim with stage } :: world.claims.erase claim }

/-- `BEGIN` of a claim transaction; a cycle has one at a time. -/
def beginClaim (cycle batch lease : ℕ) : FetchWorld :=
  if (world.findClaim cycle).isSome ∨ world.jobs.any fun job => job.cycle = cycle then world
  else { world with
    claims := { cycle, now := world.clock, batch, lease, stage := .begun } :: world.claims }

/-- The usage row of the day is created and locked; another transaction that has it is waited
for. -/
def lockDay (cycle : ℕ) : FetchWorld :=
  world.onClaim cycle fun claim =>
    if claim.stage = .begun ∧
        world.claims.all fun other => !(other.holdsDay && other.day = claim.day) then
      world.setStage claim (.locked (world.usedOn claim.day))
    else world

/-- The selection `FOR UPDATE SKIP LOCKED`. -/
def selectRows (cycle : ℕ) : FetchWorld :=
  world.onClaim cycle fun claim =>
    match claim.stage with
    | .locked usedToday =>
        world.setStage claim (.selected usedToday (selectEligible claim.now world.rows
          (world.claims.flatMap fun other => other.held.map (·.urlHash)) claim.batch))
    | _ => world

/-- The count by host, and the loop that decides what to claim. -/
def decideClaim (cycle : ℕ) : FetchWorld :=
  world.onClaim cycle fun claim =>
    match claim.stage with
    | .selected usedToday eligible =>
        world.setStage claim (.decided eligible (takeWithin
          (fun host => limits.perHostHour - usedByHost claim.now world.rows host)
          (limits.dailyCap - usedToday) eligible))
    | _ => world

/-- The two updates and the commit. -/
def commitClaim (cycle : ℕ) : FetchWorld :=
  world.onClaim cycle fun claim =>
    match claim.stage with
    | .decided _ decision =>
        let hashes := decision.candidates.map (·.urlHash)
        { world with
          claims := world.claims.erase claim
          rows := claimRows claim.now world.rows hashes claim.lease
          usage := (claim.day, world.usedOn claim.day + hashes.length) :: world.usage
          charged := world.charged ++ hashes.map fun hash => (claim.day, hash)
          jobs := world.jobs ++ decision.candidates.map claim.job }
    | _ => world

/-- A statement of the transaction fails or its node dies, and it is rolled back. -/
def abortClaim (cycle : ℕ) : FetchWorld :=
  world.onClaim cycle fun claim => { world with claims := world.claims.erase claim }

def findJob (cycle : ℕ) (urlHash : Bytes) : Option Job :=
  world.jobs.find? fun job => job.cycle = cycle && job.candidate.urlHash = urlHash

/-- A step of the work of a cycle on a row. -/
def onJob (cycle : ℕ) (urlHash : Bytes) (next : Job → FetchWorld) : FetchWorld :=
  (world.findJob cycle urlHash).elim world next

/-- A claimed row gets a permit and its fetch starts. -/
def startFetch (cycle : ℕ) (urlHash : Bytes) : FetchWorld :=
  world.onJob cycle urlHash fun job =>
    if job.stage = .waiting ∧ world.jobs.countP (fun other =>
        other.cycle = cycle && other.stage = .fetching) < concurrency then
      { world with
        jobs := { job with stage := .fetching } :: world.jobs.erase job
        fetches := world.fetches ++
          [⟨job.candidate.urlHash, job.candidate.host, world.clock⟩] }
    else world

/-- The fetch is over and its outcome recorded; `clock` is the time the node reads. -/
def finishFetch (cycle : ℕ) (urlHash : Bytes) (outcome : RawOutcome) (clock : ℤ) :
    FetchWorld :=
  world.onJob cycle urlHash fun job =>
    if job.stage = .fetching then
      let recorded := processOutcome env limits.maxDepth job.candidate clock outcome
      { world with
        rows := upsertAttempt world.clock world.rows recorded.1
        jobs := { job with stage := .enqueueing recorded.2 } :: world.jobs.erase job }
    else world

/-- The next URL of a captured body is enqueued, or skipped if that fails; with none left the job
is over. -/
def enqueueChild (cycle : ℕ) (urlHash : Bytes) (succeeds : Bool) : FetchWorld :=
  world.onJob cycle urlHash fun job =>
    match job.stage with
    | .enqueueing [] => { world with jobs := world.jobs.erase job }
    | .enqueueing (child :: left) =>
        { world with
          rows := if succeeds then insertPendingIfAbsent world.clock world.rows child
            else world.rows
          jobs := { job with stage := .enqueueing left } :: world.jobs.erase job }
    | _ => world

/-- The work on a row is over too early: its outcome could not be recorded, it panicked, or its node
died.  The row keeps its claim. -/
def dropJob (cycle : ℕ) (urlHash : Bytes) : FetchWorld :=
  world.onJob cycle urlHash fun job => { world with jobs := world.jobs.erase job }

def step : FetchAction → FetchWorld
  | .pass duration => { world with clock := world.clock + duration }
  | .append event => { world with events := world.events ++ [event] }
  | .sync chunk => world.syncChunk env chunk
  | .begin_ cycle batch lease => world.beginClaim cycle batch lease
  | .lockDay cycle => world.lockDay cycle
  | .select cycle => world.selectRows cycle
  | .decide_ cycle => world.decideClaim limits cycle
  | .commit cycle => world.commitClaim cycle
  | .abort cycle => world.abortClaim cycle
  | .start cycle urlHash => world.startFetch cycle urlHash
  | .finish cycle urlHash outcome clock => world.finishFetch env limits cycle urlHash outcome clock
  | .enqueue cycle urlHash succeeds => world.enqueueChild cycle urlHash succeeds
  | .drop cycle urlHash => world.dropJob cycle urlHash

/-- Every cycle finishes inside its lease: time does not reach the end of the lease of a row whose
outcome is still to be recorded. -/
def leased : FetchAction → Bool
  | .pass duration => world.jobs.all fun job =>
      !job.isInFlight || world.clock + duration < job.expires
  | .commit cycle => (world.findClaim cycle).all fun claim =>
      claim.chosen.isEmpty || world.clock < claim.now + claim.lease
  | _ => true

/-- An outcome that was still to be recorded is lost. -/
def losesOutcome : FetchAction → Bool
  | .drop cycle urlHash => (world.findJob cycle urlHash).any (·.isInFlight)
  | _ => false

end FetchWorld

end Propolis.Fetcher
