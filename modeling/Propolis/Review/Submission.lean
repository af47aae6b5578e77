import Propolis.Review.Gatekeeper

/-!
# The submission runner

`SubmissionRunner::run_once` (`submit.rs`): one pass over the approved addresses and
the configured vendors.  A pair that passes its gate inserts a pending row under the
key of the day, calls the vendor and records the outcome, in three steps; what a
later pass may do with the key it decides from the row alone.

The texts of a date and of a report's comment are parameters.
-/

namespace Propolis

open Bytes Interaction Process

/-- The texts that are formatted by others: a calendar date, and a report's comment. -/
structure ReportForms where
  date : ℤ → Bytes
  comment : IpAddr → IpScore → String

section World

/-- A statement on the table: a failed one, or one the process does not survive, may have been
applied. -/
def onTable {Answer : Type} (fortune : Fortune) (answer : SubmissionTable → Answer)
    (effect : SubmissionTable → SubmissionTable) (table : SubmissionTable) :
    Option (Except String Answer) × SubmissionTable :=
  match fortune with
  | .succeeds => (some (.ok (answer table)), effect table)
  | .fails text applied => (some (.error text), if applied then effect table else table)
  | .crashes applied => (none, if applied then effect table else table)

/-- The row an attempt inserts before it calls the vendor. -/
def pendingRow (ip : IpAddr) (vendor : String) (key : Bytes) (report : VendorReport) (now : ℤ) :
    VendorSubmission where
  sourceIp := ip
  vendor := vendor
  idempotencyKey := key
  categories := report.categories
  comment := report.comment
  submittedAt := now
  responseStatus := none
  responseBody := none
  success := false

/-- `ON CONFLICT (idempotency_key) DO NOTHING`. -/
def insertSubmission (row : VendorSubmission) (table : SubmissionTable) : SubmissionTable :=
  if table.rows.any fun stored => stored.idempotencyKey = row.idempotencyKey then table
  else { table with rows := table.rows ++ [row] }

def updateSubmission (key : Bytes) (status : Option ℤ) (body : String) (success : Bool)
    (table : SubmissionTable) : SubmissionTable :=
  { table with rows := table.rows.map fun row =>
      if row.idempotencyKey = key then
        { row with responseStatus := status, responseBody := some body, success }
      else row }

def isAccepted : Except VendorError VendorResponse → Bool
  | .ok response => response.accepted
  | .error _ => false

def respondSubmission :
    (op : SubmissionOp) → SubmissionInput → SubmissionTable → Option op.Answer × SubmissionTable
  | .listApproved, input, table => onTable input.fortune (fun _ => input.approved) id table
  | .utcNow, input, table =>
      match input.fortune with
      | .crashes _ => (none, table)
      | _ => (some input.clock, table)
  | .loadCooldowns ips vendors, input, table =>
      onTable input.fortune (fun table => (ips.flatMap fun ip => vendors.map fun vendor =>
        (ip, vendor)).filterMap fun pair =>
          (latestOf table.rows pair.1 pair.2).map fun latest => (pair, latest)) id table
  | .readScore _, input, table => onTable input.fortune (fun _ => input.score) id table
  | .latestSuccess ip vendor, input, table =>
      onTable input.fortune (fun table => latestOf table.rows ip vendor) id table
  | .successCount vendor cutoff, input, table =>
      onTable input.fortune (fun table => table.rows.countP fun row =>
        row.vendor = vendor ∧ row.success ∧ cutoff < row.submittedAt) id table
  | .protocolLabels _, input, table => onTable input.fortune (fun _ => input.labels) id table
  | .insertRow ip vendor key report, input, table =>
      onTable input.fortune
        (fun table => !table.rows.any fun stored => stored.idempotencyKey = key)
        (insertSubmission (pendingRow ip vendor key report input.clock)) table
  | .priorOutcome key, input, table =>
      onTable input.fortune (fun table =>
        (table.rows.find? fun row => row.idempotencyKey = key).map fun row =>
          (row.success, row.responseStatus)) id table
  | .submit vendor date report, input, table =>
      let called : SubmissionTable := { table with calls := table.calls ++
        [{ sourceIp := report.sourceIp, vendor, date, accepted := isAccepted input.reply }] }
      match input.fortune with
      | .crashes applied => (none, if applied then called else table)
      | _ => (some input.reply, called)
  | .updateResult key status body success, input, table =>
      onTable input.fortune (fun _ => ()) (updateSubmission key status body success) table

end World

section Report

structure CodeSet where
  abuseipdb : String
  dshield : String
  otx : String

def protocolTable : List (String × CodeSet) :=
  [("ssh", ⟨"22", "ssh", "ssh-bruteforce"⟩), ("telnet", ⟨"23", "telnet", "telnet-bruteforce"⟩),
    ("ftp", ⟨"5", "ftp", "ftp-bruteforce"⟩)]

/-- `CATEGORY_TABLE`; `resolve` sends the two categories without a row to the one of `Ids`. -/
def categoryCodes : Category → CodeSet
  | .network => ⟨"14", "scan", "portscan"⟩
  | .waf => ⟨"21", "web", "web-attack"⟩
  | .ids | .honeypot | .auth => ⟨"15", "intrusion", "intrusion-attempt"⟩

/-- A known label decides whatever the category is. -/
def resolve (protocolLabel : Option String) (category : Category) : CodeSet :=
  (protocolLabel.bind fun label => protocolTable.lookup label).getD (categoryCodes category)

def categoriesForVendor (vendor : String) (protocolLabel : Option String) (category : Category) :
    List String :=
  let codes := resolve protocolLabel category
  if vendor = "dshield" then [codes.dshield]
  else if vendor = "otx" then [codes.otx]
  else [codes.abuseipdb]

def buildReport (forms : ReportForms) (ip : IpAddr) (score : IpScore)
    (labels : List (Category × Option String)) (vendor : String) : VendorReport where
  sourceIp := ip
  categories := (liveCategories score).foldl (fun codes category =>
    (categoriesForVendor vendor (labels.lookup category).join category).foldl
      (fun codes code => if code ∈ codes then codes else codes ++ [code]) codes) []
  comment := forms.comment ip score
  evidenceWindow := (score.firstSeen, score.lastSeen)

end Report

section Runner

/-- `"{source_ip}:{vendor}:{date}"`. -/
def idempotencyKey (forms : ReportForms) (ip : IpAddr) (vendor : String) (date : ℤ) : Bytes :=
  ipText ip ++ ofText ":" ++ ofText vendor ++ ofText ":" ++ forms.date date

inductive PendingClaim where
  | claimed | retryOfRecordedFailure | outcomeUnknown | alreadySucceeded
  deriving DecidableEq

/-- What a row that is already there says of the attempts under its key. -/
def PendingClaim.ofPrior : Option (Bool × Option ℤ) → PendingClaim
  | none => .outcomeUnknown
  | some (true, _) => .alreadySucceeded
  | some (false, none) => .outcomeUnknown
  | some (false, some _) => .retryOfRecordedFailure

def insertPending (ip : IpAddr) (vendor : String) (key : Bytes) (report : VendorReport) :
    Submitting (Except String PendingClaim) := do
  match ← call (SubmissionOp.insertRow ip vendor key report) with
  | .error text => return .error text
  | .ok true => return .ok .claimed
  | .ok false =>
      match ← call (SubmissionOp.priorOutcome key) with
      | .error text => return .error text
      | .ok prior => return .ok (.ofPrior prior)

def recordResult (key : Bytes) (status : Option ℤ) (body : String) (success : Bool) :
    Submitting (Except String Unit) :=
  call (SubmissionOp.updateResult key status body success)

/-- The status, the body and the success that are recorded for a reply. -/
def replyParts : Except VendorError VendorResponse → Option ℤ × String × Bool
  | .ok response => (some response.status, response.body, response.accepted)
  | .error (.transient status body) | .error (.permanent status body) =>
      (some status, body, false)

structure HeldBreakdown where
  allowlisted : ℕ
  noVendorConfig : ℕ
  reserved : ℕ
  disabled : ℕ
  stale : ℕ
  cooldown : ℕ
  rateLimit : ℕ
  scoreFloor : ℕ
  categoryFilter : ℕ
  dbError : ℕ
  deriving DecidableEq

def HeldBreakdown.record (held : HeldBreakdown) : GateReason → HeldBreakdown
  | .reserved => { held with reserved := held.reserved + 1 }
  | .disabled => { held with disabled := held.disabled + 1 }
  | .stale => { held with stale := held.stale + 1 }
  | .cooldown => { held with cooldown := held.cooldown + 1 }
  | .rateLimit => { held with rateLimit := held.rateLimit + 1 }
  | .scoreFloor => { held with scoreFloor := held.scoreFloor + 1 }
  | .categoryFilter => { held with categoryFilter := held.categoryFilter + 1 }
  | .dbError _ => { held with dbError := held.dbError + 1 }

structure SubmitResult where
  submitted : ℕ
  held : ℕ
  failed : ℕ
  unresolved : ℕ
  heldBy : HeldBreakdown
  deriving DecidableEq

def SubmitResult.empty : SubmitResult :=
  ⟨0, 0, 0, 0, ⟨0, 0, 0, 0, 0, 0, 0, 0, 0, 0⟩⟩

/-- The runner: the names of its adapters, their gate configurations and the allowlist. -/
structure SubmissionRunner where
  vendors : List String
  gatekeeperConfig : List VendorConfig
  allowlist : IpAddr → Bool

variable (forms : ReportForms) (runner : SubmissionRunner)

/-- The call under a claimed key and the record of its outcome, which may get lost. -/
def callVendor (key : Bytes) (vendor : String) (today : ℤ) (report : VendorReport)
    (result : SubmitResult) : Submitting SubmitResult := do
  let reply ← call (SubmissionOp.submit vendor today report)
  let parts := replyParts reply
  let _ ← recordResult key parts.1 parts.2.1 parts.2.2
  if parts.2.2 then return { result with submitted := result.submitted + 1 }
  else return { result with failed := result.failed + 1 }

/-- A pair that has passed its gate: claim the key, call the vendor, record the outcome. -/
def attemptSubmission (ip : IpAddr) (vendor : String) (today : ℤ) (report : VendorReport)
    (result : SubmitResult) : Submitting SubmitResult := do
  let key := idempotencyKey forms ip vendor today
  match ← insertPending ip vendor key report with
  | .error _ => return result
  | .ok .claimed | .ok .retryOfRecordedFailure => callVendor key vendor today report result
  | .ok .outcomeUnknown | .ok .alreadySucceeded =>
      return { result with unresolved := result.unresolved + 1 }

/-- `category_protocol_labels`, unless it was read for this address before. -/
def labelsOf (ip : IpAddr) (known : Option (List (Category × Option String))) :
    Submitting (Except String (List (Category × Option String))) :=
  match known with
  | some labels => pure (.ok labels)
  | none => call (SubmissionOp.protocolLabels ip)

/-- The vendors of one address.  The labels are read once, when the first gate passes; a failed
lookup ends the address. -/
def submitToVendors (book : Option CooldownBook) (today : ℤ) (ip : IpAddr) (score : IpScore) :
    List String → Option (List (Category × Option String)) → SubmitResult →
    Submitting SubmitResult
  | [], _, result => return result
  | vendor :: rest, known, result => do
      match runner.gatekeeperConfig.find? fun config => config.name = vendor with
      | none =>
          submitToVendors book today ip score rest known
            { result with held := result.held + 1, heldBy :=
                { result.heldBy with noVendorConfig := result.heldBy.noVendorConfig + 1 } }
      | some config =>
          match ← checkWith ip config score book with
          | .held reason =>
              submitToVendors book today ip score rest known
                { result with held := result.held + 1, heldBy := result.heldBy.record reason }
          | .pass =>
              match ← labelsOf ip known with
              | .error _ => return result
              | .ok labels =>
                  let report := buildReport forms ip score labels vendor
                  let result ← attemptSubmission forms ip vendor today report result
                  submitToVendors book today ip score rest (some labels) result

def submitApproved (book : Option CooldownBook) (today : ℤ) :
    List IpAddr → SubmitResult → Submitting SubmitResult
  | [], result => return result
  | ip :: rest, result => do
      if runner.allowlist ip then
        submitApproved book today rest
          { result with held := result.held + runner.vendors.length, heldBy :=
              { result.heldBy with
                allowlisted := result.heldBy.allowlisted + runner.vendors.length } }
      else
        match ← call (SubmissionOp.readScore ip) with
        | .error _ | .ok none => submitApproved book today rest result
        | .ok (some score) =>
            let result ← submitToVendors forms runner book today ip score runner.vendors none result
            submitApproved book today rest result

/-- A failed load leaves the gates to query pair by pair. -/
def loadCooldowns (approved : List IpAddr) : Submitting (Option CooldownBook) := do
  match ← CooldownBook.load (approved.filter fun ip => !runner.allowlist ip) runner.vendors with
  | .error _ => return none
  | .ok book => return some book

def runOnce : Submitting (Except String SubmitResult) := do
  match ← call SubmissionOp.listApproved with
  | .error text => return .error text
  | .ok approved =>
      let now ← call SubmissionOp.utcNow
      let book ← loadCooldowns runner approved
      let result ← submitApproved forms runner book (dateNaive now) approved .empty
      return .ok result

end Runner

end Propolis
