import Propolis.Ledger.AddressText
import Propolis.Lib.Process
import Propolis.Net.Reserved

/-!
# The gatekeeper

The ordered check sequence a submission passes (`gatekeeper.rs`), over the statements
a submission pass makes.  Reads of other tables answer with what the input of the
statement holds; `vendor_submission` is the state.  A statement may fail, with or
without having been applied, and the process may be gone after it.
-/

namespace Propolis

open Interaction

structure VendorConfig where
  name : String
  enabled : Bool
  cooldownHours : ℕ
  rateLimit : ℕ
  rateWindowHours : ℕ
  scoreFloor : Option ℚ
  categoryFilter : Option (List String)

inductive GateReason where
  | reserved | disabled | stale | cooldown | rateLimit | scoreFloor | categoryFilter
  | dbError (text : String)
  deriving DecidableEq

inductive GateResult where
  | pass
  | held (reason : GateReason)
  deriving DecidableEq

structure VendorReport where
  sourceIp : IpAddr
  categories : List String
  comment : String
  evidenceWindow : ℤ × ℤ

structure VendorResponse where
  status : ℕ
  body : String
  accepted : Bool

inductive VendorError where
  | transient (status : ℕ) (body : String)
  | permanent (status : ℕ) (body : String)

/-- A row of `vendor_submission`. -/
structure VendorSubmission where
  sourceIp : IpAddr
  vendor : String
  idempotencyKey : Bytes
  categories : List String
  comment : String
  submittedAt : ℤ
  responseStatus : Option ℤ
  responseBody : Option String
  success : Bool

/-- A call of `adapter.submit` and whether the vendor accepted it.  The date is the one of the
idempotency key the call is made under. -/
structure SubmitCall where
  sourceIp : IpAddr
  vendor : String
  date : ℤ
  accepted : Bool
  deriving DecidableEq

structure SubmissionTable where
  rows : List VendorSubmission
  calls : List SubmitCall

/-- What a submission pass asks of the world. -/
inductive SubmissionOp where
  | listApproved
  | utcNow
  | loadCooldowns (ips : List IpAddr) (vendors : List String)
  | readScore (ip : IpAddr)
  | latestSuccess (ip : IpAddr) (vendor : String)
  | successCount (vendor : String) (cutoff : ℤ)
  | protocolLabels (ip : IpAddr)
  | insertRow (ip : IpAddr) (vendor : String) (key : Bytes) (report : VendorReport)
  | priorOutcome (key : Bytes)
  | submit (vendor : String) (date : ℤ) (report : VendorReport)
  | updateResult (key : Bytes) (status : Option ℤ) (body : String) (success : Bool)

/-- Statements answer with a database error or with what they return. -/
@[reducible]
def SubmissionOp.Answer : SubmissionOp → Type
  | .listApproved => Except String (List IpAddr)
  | .utcNow => ℤ
  | .loadCooldowns _ _ => Except String (List ((IpAddr × String) × ℤ))
  | .readScore _ => Except String (Option IpScore)
  | .latestSuccess _ _ => Except String (Option ℤ)
  | .successCount _ _ => Except String ℕ
  | .protocolLabels _ => Except String (List (Category × Option String))
  | .insertRow _ _ _ _ => Except String Bool
  | .priorOutcome _ => Except String (Option (Bool × Option ℤ))
  | .submit _ _ _ => Except VendorError VendorResponse
  | .updateResult _ _ _ _ => Except String Unit

/-- What becomes of an operation: an error or a crash may come before or after it was applied. -/
inductive Fortune where
  | succeeds
  | fails (text : String) (applied : Bool)
  | crashes (applied : Bool)

/-- The world at one operation: its fate, and what other tables, the vendor and the clock hold. -/
structure SubmissionInput where
  fortune : Fortune
  approved : List IpAddr
  score : Option IpScore
  labels : List (Category × Option String)
  reply : Except VendorError VendorResponse
  clock : ℤ

abbrev Submitting := Process SubmissionOp SubmissionOp.Answer

/-- When the latest successful submission of the pair was made. -/
def latestOf (rows : List VendorSubmission) (ip : IpAddr) (vendor : String) : Option ℤ :=
  ((rows.filter fun row => row.sourceIp = ip ∧ row.vendor = vendor ∧ row.success).map
    (·.submittedAt)).max?

section Checks

open Process

structure CooldownBook where
  coveredIps : List IpAddr
  coveredVendors : List String
  latest : List ((IpAddr × String) × ℤ)

/-- `CooldownBook::load`: one query, none for an empty set of pairs. -/
def CooldownBook.load (ips : List IpAddr) (vendors : List String) :
    Submitting (Except String CooldownBook) := do
  if ips.isEmpty ∨ vendors.isEmpty then
    return .ok { coveredIps := ips, coveredVendors := vendors, latest := [] }
  else
    match ← call (SubmissionOp.loadCooldowns ips vendors) with
    | .error text => return .error text
    | .ok rows => return .ok { coveredIps := ips, coveredVendors := vendors, latest := rows }

/-- `none` where the book does not cover the pair. -/
def CooldownBook.latestSuccess (book : CooldownBook) (ip : IpAddr) (vendor : String) :
    Option (Option ℤ) :=
  if ip ∈ book.coveredIps ∧ vendor ∈ book.coveredVendors then some (book.latest.lookup (ip, vendor))
  else none

/-- `Duration::hours`, in nanoseconds. -/
def hours (count : ℕ) : ℤ :=
  count * 3600000000000

def freshnessWindowHours : ℕ := 48

def Category.name : Category → String
  | .honeypot => "Honeypot"
  | .ids => "Ids"
  | .network => "Network"
  | .waf => "Waf"
  | .auth => "Auth"

/-- The keys of `category_breakdown`, in their order. -/
def liveCategories (score : IpScore) : List Category :=
  Category.all.filter fun category => (score.categoryBreakdown category).isSome

def categoryMatches (score : IpScore) (accepted : List String) : Bool :=
  (liveCategories score).any fun category => accepted.contains category.name

/-- The pair's latest success, from the book where it covers the pair. -/
def mostRecentSuccess (ip : IpAddr) (config : VendorConfig) (book : Option CooldownBook) :
    Submitting (Except String (Option ℤ)) :=
  match book.bind fun book => book.latestSuccess ip config.name with
  | some latest => pure (.ok latest)
  | none => call (SubmissionOp.latestSuccess ip config.name)

def checkCooldown (ip : IpAddr) (config : VendorConfig) (book : Option CooldownBook) :
    Submitting (Except GateReason Unit) := do
  match ← mostRecentSuccess ip config book with
  | .error text => return .error (.dbError text)
  | .ok none => return .ok ()
  | .ok (some last) =>
      let now ← call SubmissionOp.utcNow
      if now - last < hours config.cooldownHours then return .error .cooldown
      else return .ok ()

def checkRateLimit (config : VendorConfig) : Submitting (Except GateReason Unit) := do
  let now ← call SubmissionOp.utcNow
  match ← call (SubmissionOp.successCount config.name (now - hours config.rateWindowHours)) with
  | .error text => return .error (.dbError text)
  | .ok count =>
      if config.rateLimit ≤ count then return .error .rateLimit
      else return .ok ()

/-- The checks in their order; the first that holds the submission decides. -/
def checkWith (ip : IpAddr) (config : VendorConfig) (score : IpScore)
    (book : Option CooldownBook) : Submitting GateResult := do
  if isReservedIp ip then return .held .reserved
  else if config.enabled = false then return .held .disabled
  else
    let now ← call SubmissionOp.utcNow
    if hours freshnessWindowHours < now - score.lastSeen then return .held .stale
    else
      match ← checkCooldown ip config book with
      | .error reason => return .held reason
      | .ok _ =>
          match ← checkRateLimit config with
          | .error reason => return .held reason
          | .ok _ =>
              if config.scoreFloor.any fun floor => score.rawScore < floor then
                return .held .scoreFloor
              else if config.categoryFilter.any fun accepted => !categoryMatches score accepted then
                return .held .categoryFilter
              else return .pass

end Checks

end Propolis
