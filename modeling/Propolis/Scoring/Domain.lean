import Mathlib.Algebra.Order.Ring.Rat
import Mathlib.Tactic.SplitIfs
import Mathlib.Tactic.Push

/-!
# Events and projections

The domain types of the scoring crate (`domain/enums.rs`, `domain/weights.rs`,
`domain/types.rs`).  An `EventInput` is one sighting of a source address; an
`IpScore` is the projection the engine folds a source's sightings into.

A score, a weight or a confidence inside the projection is a `Decimal` of the
source and a rational number here: the engine only adds, multiplies, compares
and decays it.  The `confidence` of an event keeps its scale as well, because
the ledger hashes its text and `0.9` and `0.900` are different texts.  A
`DateTime<Utc>` is the integer number of nanoseconds since the epoch, so that
truncation to seconds, microseconds and UTC days is integer division.
-/

namespace Propolis

/-- `std::net::IpAddr`; an IPv6 address by its eight 16-bit segments. -/
inductive IpAddr where
  | v4 (a b c d : UInt8)
  | v6 (s0 s1 s2 s3 s4 s5 s6 s7 : UInt16)
  deriving DecidableEq, Repr

/-- `(later - earlier).num_seconds()`, which truncates toward zero. -/
def secondsSince (later earlier : ℤ) : ℤ :=
  (later - earlier).tdiv 1000000000

/-- `date_naive()`: the UTC calendar day, as a count of days since the epoch. -/
def dateNaive (time : ℤ) : ℤ :=
  time / 86400000000000

/-- `trunc_subsecs(6)`: the nanoseconds below the microsecond are dropped. -/
def truncSubsecs (time : ℤ) : ℤ :=
  time - time % 1000

/-- Splitting an interval can only lose whole seconds: each part truncates its own rest. -/
theorem secondsSince_add_le {first middle last : ℤ}
    (firstLe : first ≤ middle) (middleLe : middle ≤ last) :
    secondsSince middle first + secondsSince last middle ≤ secondsSince last first := by
  unfold secondsSince
  rw [Int.tdiv_eq_ediv_of_nonneg (by omega), Int.tdiv_eq_ediv_of_nonneg (by omega),
    Int.tdiv_eq_ediv_of_nonneg (by omega)]
  omega

theorem secondsSince_nonneg {later earlier : ℤ} (order : earlier ≤ later) :
    0 ≤ secondsSince later earlier :=
  Int.tdiv_nonneg (by omega) (by omega)

/-- A `Decimal`: a mantissa and the number of decimal places.  A zero carries no sign. -/
structure Decimal where
  mantissa : ℤ
  scale : ℕ
  deriving DecidableEq, Repr

namespace Decimal

/-- The number a decimal denotes; the source compares decimals by it. -/
def value (decimal : Decimal) : ℚ :=
  decimal.mantissa / 10 ^ decimal.scale

/--
`Decimal::rescale`: pads with zeros, or drops digits and rounds half away from
zero on the last digit dropped.
-/
def rescale (decimal : Decimal) (scale : ℕ) : Decimal :=
  if decimal.scale ≤ scale then
    ⟨decimal.mantissa * 10 ^ (scale - decimal.scale), scale⟩
  else
    let dropped := decimal.scale - scale
    let magnitude := decimal.mantissa.natAbs
    let kept := magnitude / 10 ^ dropped
    let remainder := magnitude / 10 ^ (dropped - 1) % 10
    let rounded := if 5 ≤ remainder then kept + 1 else kept
    ⟨decimal.mantissa.sign * rounded, scale⟩

@[simp]
theorem rescale_scale (decimal : Decimal) (scale : ℕ) :
    (decimal.rescale scale).scale = scale := by
  unfold rescale
  split <;> rfl

theorem rescale_of_scale_eq {decimal : Decimal} {scale : ℕ} (same : decimal.scale = scale) :
    decimal.rescale scale = decimal := by
  subst same
  simp [rescale]

end Decimal

inductive Protocol where
  | tcp | udp | icmp
  deriving DecidableEq, Repr

inductive Category where
  | honeypot | ids | network | waf | auth
  deriving DecidableEq, Repr

/-- Every category, in the order a `BTreeMap` over them is walked. -/
def Category.all : List Category :=
  [.honeypot, .ids, .network, .waf, .auth]

inductive FeedTier where
  | aggressive | standard
  deriving DecidableEq, Repr

inductive SignalType where
  | honeypotConnection | honeypotLoginAttempt | honeypotCommandExec | honeypotMalwareUpload
  | honeypotFileDownload | suricataSev1 | suricataSev2 | suricataSev3 | portScan | synFlood
  | blockedConnection | wafSqliXss | wafGenericBlock | sshBruteForce | catchallProbe
  | remoteAuthFailure | honeypotSessionEnd
  deriving DecidableEq, Repr

/-- Signals recorded in the ledger that must never move a score. -/
def SignalType.isTelemetry (signal : SignalType) : Bool :=
  signal == .honeypotSessionEnd

def isConfirmedReal (protocol : Protocol) (authenticated : Bool) (category : Category) : Bool :=
  protocol == .tcp && authenticated && category == .honeypot

structure SignalWeight where
  weight : ℕ
  confidence : Decimal
  category : Category
  deriving DecidableEq, Repr

/-- The signal weight table. -/
def signalWeight : SignalType → SignalWeight
  | .honeypotConnection => ⟨40, ⟨900, 3⟩, .honeypot⟩
  | .honeypotLoginAttempt => ⟨50, ⟨920, 3⟩, .honeypot⟩
  | .honeypotCommandExec => ⟨60, ⟨950, 3⟩, .honeypot⟩
  | .honeypotMalwareUpload => ⟨80, ⟨980, 3⟩, .honeypot⟩
  | .honeypotFileDownload => ⟨70, ⟨960, 3⟩, .honeypot⟩
  | .suricataSev1 => ⟨30, ⟨700, 3⟩, .ids⟩
  | .suricataSev2 => ⟨15, ⟨500, 3⟩, .ids⟩
  | .suricataSev3 => ⟨5, ⟨300, 3⟩, .ids⟩
  | .portScan => ⟨20, ⟨600, 3⟩, .network⟩
  | .synFlood => ⟨25, ⟨700, 3⟩, .network⟩
  | .blockedConnection => ⟨3, ⟨150, 3⟩, .network⟩
  | .wafSqliXss => ⟨35, ⟨850, 3⟩, .waf⟩
  | .wafGenericBlock => ⟨15, ⟨500, 3⟩, .waf⟩
  | .sshBruteForce => ⟨20, ⟨600, 3⟩, .auth⟩
  | .catchallProbe => ⟨15, ⟨400, 3⟩, .network⟩
  | .remoteAuthFailure => ⟨12, ⟨400, 3⟩, .auth⟩
  | .honeypotSessionEnd => ⟨0, ⟨0, 3⟩, .honeypot⟩

theorem signalWeight_le (signal : SignalType) : (signalWeight signal).weight ≤ 80 := by
  cases signal <;> decide

theorem signalWeight_confidence_mem (signal : SignalType) :
    0 ≤ (signalWeight signal).confidence.value ∧ (signalWeight signal).confidence.value ≤ 1 := by
  cases signal <;> decide +kernel

/-- A number of `serde_json`: floats are kept by their bits. -/
inductive JsonNumber where
  | posInt (value : UInt64)
  | negInt (value : Int64)
  | float (bits : UInt64)
  deriving DecidableEq, Repr

/-- `serde_json::Value`; the fields of an object stand in key order. -/
inductive Json where
  | null
  | bool (value : Bool)
  | number (value : JsonNumber)
  | string (value : String)
  | array (items : List Json)
  | object (fields : List (String × Json))

namespace Json

/-- `Value::get(key)`: the field of an object; nothing else has one. -/
def get (key : String) : Json → Option Json
  | .object fields => fields.lookup key
  | _ => none

def asU64 : Json → Option ℕ
  | .number (.posInt value) => some value.toNat
  | _ => none

def isTrue : Json → Bool
  | .bool true => true
  | _ => false

end Json

/-- One sighting, before the repository normalizes and stores it. -/
structure EventInput where
  sourceIp : IpAddr
  wanIp : Option IpAddr
  sensor : String
  signalType : SignalType
  protocol : Protocol
  authenticated : Bool
  category : Category
  weight : ℕ
  confidence : Decimal
  observedAt : ℤ
  metadata : Json
  sessionId : Option (BitVec 128)

inductive ValidationError where
  | confidenceOutOfRange | sensorEmpty | signalTypeMismatch
  deriving DecidableEq, Repr

namespace EventInput

/-- Builds an event whose weight, confidence and category come from the table. -/
def fromSignal (sourceIp : IpAddr) (wanIp : Option IpAddr) (sensor : String)
    (signalType : SignalType) (protocol : Protocol) (authenticated : Bool)
    (observedAt : ℤ) (metadata : Json) (sessionId : Option (BitVec 128)) : EventInput :=
  let row := signalWeight signalType
  { sourceIp, wanIp, sensor, signalType, protocol, authenticated,
    category := row.category, weight := row.weight, confidence := row.confidence,
    observedAt, metadata, sessionId }

def validate (event : EventInput) : Except ValidationError Unit :=
  if event.confidence.value < 0 ∨ 1 < event.confidence.value then
    .error .confidenceOutOfRange
  else if event.sensor = "" then
    .error .sensorEmpty
  else
    let row := signalWeight event.signalType
    if event.category ≠ row.category ∨ event.weight ≠ row.weight ∨
        event.confidence.value ≠ row.confidence.value then
      .error .signalTypeMismatch
    else
      .ok ()

/-- The event passes `validate`. -/
def Valid (event : EventInput) : Prop :=
  event.validate = .ok ()

instance (event : EventInput) : Decidable event.Valid :=
  inferInstanceAs (Decidable (event.validate = .ok ()))

/-- What a validated event agrees on with the weight table. -/
theorem valid_iff (event : EventInput) :
    event.Valid ↔
      (0 ≤ event.confidence.value ∧ event.confidence.value ≤ 1) ∧ event.sensor ≠ "" ∧
        event.category = (signalWeight event.signalType).category ∧
        event.weight = (signalWeight event.signalType).weight ∧
        event.confidence.value = (signalWeight event.signalType).confidence.value := by
  unfold Valid validate
  dsimp only
  split_ifs with outOfRange empty mismatch
  · simp only [false_iff]
    rintro ⟨⟨lower, upper⟩, -⟩
    rcases outOfRange with below | above
    · exact absurd lower (not_le.mpr below)
    · exact absurd upper (not_le.mpr above)
  · simp [empty]
  · simp only [false_iff]
    rintro ⟨-, -, category, weight, confidence⟩
    rcases mismatch with wrong | wrong | wrong
    · exact wrong category
    · exact wrong weight
    · exact wrong confidence
  · push Not at outOfRange mismatch
    simp only [true_iff]
    exact ⟨outOfRange, empty, mismatch⟩

/-- Every event built from the weight table passes its own check, given a sensor name. -/
theorem fromSignal_valid {sensor : String} (named : sensor ≠ "") (sourceIp : IpAddr)
    (wanIp : Option IpAddr) (signalType : SignalType) (protocol : Protocol)
    (authenticated : Bool) (observedAt : ℤ) (metadata : Json)
    (sessionId : Option (BitVec 128)) :
    (fromSignal sourceIp wanIp sensor signalType protocol authenticated observedAt metadata
      sessionId).Valid := by
  rw [valid_iff]
  exact ⟨signalWeight_confidence_mem signalType, named, rfl, rfl, rfl⟩

end EventInput

/-- The accumulator of one category inside a projection. -/
structure CategoryStat where
  weight : ℚ
  maxConfidence : ℚ
  deriving DecidableEq, Repr

/-- `category_breakdown`, as the map the engine reads out of its JSON. -/
abbrev CategoryBreakdown := Category → Option CategoryStat

/-- The projection of one source, mirroring the columns of `ip_score`. -/
structure IpScore where
  sourceIp : IpAddr
  rawScore : ℚ
  decayAnchor : ℤ
  maxConfidence : ℚ
  eventCount : ℤ
  establishedEventCount : ℤ
  distinctCategories : ℤ
  categoryBreakdown : CategoryBreakdown
  hasConfirmedReal : Bool
  distinctWanCount : ℤ
  distinctSensorCount : ℤ
  activeDays : ℤ
  lastActiveDay : ℤ
  firstSeen : ℤ
  lastSeen : ℤ
  eligible : Bool
  recommendedForVendor : Bool
  recommendedForBlocklist : Bool
  tier : Option FeedTier
  delisted : Bool

end Propolis
