import Propolis.Scoring.Domain
import Mathlib.Data.Finset.Card
import Mathlib.Data.Finset.Image

/-!
# The projection engine

The pure scoring functions (`scoring/breadth.rs`, `scoring/tier.rs`,
`scoring/eligibility.rs`, `scoring/persistence.rs`, `scoring/engine.rs`).
`applyEvent` folds one event into a projection and `projectToNow` reads a stored
projection at a later time; both end in `deriveProjection`, the only place where
a gate flag is computed.

`decay` multiplies by a power of one half taken in floating point.  It is a
parameter of the engine here, together with what the engine relies on
(`DecayLaws`); the results that do not mention those laws hold for any function.
-/

namespace Propolis

def halfLifeSeconds : ℤ := 21600

def dedupWindowSeconds : ℤ := 60

def scoreCap : ℚ := 100

def breadthPerWan : ℚ := 15 / 100

def breadthCap : ℚ := 60 / 100

def blocklistFloor : ℚ := 50

def persistPerDay : ℚ := 55 / 100

def persistGraceDays : ℤ := 2

def persistCap : ℚ := 60

def volumeListThreshold : ℕ := 1000

def volumeListWindowSeconds : ℤ := 86400

def eventSummaryKey : String := "event_summary"

def overflowSummaryKey : String := "overflow_summary"

def maxSummaryEvents : ℕ := 1000000

def i32Max : ℤ := 2147483647

/-- `i32::saturating_add`. -/
def saturatingAdd (left right : ℤ) : ℤ :=
  max (-2147483648) (min i32Max (left + right))

/-- The cast of an `i32` to `u32`. -/
def asU32 (count : ℤ) : ℕ :=
  (count % 4294967296).toNat

/-- One vantage point's observation of a WAN address. -/
structure WanVantage where
  wanIp : IpAddr
  sawAuthenticatedTcp : Bool
  deriving DecidableEq, Repr

/-- The /24 of an IPv4 address, the /64 of an IPv6 address. -/
def dedupePrefix : IpAddr → IpAddr
  | .v4 a b c _ => .v4 a b c 0
  | .v6 s0 s1 s2 s3 _ _ _ _ => .v6 s0 s1 s2 s3 0 0 0 0

/-- Distinct prefixes among the authenticated vantages. -/
def distinctWanCount (vantages : Finset WanVantage) : ℕ :=
  ((vantages.filter (·.sawAuthenticatedTcp)).image (dedupePrefix ·.wanIp)).card

def breadthFactor (distinctWanCount : ℕ) : ℚ :=
  1 + min breadthCap (breadthPerWan * (distinctWanCount - 1 : ℕ))

def effectiveScore (rawScore : ℚ) (distinctWanCount : ℕ) : ℚ :=
  min scoreCap (rawScore * breadthFactor distinctWanCount)

def persistencePoints (activeDays : ℤ) : ℚ :=
  let beyondGrace := max (activeDays - persistGraceDays) 0
  min persistCap (persistPerDay * beyondGrace)

def isEligible (hasConfirmedReal : Bool) (eventCount _distinctCategories : ℕ)
    (delisted : Bool) : Bool :=
  !delisted && hasConfirmedReal && decide (2 ≤ eventCount)

def feedTier (rawScore maxConfidence : ℚ) : Option FeedTier :=
  if 90 ≤ rawScore ∧ 95 / 100 ≤ maxConfidence then
    some .aggressive
  else if 75 ≤ rawScore ∧ 70 / 100 ≤ maxConfidence then
    some .standard
  else
    none

def recommendedForVendor (eligible : Bool) (tier : Option FeedTier) : Bool :=
  eligible && tier.isSome

def recommendedForBlocklist (eligible : Bool) (effectiveScore : ℚ) : Bool :=
  eligible && decide (blocklistFloor ≤ effectiveScore)

def recommendedByVolume (delisted : Bool) (eventCount : ℕ) (secondsSinceLastSeen : ℤ) : Bool :=
  !delisted && decide (volumeListThreshold ≤ eventCount) &&
    decide (secondsSinceLastSeen ≤ volumeListWindowSeconds)

def liveFloor : ℚ := 1 / 2

/-- The metadata field `key` is the JSON value `true`. -/
def EventInput.flagged (event : EventInput) (key : String) : Bool :=
  (event.metadata.get key).any Json.isTrue

/-- The event stands for many addresses but carries one of them as its source. -/
def isUnattributedSummary (event : EventInput) : Bool :=
  event.flagged overflowSummaryKey

/-- How many sightings the event counts as. -/
def representedEvents (event : EventInput) : ℤ :=
  let isSummary :=
    (event.signalType == .honeypotConnection || event.signalType == .honeypotLoginAttempt) &&
      event.flagged eventSummaryKey && !event.flagged overflowSummaryKey
  let counted :=
    if isSummary then (event.metadata.get "suppressed_count").bind Json.asU64 else none
  match counted.filter (0 < ·) with
  | some count => min count maxSummaryEvents
  | none => 1

/-- A summary of connections or logins of one address counts as its `suppressed_count`, clamped; any
other event counts as one. -/
theorem representedEvents_eq (event : EventInput) : representedEvents event =
    if (event.signalType = .honeypotConnection ∨ event.signalType = .honeypotLoginAttempt) ∧
        event.flagged eventSummaryKey = true ∧ event.flagged overflowSummaryKey = false then
      max (1 : ℤ) (min (((event.metadata.get "suppressed_count").bind Json.asU64).getD 1)
        maxSummaryEvents)
    else 1 := by
  unfold representedEvents
  simp only [Bool.and_eq_true, Bool.or_eq_true, beq_iff_eq, Bool.not_eq_true', and_assoc]
  split_ifs
  · cases (event.metadata.get "suppressed_count").bind Json.asU64 with
    | none => rfl
    | some count => cases count <;> simp [Option.filter, maxSummaryEvents]
  · rfl

theorem representedEvents_pos (event : EventInput) : 1 ≤ representedEvents event := by
  rw [representedEvents_eq]
  split_ifs
  · exact le_max_left _ _
  · rfl

/-- Every derived fact over an already decayed breakdown and raw score. -/
def deriveProjection (sourceIp : IpAddr) (rawScore : ℚ) (breakdown : CategoryBreakdown)
    (hasConfirmedReal : Bool)
    (eventCount establishedEventCount distinctWanCount distinctSensorCount : ℤ)
    (activeDays lastActiveDay firstSeen lastSeen decayAnchor : ℤ) (delisted : Bool) : IpScore :=
  let live := (Category.all.filterMap breakdown).filter (liveFloor < ·.weight)
  let distinctCategories : ℤ := live.length
  let maxConfidence := ((live.map (·.maxConfidence)).max?).getD 0
  let eligible :=
    isEligible hasConfirmedReal (asU32 eventCount) (asU32 distinctCategories) delisted
  let gatedRaw := min scoreCap (rawScore + persistencePoints activeDays)
  let effective := effectiveScore gatedRaw (asU32 distinctWanCount)
  let tier := feedTier gatedRaw maxConfidence
  let secondsSinceLastSeen := secondsSince decayAnchor lastSeen
  { sourceIp, rawScore, decayAnchor, maxConfidence, eventCount, establishedEventCount,
    distinctCategories, categoryBreakdown := breakdown, hasConfirmedReal, distinctWanCount,
    distinctSensorCount, activeDays, lastActiveDay, firstSeen, lastSeen, eligible,
    recommendedForVendor := recommendedForVendor eligible tier
    recommendedForBlocklist := recommendedForBlocklist eligible effective ||
      recommendedByVolume delisted (asU32 establishedEventCount) secondsSinceLastSeen
    tier, delisted }

/--
What the engine relies on of `decay`: the clamp of non-positive elapsed times,
that a value never grows, and that two decays in a row are one.  The scores it
is given are never negative.
-/
structure DecayLaws (decay : ℚ → ℤ → ℤ → ℚ) : Prop where
  clamp : ∀ value elapsed halfLife, elapsed ≤ 0 → decay value elapsed halfLife = value
  le_self : ∀ value elapsed halfLife, decay value elapsed halfLife ≤ value
  antitone : ∀ value first second halfLife, first ≤ second →
    decay value second halfLife ≤ decay value first halfLife
  monotone : ∀ lower upper elapsed halfLife, lower ≤ upper →
    decay lower elapsed halfLife ≤ decay upper elapsed halfLife
  decay_decay : ∀ value first second halfLife, 0 ≤ first → 0 ≤ second →
    decay (decay value first halfLife) second halfLife = decay value (first + second) halfLife

section Fold

variable (decay : ℚ → ℤ → ℤ → ℚ) {sightings : List Sighting}

/-- Decays each category's weight; the confidences do not decay. -/
def decayBreakdown (breakdown : CategoryBreakdown) (elapsed halfLife : ℤ) : CategoryBreakdown :=
  fun category =>
    (breakdown category).map fun stat => { stat with weight := decay stat.weight elapsed halfLife }

/-- The prior state `applyEvent` starts from, seeded or decayed to the event's time. -/
structure PriorState where
  decayedRaw : ℚ
  breakdown : CategoryBreakdown
  firstSeen : ℤ
  eventCount : ℤ
  establishedEventCount : ℤ
  hasConfirmedReal : Bool
  delisted : Bool
  activeDays : ℤ
  lastActiveDay : Option ℤ

def priorState (prev : Option IpScore) (now halfLife : ℤ) : PriorState :=
  match prev with
  | none =>
      { decayedRaw := 0, breakdown := fun _ => none, firstSeen := now, eventCount := 0,
        establishedEventCount := 0, hasConfirmedReal := false, delisted := false,
        activeDays := 0, lastActiveDay := none }
  | some stored =>
      let elapsed := secondsSince now stored.decayAnchor
      { decayedRaw := decay stored.rawScore elapsed halfLife
        breakdown := decayBreakdown decay stored.categoryBreakdown elapsed halfLife
        firstSeen := stored.firstSeen
        eventCount := stored.eventCount
        establishedEventCount := stored.establishedEventCount
        hasConfirmedReal := stored.hasConfirmedReal
        delisted := stored.delisted
        activeDays := stored.activeDays
        lastActiveDay := some stored.lastActiveDay }

/-- The distinct-active-day counter and the last day it counted. -/
def countActiveDay (activeDays : ℤ) (lastActiveDay : Option ℤ) (eventDay : ℤ) : ℤ × ℤ :=
  match lastActiveDay with
  | none => (1, eventDay)
  | some last => (if last < eventDay then activeDays + 1 else activeDays, max last eventDay)

/-- Adds the event's weight and confidence to its category. -/
def contribute (breakdown : CategoryBreakdown) (event : EventInput) : CategoryBreakdown :=
  fun category =>
    if category = event.category then
      let entry := (breakdown category).getD ⟨0, 0⟩
      some
        { weight := entry.weight + event.weight
          maxConfidence :=
            if entry.maxConfidence < event.confidence.value then event.confidence.value
            else entry.maxConfidence }
    else
      breakdown category

/-- Folds `event` into `prev`, returning the projection anchored at the event's time. -/
def applyEvent (prev : Option IpScore) (event : EventInput) (halfLife : ℤ) (deduped : Bool)
    (distinctWanCount distinctSensorCount : ℤ) : IpScore :=
  let now := event.observedAt
  let prior := priorState decay prev now halfLife
  let days := countActiveDay prior.activeDays prior.lastActiveDay (dateNaive now)
  let unattributed := isUnattributedSummary event
  let breakdown :=
    if deduped || unattributed then prior.breakdown else contribute prior.breakdown event
  let newRaw :=
    if deduped || unattributed then prior.decayedRaw
    else min scoreCap (prior.decayedRaw + event.weight)
  let hasConfirmedReal := prior.hasConfirmedReal ||
    (!unattributed && isConfirmedReal event.protocol event.authenticated event.category)
  let represented := representedEvents event
  let eventCount := saturatingAdd prior.eventCount represented
  let establishedEventCount :=
    if event.protocol = .tcp then saturatingAdd prior.establishedEventCount represented
    else prior.establishedEventCount
  deriveProjection event.sourceIp newRaw breakdown hasConfirmedReal eventCount
    establishedEventCount distinctWanCount distinctSensorCount days.1 days.2 prior.firstSeen now
    now prior.delisted

/-- Reads a stored projection at `now`: decays it and derives every flag again. -/
def projectToNow (stored : IpScore) (now halfLife : ℤ) : IpScore :=
  let elapsed := secondsSince now stored.decayAnchor
  deriveProjection stored.sourceIp (decay stored.rawScore elapsed halfLife)
    (decayBreakdown decay stored.categoryBreakdown elapsed halfLife) stored.hasConfirmedReal
    stored.eventCount stored.establishedEventCount stored.distinctWanCount
    stored.distinctSensorCount stored.activeDays stored.lastActiveDay stored.firstSeen
    stored.lastSeen now stored.delisted

/-- An event together with the inputs the repository computes for it. -/
structure Sighting where
  event : EventInput
  deduped : Bool
  distinctWanCount : ℤ
  distinctSensorCount : ℤ

def foldSighting (halfLife : ℤ) (prev : Option IpScore) (sighting : Sighting) : Option IpScore :=
  some (applyEvent decay prev sighting.event halfLife sighting.deduped
    sighting.distinctWanCount sighting.distinctSensorCount)

/-- The projection after folding the sightings in order, from no projection at all. -/
def foldSightings (halfLife : ℤ) (sightings : List Sighting) : Option IpScore :=
  sightings.foldl (foldSighting decay halfLife) none

@[simp]
theorem foldSightings_nil (halfLife : ℤ) : foldSightings decay halfLife [] = none := rfl

@[simp]
theorem foldSightings_append_singleton (halfLife : ℤ) (sightings : List Sighting)
    (sighting : Sighting) :
    foldSightings decay halfLife (sightings ++ [sighting]) =
      foldSighting decay halfLife (foldSightings decay halfLife sightings) sighting := by
  simp [foldSightings]

/-- Only the empty sequence leaves a source without a projection. -/
theorem foldSightings_eq_none {halfLife : ℤ}
    (absent : foldSightings decay halfLife sightings = none) : sightings = [] := by
  cases sightings using List.reverseRecOn with
  | nil => rfl
  | append_singleton =>
      simp [foldSighting] at absent

/--
Induction over a fold: what holds of the first projection and is kept by every
further event holds of the projection of any non-empty sequence.
-/
theorem foldSightings_induction {halfLife : ℤ} (property : List Sighting → IpScore → Prop)
    (first : ∀ sighting, property [sighting]
      (applyEvent decay none sighting.event halfLife sighting.deduped
        sighting.distinctWanCount sighting.distinctSensorCount))
    (next : ∀ sightings sighting stored, property sightings stored →
      property (sightings ++ [sighting])
        (applyEvent decay (some stored) sighting.event halfLife sighting.deduped
          sighting.distinctWanCount sighting.distinctSensorCount))
    {stored : IpScore}
    (folded : foldSightings decay halfLife sightings = some stored) :
    property sightings stored := by
  induction sightings using List.reverseRecOn generalizing stored with
  | nil => simp at folded
  | append_singleton earlier sighting ih =>
      rw [foldSightings_append_singleton] at folded
      cases prior : foldSightings decay halfLife earlier with
      | none =>
          have empty := foldSightings_eq_none decay prior
          subst empty
          simp only [foldSighting, Option.some.injEq] at folded
          subst folded
          exact first sighting
      | some before =>
          rw [prior] at folded
          simp only [foldSighting, Option.some.injEq] at folded
          subst folded
          exact next earlier sighting before (ih prior)

end Fold

end Propolis
