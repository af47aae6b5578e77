import Propolis.Scoring.Engine
import Mathlib.Algebra.Order.Field.Basic
import Mathlib.Tactic.Linarith
import Mathlib.Tactic.NormNum

/-!
# More evidence and the reported score

`applyEvent` moves the decay anchor to the new event's time whatever that time
is.  An event at or after the stored anchor splits the interval up to a later
read in two, decays the parts one after the other and adds its weight between
them, so the score read afterwards cannot be lower than without the event.  The
argument needs the anchor not to move backwards.  When it does, the interval
between the two times is decayed once more at the next read, and an event that
adds weight can leave the source with a smaller score than before.
-/

namespace Propolis

/-- Every score and category weight `before` reports is reported at least as high by `after`. -/
structure NotWeaker (before after : IpScore) : Prop where
  rawScore : before.rawScore ≤ after.rawScore
  weight : ∀ category stat, before.categoryBreakdown category = some stat →
    ∃ kept, after.categoryBreakdown category = some kept ∧ stat.weight ≤ kept.weight

section Ordered

variable {decay : ℚ → ℤ → ℤ → ℚ} {halfLife : ℤ} {stored : IpScore} {category : Category}
  {stat : CategoryStat}

/-- Folding an event keeps the stored score at or below the cap. -/
theorem applyEvent_rawScore_le_cap (laws : DecayLaws decay) {prev : Option IpScore}
    (capped : ∀ stored ∈ prev, stored.rawScore ≤ scoreCap) (sighting : Sighting) :
    (applyEvent decay prev sighting.event halfLife sighting.deduped sighting.distinctWanCount
      sighting.distinctSensorCount).rawScore ≤ scoreCap := by
  have priorLe :
      (priorState decay prev sighting.event.observedAt halfLife).decayedRaw ≤ scoreCap := by
    cases prev with
    | none => norm_num [priorState, scoreCap]
    | some stored => exact (laws.le_self _ _ _).trans (capped stored rfl)
  simp only [applyEvent]
  split
  · exact priorLe
  · exact min_le_left _ _

theorem foldSightings_rawScore_le_cap (laws : DecayLaws decay) {sightings : List Sighting}
    (folded : foldSightings decay halfLife sightings = some stored) :
    stored.rawScore ≤ scoreCap := by
  refine foldSightings_induction decay (fun _ stored => stored.rawScore ≤ scoreCap)
    ?_ ?_ folded
  · intro sighting
    exact applyEvent_rawScore_le_cap laws (by simp) sighting
  · intro _ sighting stored capped
    exact applyEvent_rawScore_le_cap laws (by simpa using capped) sighting

/--
Decaying in two steps with something added in between is at least decaying once:
the two truncated intervals are together no longer than the whole one.
-/
theorem decay_le_decay_of_split (laws : DecayLaws decay) {value raised : ℚ}
    {anchor middle time : ℤ} (anchorLe : anchor ≤ middle) (middleLe : middle ≤ time)
    (raise : decay value (secondsSince middle anchor) halfLife ≤ raised) :
    decay value (secondsSince time anchor) halfLife ≤
      decay raised (secondsSince time middle) halfLife := by
  calc decay value (secondsSince time anchor) halfLife
      ≤ decay value (secondsSince middle anchor + secondsSince time middle) halfLife :=
        laws.antitone _ _ _ _ (secondsSince_add_le anchorLe middleLe)
    _ = decay (decay value (secondsSince middle anchor) halfLife)
          (secondsSince time middle) halfLife :=
        (laws.decay_decay _ _ _ _ (secondsSince_nonneg anchorLe)
          (secondsSince_nonneg middleLe)).symm
    _ ≤ decay raised (secondsSince time middle) halfLife := laws.monotone _ _ _ _ raise

/-- A contribution keeps every category and lowers no weight. -/
theorem contribute_weight_ge {breakdown : CategoryBreakdown} (event : EventInput)
    (present : breakdown category = some stat) :
    ∃ kept, contribute breakdown event category = some kept ∧ stat.weight ≤ kept.weight := by
  unfold contribute
  by_cases same : category = event.category
  · rw [if_pos same, present]
    refine ⟨_, rfl, ?_⟩
    simp
  · rw [if_neg same]
    exact ⟨stat, present, le_rfl⟩

/-- The breakdown after an event keeps at least what the decay to the event's time left. -/
theorem applyEvent_weight_ge (stored : IpScore) (sighting : Sighting)
    (present : stored.categoryBreakdown category = some stat) :
    ∃ kept, (applyEvent decay (some stored) sighting.event halfLife sighting.deduped
        sighting.distinctWanCount sighting.distinctSensorCount).categoryBreakdown category =
          some kept ∧
      decay stat.weight (secondsSince sighting.event.observedAt stored.decayAnchor) halfLife ≤
        kept.weight := by
  have decayed : (priorState decay (some stored) sighting.event.observedAt halfLife).breakdown
      category = some ⟨decay stat.weight
        (secondsSince sighting.event.observedAt stored.decayAnchor) halfLife,
          stat.maxConfidence⟩ := by
    simp [priorState, decayBreakdown, present]
  simp only [applyEvent]
  split
  · exact ⟨_, decayed, le_rfl⟩
  · exact contribute_weight_ge sighting.event decayed

theorem applyEvent_rawScore_ge (laws : DecayLaws decay)
    (capped : stored.rawScore ≤ scoreCap) (sighting : Sighting) :
    decay stored.rawScore (secondsSince sighting.event.observedAt stored.decayAnchor) halfLife ≤
      (applyEvent decay (some stored) sighting.event halfLife sighting.deduped
        sighting.distinctWanCount sighting.distinctSensorCount).rawScore := by
  have decayedLe : decay stored.rawScore
      (secondsSince sighting.event.observedAt stored.decayAnchor) halfLife ≤ scoreCap :=
    (laws.le_self _ _ _).trans capped
  simp only [applyEvent, priorState]
  split
  · exact le_rfl
  · exact le_min decayedLe (by simp)

/--
An event not earlier than the stored anchor never weakens a source: whatever the
projection reports at a later time without the event, it reports at least as
high with it.
-/
theorem projectToNow_notWeaker_of_anchor_le (laws : DecayLaws decay)
    {sightings : List Sighting} {stored : IpScore}
    (folded : foldSightings decay halfLife sightings = some stored) (sighting : Sighting)
    (inOrder : stored.decayAnchor ≤ sighting.event.observedAt) (time : ℤ)
    (afterAll : ∀ seen ∈ sightings ++ [sighting], seen.event.observedAt ≤ time) :
    NotWeaker (projectToNow decay stored time halfLife)
      (projectToNow decay
        (applyEvent decay (some stored) sighting.event halfLife sighting.deduped
          sighting.distinctWanCount sighting.distinctSensorCount) time halfLife) := by
  have eventLe : sighting.event.observedAt ≤ time := afterAll sighting (by simp)
  constructor
  · exact decay_le_decay_of_split laws inOrder eventLe
      (applyEvent_rawScore_ge laws (foldSightings_rawScore_le_cap laws folded) sighting)
  · intro category stat reported
    simp only [projectToNow, deriveProjection, decayBreakdown, Option.map_eq_some_iff]
      at reported ⊢
    rcases reported with ⟨original, present, rfl⟩
    rcases applyEvent_weight_ge stored sighting present
      with ⟨kept, keptEq, keptGe⟩
    exact ⟨_, ⟨kept, keptEq, rfl⟩, decay_le_decay_of_split laws inOrder eventLe keptGe⟩

end Ordered

/-- One halving per second, which is the source's `decay` at a half-life of one second. -/
def halvingDecay (value : ℚ) (elapsed _halfLife : ℤ) : ℚ :=
  if 0 ≤ value then value / 2 ^ elapsed.toNat else value

theorem halvingDecay_laws : DecayLaws halvingDecay where
  clamp value elapsed _ nonpos := by
    simp [halvingDecay, Int.toNat_of_nonpos nonpos]
  le_self value elapsed _ := by
    unfold halvingDecay
    split
    · exact div_le_self ‹_› (one_le_pow₀ (by norm_num))
    · exact le_rfl
  antitone value first second _ order := by
    unfold halvingDecay
    split
    · exact div_le_div_of_nonneg_left ‹_› (by positivity)
        (pow_le_pow_right₀ (by norm_num) (Int.toNat_le_toNat order))
    · exact le_rfl
  monotone lower upper elapsed _ order := by
    unfold halvingDecay
    split_ifs with lowerNonneg upperNonneg upperNonneg
    · exact div_le_div_of_nonneg_right order (by positivity)
    · exact absurd (lowerNonneg.trans order) upperNonneg
    · have : 0 ≤ upper / 2 ^ elapsed.toNat := by positivity
      linarith
    · exact order
  decay_decay value first second _ firstNonneg secondNonneg := by
    unfold halvingDecay
    by_cases nonneg : 0 ≤ value
    · have halved : 0 ≤ value / 2 ^ first.toNat := by positivity
      rw [if_pos nonneg, if_pos halved, if_pos nonneg, div_div, ← pow_add,
        Int.toNat_add firstNonneg secondNonneg]
    · simp [nonneg]

/-- A sighting of one source by one sensor, not deduped, `seconds` after the epoch. -/
def sightingAt (signal : SignalType) (protocol : Protocol) (seconds : ℤ) : Sighting :=
  { event := .fromSignal (.v4 203 0 113 7) none "sensor-a" signal protocol false
      (seconds * 1000000000) .null none
    deduped := false
    distinctWanCount := 0
    distinctSensorCount := 1 }

theorem portScan_after_alert_notWeaker :
    NotWeaker
      (projectToNow halvingDecay
        (applyEvent halvingDecay none (sightingAt .suricataSev1 .tcp 0).event 1 false 0 1)
        20000000000 1)
      (projectToNow halvingDecay
        (applyEvent halvingDecay
          (some (applyEvent halvingDecay none (sightingAt .suricataSev1 .tcp 0).event 1 false 0 1))
          (sightingAt .portScan .tcp 10).event 1 false 0 1) 20000000000 1) :=
  projectToNow_notWeaker_of_anchor_le halvingDecay_laws
    (show foldSightings halvingDecay 1 [sightingAt .suricataSev1 .tcp 0] = some _ from rfl)
    (sightingAt .portScan .tcp 10) (by decide) 20000000000 (by decide)

/--
The anchor moves back: an alert ten seconds after the epoch, then a port scan
that was seen at the epoch.  Read at ten seconds, thirty points have become less
than one.
-/
theorem portScan_before_alert_weakens :
    ∃ decay : ℚ → ℤ → ℤ → ℚ, DecayLaws decay ∧
      ∃ (halfLife : ℤ) (sightings : List Sighting) (stored : IpScore) (sighting : Sighting)
        (time : ℤ),
        (∀ seen ∈ sightings ++ [sighting],
          seen.event.Valid ∧ seen.event.sourceIp = stored.sourceIp ∧
            seen.event.observedAt ≤ time) ∧
        foldSightings decay halfLife sightings = some stored ∧
        ¬ NotWeaker (projectToNow decay stored time halfLife)
          (projectToNow decay
            (applyEvent decay (some stored) sighting.event halfLife sighting.deduped
              sighting.distinctWanCount sighting.distinctSensorCount) time halfLife) := by
  refine ⟨halvingDecay, halvingDecay_laws, 1, [sightingAt .suricataSev1 .tcp 10],
    (applyEvent halvingDecay none (sightingAt .suricataSev1 .tcp 10).event 1 false 0 1),
    sightingAt .portScan .tcp 0, 10000000000, ?_, rfl, ?_⟩
  · intro seen member
    simp only [List.cons_append, List.nil_append, List.mem_cons, List.not_mem_nil, or_false]
      at member
    rcases member with rfl | rfl <;>
      exact ⟨EventInput.fromSignal_valid (by decide) .., rfl, by decide⟩
  · intro notWeaker
    exact absurd notWeaker.rawScore (by decide +kernel)

end Propolis
