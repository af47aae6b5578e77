import Propolis.Scoring.Evidence

/-!
# Reading a projection later

`project_to_now` at the anchor of a projection that `apply_event` has written gives the projection
back, and from there on a later reading reports nothing higher.  Everything that decays is
antitone in the time of the reading: the score and the weights through `decay`, the live categories
and the confidence through the weights, the tier and the recommendations through all of them.

The confidence is the maximum over the live categories, and zero when there is none.  It only falls
with them if no confidence is below zero, which every projection folded from nothing has.
-/

namespace Propolis

/-- What a reading relies on of `decay`. -/
structure ReadingLaws (decay : ℚ → ℤ → ℤ → ℚ) : Prop where
  clamp : ∀ value elapsed halfLife, elapsed ≤ 0 → decay value elapsed halfLife = value
  antitone : ∀ value first second halfLife, first ≤ second →
    decay value second halfLife ≤ decay value first halfLife

/-- No category has a confidence below zero. -/
def CategoryBreakdown.Confident (breakdown : CategoryBreakdown) : Prop :=
  ∀ category stat, breakdown category = some stat → 0 ≤ stat.maxConfidence

/-- `None`, `Standard`, `Aggressive`. -/
def tierRank : Option FeedTier → ℕ
  | none => 0
  | some .standard => 1
  | some .aggressive => 2

/-- The later of two readings reports nothing higher. -/
structure Weakened (earlier later : IpScore) : Prop where
  rawScore : later.rawScore ≤ earlier.rawScore
  weight : ∀ category stat, later.categoryBreakdown category = some stat →
    ∃ before, earlier.categoryBreakdown category = some before ∧ stat.weight ≤ before.weight
  maxConfidence : later.maxConfidence ≤ earlier.maxConfidence
  distinctCategories : later.distinctCategories ≤ earlier.distinctCategories
  tier : tierRank later.tier ≤ tierRank earlier.tier
  eligible : later.eligible = true → earlier.eligible = true
  recommendedForVendor : later.recommendedForVendor = true → earlier.recommendedForVendor = true
  recommendedForBlocklist :
    later.recommendedForBlocklist = true → earlier.recommendedForBlocklist = true

variable {decay : ℚ → ℤ → ℤ → ℚ} {halfLife : ℤ}

section Live

variable {breakdown : CategoryBreakdown}

variable (decay halfLife breakdown) in
/-- The categories that are live after some time. -/
def liveAfter (elapsed : ℤ) : List CategoryStat :=
  (Category.all.filterMap breakdown).filter fun stat =>
    liveFloor < decay stat.weight elapsed halfLife

theorem live_decayBreakdown (elapsed : ℤ) :
    ((Category.all.filterMap (decayBreakdown decay breakdown elapsed halfLife)).filter
      (liveFloor < ·.weight)).map CategoryStat.maxConfidence =
      (liveAfter decay halfLife breakdown elapsed).map CategoryStat.maxConfidence := by
  unfold liveAfter
  induction Category.all with
  | nil => rfl
  | cons category rest ih =>
    cases found : breakdown category with
    | none => simpa [decayBreakdown, found] using ih
    | some stat =>
      by_cases live : liveFloor < decay stat.weight elapsed halfLife <;>
        simpa [decayBreakdown, found, live] using ih

theorem liveAfter_sublist (laws : ReadingLaws decay) {first second : ℤ} (later : first ≤ second) :
    (liveAfter decay halfLife breakdown second).Sublist
      (liveAfter decay halfLife breakdown first) := by
  apply List.monotone_filter_right
  intro stat live
  simp only [decide_eq_true_eq] at live ⊢
  exact live.trans_le (laws.antitone _ _ _ _ later)

theorem getD_max?_le {fewer more : List ℚ} (subset : fewer ⊆ more)
    (nonneg : ∀ value ∈ more, 0 ≤ value) : fewer.max?.getD 0 ≤ more.max?.getD 0 := by
  cases highest : more.max? with
  | none =>
    rw [List.max?_eq_none_iff] at highest
    subst highest
    rw [List.subset_nil.mp subset]
    rfl
  | some top =>
    rcases List.max?_eq_some_iff.mp highest with ⟨member, above⟩
    cases highestFewer : fewer.max? with
    | none => exact nonneg top member
    | some value =>
      exact above value (subset (List.max?_eq_some_iff.mp highestFewer).1)

end Live

section Gates

theorem secondsSince_mono {first second : ℤ} (later : first ≤ second) (anchor : ℤ) :
    secondsSince first anchor ≤ secondsSince second anchor :=
  Int.tdiv_le_tdiv (by decide) (by omega)

theorem feedTier_mono {lowRaw highRaw lowConfidence highConfidence : ℚ} (raw : lowRaw ≤ highRaw)
    (confidence : lowConfidence ≤ highConfidence) :
    tierRank (feedTier lowRaw lowConfidence) ≤ tierRank (feedTier highRaw highConfidence) := by
  have bounded : ∀ tier, tierRank tier ≤ 2 := by
    rintro (_ | _ | _) <;> decide
  by_cases aggressive : 90 ≤ highRaw ∧ 95 / 100 ≤ highConfidence
  · simpa [feedTier, aggressive, tierRank] using bounded (feedTier lowRaw lowConfidence)
  have lower : ¬(90 ≤ lowRaw ∧ 95 / 100 ≤ lowConfidence) := fun low =>
    aggressive ⟨low.1.trans raw, low.2.trans confidence⟩
  unfold feedTier
  rw [if_neg aggressive, if_neg lower]
  by_cases standard : 75 ≤ lowRaw ∧ 70 / 100 ≤ lowConfidence
  · rw [if_pos standard, if_pos ⟨standard.1.trans raw, standard.2.trans confidence⟩]
  · rw [if_neg standard]
    exact Nat.zero_le _

theorem effectiveScore_mono {low high : ℚ} (raw : low ≤ high) (distinctWanCount : ℕ) :
    effectiveScore low distinctWanCount ≤ effectiveScore high distinctWanCount := by
  have factor : 0 ≤ breadthFactor distinctWanCount := by
    have capped : 0 ≤ min breadthCap (breadthPerWan * (distinctWanCount - 1 : ℕ)) := by
      apply le_min
      · norm_num [breadthCap]
      · have count : (0 : ℚ) ≤ (distinctWanCount - 1 : ℕ) := Nat.cast_nonneg _
        exact mul_nonneg (by norm_num [breadthPerWan]) count
    unfold breadthFactor
    linarith
  exact min_le_min le_rfl (mul_le_mul_of_nonneg_right raw factor)

theorem recommendedForVendor_mono {eligible : Bool} {low high : Option FeedTier}
    (tier : tierRank low ≤ tierRank high)
    (recommended : recommendedForVendor eligible low = true) :
    recommendedForVendor eligible high = true := by
  simp only [recommendedForVendor, Bool.and_eq_true] at recommended ⊢
  refine ⟨recommended.1, ?_⟩
  cases high with
  | some tier => rfl
  | none =>
    rcases Option.isSome_iff_exists.mp recommended.2 with ⟨held, rfl⟩
    cases held <;> simp [tierRank] at tier

theorem recommendedForBlocklist_mono {eligible : Bool} {low high : ℚ} (score : low ≤ high)
    (recommended : recommendedForBlocklist eligible low = true) :
    recommendedForBlocklist eligible high = true := by
  simp only [recommendedForBlocklist, Bool.and_eq_true, decide_eq_true_eq] at recommended ⊢
  exact ⟨recommended.1, recommended.2.trans score⟩

theorem recommendedByVolume_anti {delisted : Bool} {eventCount : ℕ} {first second : ℤ}
    (later : first ≤ second) (recommended : recommendedByVolume delisted eventCount second = true) :
    recommendedByVolume delisted eventCount first = true := by
  simp only [recommendedByVolume, Bool.and_eq_true, decide_eq_true_eq] at recommended ⊢
  exact ⟨recommended.1, later.trans recommended.2⟩

end Gates

section Readings

/-- A stored projection whose confidences are not below zero only weakens. -/
theorem projectToNow_weakened (laws : ReadingLaws decay) {stored : IpScore}
    (confident : stored.categoryBreakdown.Confident) {first second : ℤ} (later : first ≤ second) :
    Weakened (projectToNow decay stored first halfLife)
      (projectToNow decay stored second halfLife) := by
  have elapsed := secondsSince_mono later stored.decayAnchor
  have raw : decay stored.rawScore (secondsSince second stored.decayAnchor) halfLife ≤
      decay stored.rawScore (secondsSince first stored.decayAnchor) halfLife :=
    laws.antitone _ _ _ _ elapsed
  have gated := min_le_min (le_refl scoreCap)
    (add_le_add_left raw (persistencePoints stored.activeDays))
  have live := @liveAfter_sublist decay halfLife stored.categoryBreakdown laws _ _ elapsed
  have confidence : (projectToNow decay stored second halfLife).maxConfidence ≤
      (projectToNow decay stored first halfLife).maxConfidence := by
    simp only [projectToNow, deriveProjection, live_decayBreakdown]
    apply getD_max?_le (live.map _).subset
    intro value member
    rcases List.mem_map.mp member with ⟨stat, inside, rfl⟩
    rcases List.mem_filterMap.mp (List.mem_of_mem_filter inside) with ⟨category, -, found⟩
    exact confident category stat found
  have tier : tierRank (projectToNow decay stored second halfLife).tier ≤
      tierRank (projectToNow decay stored first halfLife).tier :=
    feedTier_mono gated confidence
  refine ⟨raw, ?_, confidence, ?_, tier, id, recommendedForVendor_mono tier, ?_⟩
  · intro category stat found
    simp only [projectToNow, deriveProjection, decayBreakdown, Option.map_eq_some_iff]
      at found ⊢
    rcases found with ⟨original, present, rfl⟩
    exact ⟨_, ⟨original, present, rfl⟩, laws.antitone _ _ _ _ elapsed⟩
  · have counted (time : ℤ) : (projectToNow decay stored time halfLife).distinctCategories =
        ((liveAfter decay halfLife stored.categoryBreakdown
          (secondsSince time stored.decayAnchor)).map CategoryStat.maxConfidence).length := by
      rw [← live_decayBreakdown]
      simp [projectToNow, deriveProjection]
    rw [counted, counted]
    exact_mod_cast (live.map _).length_le
  · intro recommended
    simp only [projectToNow, deriveProjection, Bool.or_eq_true] at recommended ⊢
    rcases recommended with merit | volume
    · exact .inl (recommendedForBlocklist_mono (effectiveScore_mono gated _) merit)
    · exact .inr (recommendedByVolume_anti (secondsSince_mono later _) volume)

/-- Folding an event into confidences that are not below zero leaves none below zero. -/
theorem applyEvent_confident {prev : Option IpScore}
    (confident : ∀ stored ∈ prev, stored.categoryBreakdown.Confident) (event : EventInput)
    (deduped : Bool) (distinctWanCount distinctSensorCount : ℤ) :
    (applyEvent decay prev event halfLife deduped distinctWanCount
      distinctSensorCount).categoryBreakdown.Confident := by
  have prior : (priorState decay prev event.observedAt halfLife).breakdown.Confident := by
    intro category stat found
    cases prev with
    | none => cases found
    | some stored =>
      simp only [priorState, decayBreakdown, Option.map_eq_some_iff] at found
      rcases found with ⟨original, present, rfl⟩
      exact confident stored rfl category original present
  intro category stat found
  simp only [applyEvent, deriveProjection] at found
  split at found
  · exact prior category stat found
  · unfold contribute at found
    split at found
    · have entry : 0 ≤ (((priorState decay prev event.observedAt halfLife).breakdown
          category).getD ⟨0, 0⟩).maxConfidence := by
        cases present : (priorState decay prev event.observedAt halfLife).breakdown category with
        | none => exact le_rfl
        | some original => exact prior category original present
      cases found
      split
      case isTrue higher => exact entry.trans higher.le
      case isFalse => exact entry
    · exact prior category stat found

/-- Read at its own anchor, a projection is what was written. -/
theorem projectToNow_anchor (laws : ReadingLaws decay) (prev : Option IpScore)
    (event : EventInput) (deduped : Bool) (distinctWanCount distinctSensorCount : ℤ) :
    let written := applyEvent decay prev event halfLife deduped distinctWanCount
      distinctSensorCount
    projectToNow decay written written.decayAnchor halfLife = written := by
  have zero (time : ℤ) : secondsSince time time = 0 := by simp [secondsSince]
  have still (breakdown : CategoryBreakdown) : decayBreakdown decay breakdown 0 halfLife =
      breakdown := by
    funext category
    cases found : breakdown category with
    | none => simp [decayBreakdown, found]
    | some stat => simp [decayBreakdown, found, laws.clamp]
  simp only [applyEvent, projectToNow, deriveProjection, zero, still, laws.clamp _ _ _ le_rfl]

/-- A projection that was written reads back as it is, and only weakens from then on. -/
theorem reading_only_weakens (laws : ReadingLaws decay) (prev : Option IpScore)
    (confident : ∀ stored ∈ prev, stored.categoryBreakdown.Confident) (event : EventInput)
    (deduped : Bool) (distinctWanCount distinctSensorCount : ℤ) :
    let written := applyEvent decay prev event halfLife deduped distinctWanCount
      distinctSensorCount
    projectToNow decay written written.decayAnchor halfLife = written ∧
      ∀ first second, written.decayAnchor ≤ first → first ≤ second →
        Weakened (projectToNow decay written first halfLife)
          (projectToNow decay written second halfLife) :=
  ⟨projectToNow_anchor laws prev event deduped distinctWanCount distinctSensorCount,
    fun _ _ _ later => projectToNow_weakened laws
      (applyEvent_confident confident event deduped distinctWanCount distinctSensorCount) later⟩

end Readings

theorem halvingDecay_readingLaws : ReadingLaws halvingDecay :=
  ⟨halvingDecay_laws.clamp, halvingDecay_laws.antitone⟩

theorem reading_only_weakens_alert :
    let written := applyEvent halvingDecay
      (some (applyEvent halvingDecay none (sightingAt .suricataSev1 .tcp 0).event 1 false 0 1))
      (sightingAt .portScan .tcp 10).event 1 false 0 1
    written.distinctCategories = 1 ∧
      Weakened (projectToNow halvingDecay written 10000000000 1)
        (projectToNow halvingDecay written 40000000000 1) :=
  ⟨by decide +kernel,
    (reading_only_weakens halvingDecay_readingLaws _
      (fun _ same => by
        cases same
        exact applyEvent_confident (by simp) _ false 0 1)
      (sightingAt .portScan .tcp 10).event false 0 1).2 _ _ (by decide) (by decide)⟩

/-- A stored projection with a confidence below zero. -/
def doubtfulScore : IpScore :=
  { applyEvent halvingDecay none (sightingAt .suricataSev1 .tcp 0).event 1 false 0 1 with
    categoryBreakdown := fun category => if category = .ids then some ⟨4, -1 / 2⟩ else none }

/-- Its confidence rises to zero when the category falls to the floor. -/
theorem doubtful_confidence_rises :
    DecayLaws halvingDecay ∧
      (∀ value elapsed halfLife, 0 ≤ value → 0 ≤ halvingDecay value elapsed halfLife) ∧
      let written := applyEvent halvingDecay (some doubtfulScore)
        (sightingAt .portScan .tcp 0).event 1 true 0 1
      (projectToNow halvingDecay written written.decayAnchor 1).maxConfidence <
        (projectToNow halvingDecay written
          (written.decayAnchor + 10000000000) 1).maxConfidence := by
  refine ⟨halvingDecay_laws, ?_, by decide +kernel⟩
  intro value elapsed halfLife nonneg
  rw [halvingDecay, if_pos nonneg]
  positivity

end Propolis
