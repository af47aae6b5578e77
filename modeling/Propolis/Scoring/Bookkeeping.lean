import Propolis.Scoring.Evidence
import Mathlib.Data.List.GetD
import Mathlib.Data.List.Sort
import Mathlib.Order.Bounds.Basic

/-!
# First seen, last seen and active days

The fold keeps one first time, one last time, one day and a counter.  The day
counter opens a day only when an event's day is strictly later than every day
seen before it, so it counts the days that led the sequence at their arrival
(`leadingDays`); for a sequence in time order these are all its distinct days.
`firstSeen` and `lastSeen` are taken from the first and the last event folded.

The counter is an `i32` of the source that never wraps: it grows with the last
day, and the calendar has fewer than `2 ^ 28` days.
-/

namespace Propolis

/-- The positions whose day is strictly later than every day before them. -/
def leadingDays (days : List ℤ) : Finset ℕ :=
  (Finset.range days.length).filter fun position =>
    ∀ earlier < position, days.getD earlier 0 < days.getD position 0

def observedTimes (sightings : List Sighting) : List ℤ :=
  sightings.map (·.event.observedAt)

def observedDays (sightings : List Sighting) : List ℤ :=
  (observedTimes sightings).map dateNaive

section Leading

variable {days : List ℤ} {day : ℤ}

theorem last_leads_iff :
    (∀ earlier < days.length,
      (days ++ [day]).getD earlier 0 < (days ++ [day]).getD days.length 0) ↔
        ∀ before ∈ days, before < day := by
  have lastDay : (days ++ [day]).getD days.length 0 = day := by simp
  rw [lastDay]
  constructor
  · intro leads before member
    rcases List.getElem_of_mem member with ⟨position, inside, rfl⟩
    have below := leads position inside
    rw [List.getD_append _ _ _ _ inside, List.getD_eq_getElem _ _ inside] at below
    exact below
  · intro leads earlier inside
    rw [List.getD_append _ _ _ _ inside, List.getD_eq_getElem _ _ inside]
    exact leads _ (List.getElem_mem inside)

/-- A new day joins the leading ones exactly when it is later than all before it. -/
theorem leadingDays_append_singleton :
    leadingDays (days ++ [day]) =
      if ∀ before ∈ days, before < day then insert days.length (leadingDays days)
      else leadingDays days := by
  have earlierPositions :
      (Finset.range days.length).filter (fun position =>
        ∀ earlier < position,
          (days ++ [day]).getD earlier 0 < (days ++ [day]).getD position 0) =
        leadingDays days := by
    refine Finset.filter_congr fun position member => forall₂_congr fun earlier before => ?_
    have inside := Finset.mem_range.mp member
    rw [List.getD_append _ _ _ _ (before.trans inside), List.getD_append _ _ _ _ inside]
  unfold leadingDays
  rw [List.length_append, List.length_singleton, Finset.range_add_one, Finset.filter_insert,
    earlierPositions]
  simp only [last_leads_iff]
  rfl

theorem leadingDays_card_append_singleton :
    (leadingDays (days ++ [day])).card =
      (leadingDays days).card + if ∀ before ∈ days, before < day then 1 else 0 := by
  rw [leadingDays_append_singleton]
  split_ifs with leads
  · exact Finset.card_insert_of_notMem (by simp [leadingDays])
  · rfl

/-- In time order the leading days are the distinct days. -/
theorem leadingDays_card_of_sorted (sorted : days.Pairwise (· ≤ ·)) :
    (leadingDays days).card = days.toFinset.card := by
  induction days using List.reverseRecOn with
  | nil => rfl
  | append_singleton earlier day ih =>
      rw [List.pairwise_append] at sorted
      rcases sorted with ⟨earlierSorted, -, ordered⟩
      have below : ∀ before ∈ earlier, before ≤ day := fun before member =>
        ordered before member day (by simp)
      rw [leadingDays_card_append_singleton, ih earlierSorted, List.toFinset_append]
      by_cases known : day ∈ earlier
      · rw [if_neg (fun leads => lt_irrefl day (leads day known))]
        have absorbed : earlier.toFinset ∪ [day].toFinset = earlier.toFinset := by
          simpa using known
        rw [absorbed, Nat.add_zero]
      · have leads : ∀ before ∈ earlier, before < day := by
          intro before member
          refine lt_of_le_of_ne (below before member) ?_
          rintro rfl
          exact known member
        rw [if_pos leads]
        simp [known]

end Leading

section Fold

variable {decay : ℚ → ℤ → ℤ → ℚ} {halfLife : ℤ} {sightings : List Sighting} {stored : IpScore}

theorem dateNaive_mono {first second : ℤ} (order : first ≤ second) :
    dateNaive first ≤ dateNaive second :=
  Int.ediv_le_ediv (by omega) order

/-- What the fold's four time columns are, in terms of the events in arrival order. -/
structure TimeColumns (sightings : List Sighting) (stored : IpScore) : Prop where
  firstSeen : (observedTimes sightings).head? = some stored.firstSeen
  lastSeen : (observedTimes sightings).getLast? = some stored.lastSeen
  lastActiveDay : IsGreatest {day | day ∈ observedDays sightings} stored.lastActiveDay
  activeDays : stored.activeDays = (leadingDays (observedDays sightings)).card

theorem timeColumns_first (sighting : Sighting) :
    TimeColumns [sighting]
      (applyEvent decay none sighting.event halfLife sighting.deduped
        sighting.distinctWanCount sighting.distinctSensorCount) where
  firstSeen := rfl
  lastSeen := rfl
  lastActiveDay := by
    constructor
    · simp [observedDays, observedTimes, applyEvent, deriveProjection, priorState,
        countActiveDay]
    · intro day member
      simp only [observedDays, observedTimes, List.map_cons, List.map_nil, List.mem_singleton,
        Set.mem_ofPred_eq] at member
      exact member.le
  activeDays := rfl

/-- One event: it joins the end of the sequence and opens a day if that day leads. -/
theorem timeColumns_next (sighting : Sighting) (columns : TimeColumns sightings stored) :
    TimeColumns (sightings ++ [sighting])
      (applyEvent decay (some stored) sighting.event halfLife sighting.deduped
        sighting.distinctWanCount sighting.distinctSensorCount) := by
  have times : observedTimes (sightings ++ [sighting]) =
      observedTimes sightings ++ [sighting.event.observedAt] := by
    simp [observedTimes]
  have days : observedDays (sightings ++ [sighting]) =
      observedDays sightings ++ [dateNaive sighting.event.observedAt] := by
    simp [observedDays, times]
  rcases columns.lastActiveDay with ⟨lastMem, lastBound⟩
  have leads : (∀ before ∈ observedDays sightings, before < dateNaive sighting.event.observedAt) ↔
      stored.lastActiveDay < dateNaive sighting.event.observedAt := by
    constructor
    · intro allBefore
      exact allBefore _ lastMem
    · intro later before member
      exact (lastBound member).trans_lt later
  constructor
  · rw [times, List.head?_append, columns.firstSeen]
    rfl
  · rw [times, List.getLast?_concat]
    rfl
  · rw [days]
    simp only [applyEvent, priorState, countActiveDay, List.mem_append, List.mem_singleton]
    constructor
    · rcases le_total stored.lastActiveDay (dateNaive sighting.event.observedAt) with later | older
      · rw [max_eq_right later]
        exact Or.inr rfl
      · rw [max_eq_left older]
        exact Or.inl lastMem
    · rintro day (member | rfl)
      · exact (lastBound member).trans (le_max_left _ _)
      · exact le_max_right _ _
  · rw [days, leadingDays_card_append_singleton]
    simp only [applyEvent, deriveProjection, priorState, countActiveDay, leads]
    rw [columns.activeDays]
    split_ifs <;> simp

variable (folded : foldSightings decay halfLife sightings = some stored)
include folded

theorem foldSightings_timeColumns :
    TimeColumns sightings stored :=
  foldSightings_induction decay TimeColumns timeColumns_first
    (fun _ sighting _ columns => timeColumns_next sighting columns) folded

/--
The time columns after any sequence of events.  The two seen times are the
bounds of the sequence when the event they are taken from is the extreme one,
and a sequence in time order has all three set-based values.
-/
theorem foldSightings_bookkeeping :
    stored.activeDays = (leadingDays (observedDays sightings)).card ∧
    IsGreatest {day | day ∈ observedDays sightings} stored.lastActiveDay ∧
    ((∀ first ∈ (observedTimes sightings).head?, ∀ time ∈ observedTimes sightings,
        first ≤ time) →
      IsLeast {time | time ∈ observedTimes sightings} stored.firstSeen) ∧
    ((∀ last ∈ (observedTimes sightings).getLast?, ∀ time ∈ observedTimes sightings,
        time ≤ last) →
      IsGreatest {time | time ∈ observedTimes sightings} stored.lastSeen) ∧
    ((observedTimes sightings).Pairwise (· ≤ ·) →
      IsLeast {time | time ∈ observedTimes sightings} stored.firstSeen ∧
      IsGreatest {time | time ∈ observedTimes sightings} stored.lastSeen ∧
      stored.activeDays = (observedDays sightings).toFinset.card) := by
  have columns := foldSightings_timeColumns folded
  have least : (∀ first ∈ (observedTimes sightings).head?, ∀ time ∈ observedTimes sightings,
      first ≤ time) → IsLeast {time | time ∈ observedTimes sightings} stored.firstSeen := by
    intro earliest
    exact ⟨List.mem_of_mem_head? columns.firstSeen, fun time member =>
      earliest _ columns.firstSeen time member⟩
  have greatest : (∀ last ∈ (observedTimes sightings).getLast?, ∀ time ∈ observedTimes sightings,
      time ≤ last) → IsGreatest {time | time ∈ observedTimes sightings} stored.lastSeen := by
    intro latest
    exact ⟨List.mem_of_mem_getLast? columns.lastSeen, fun time member =>
      latest _ columns.lastSeen time member⟩
  refine ⟨columns.activeDays, columns.lastActiveDay, least, greatest, ?_⟩
  intro sorted
  refine ⟨least ?_, greatest ?_, ?_⟩
  · intro first isFirst time member
    rcases List.head?_eq_some_iff.mp isFirst with ⟨rest, split⟩
    rw [split] at sorted member
    rcases List.mem_cons.mp member with rfl | later
    · exact le_rfl
    · exact List.rel_of_pairwise_cons sorted later
  · intro last isLast time member
    rcases List.getLast?_eq_some_iff.mp isLast with ⟨rest, split⟩
    rw [split] at sorted member
    rcases List.mem_append.mp member with earlier | same
    · exact (List.pairwise_append.mp sorted).2.2 time earlier last (by simp)
    · exact (List.mem_singleton.mp same).le
  · rw [columns.activeDays, leadingDays_card_of_sorted]
    exact sorted.map dateNaive fun _ _ order => dateNaive_mono order

end Fold

theorem foldSightings_bookkeeping_two_days :
    ∃ stored, foldSightings halvingDecay 1
        [sightingAt .portScan .tcp 0, sightingAt .portScan .tcp 86400] = some stored ∧
      stored.activeDays = (2 : ℤ) ∧ stored.firstSeen = 0 := by
  refine ⟨_, rfl, ?_, ?_⟩
  · have counted := (foldSightings_bookkeeping (show foldSightings halvingDecay 1
      [sightingAt .portScan .tcp 0, sightingAt .portScan .tcp 86400] = some _ from rfl)).1
    exact counted.trans (by decide)
  · rfl

/-- A port scan on the second day, then one that was seen on the first. -/
theorem foldSightings_older_day_last :
    ∃ (decay : ℚ → ℤ → ℤ → ℚ) (halfLife : ℤ) (sightings : List Sighting) (stored : IpScore),
      (∀ seen ∈ sightings, seen.event.Valid ∧ seen.event.sourceIp = stored.sourceIp) ∧
      foldSightings decay halfLife sightings = some stored ∧
      ¬ IsLeast {time | time ∈ observedTimes sightings} stored.firstSeen ∧
      ¬ IsGreatest {time | time ∈ observedTimes sightings} stored.lastSeen ∧
      stored.activeDays ≠ (observedDays sightings).toFinset.card := by
  refine ⟨halvingDecay, 1, [sightingAt .portScan .tcp 86400, sightingAt .portScan .tcp 0],
    _, ?_, rfl, ?_, ?_, by decide⟩
  · intro seen member
    simp only [List.mem_cons, List.not_mem_nil, or_false] at member
    rcases member with rfl | rfl <;> exact ⟨EventInput.fromSignal_valid (by decide) .., rfl⟩
  · rintro ⟨-, lower⟩
    exact absurd (lower (show (0 : ℤ) ∈ _ by decide)) (by decide)
  · rintro ⟨-, upper⟩
    exact absurd (upper (show (86400000000000 : ℤ) ∈ _ by decide)) (by decide)

end Propolis
