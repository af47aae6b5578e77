import Propolis.Scoring.Evidence
import Mathlib.Algebra.Order.BigOperators.Group.List

/-!
# Spoofable traffic

The sender of a UDP or ICMP datagram is forgeable; a completed TCP connection is
not.  Two columns of the projection carry that distinction, the confirmed-real
latch and the count of established sightings.  Both have a closed form over the
TCP events of the sequence alone (`Latches`), whatever the timestamps, the dedup
flags and the breadth counts were.  Without the latch every path to a listing is
closed except the volume path, which reads the established count.
-/

namespace Propolis

/-- The events that latch `hasConfirmedReal`. -/
def provesReal (event : EventInput) : Bool :=
  !isUnattributedSummary event &&
    isConfirmedReal event.protocol event.authenticated event.category

theorem provesReal_iff (event : EventInput) :
    provesReal event = true ↔
      event.flagged overflowSummaryKey = false ∧ event.protocol = .tcp ∧
        event.authenticated = true ∧ event.category = .honeypot := by
  simp [provesReal, isUnattributedSummary, isConfirmedReal, and_assoc]

/-- How many sightings the TCP events stand for. -/
def establishedSightings (events : List EventInput) : ℤ :=
  ((events.filter (·.protocol == .tcp)).map representedEvents).sum

theorem establishedSightings_nonneg (events : List EventInput) :
    0 ≤ establishedSightings events := by
  refine List.sum_nonneg ?_
  intro count member
  rcases List.mem_map.mp member with ⟨event, -, rfl⟩
  exact zero_le_one.trans (representedEvents_pos event)

theorem establishedSightings_append_singleton (events : List EventInput) (event : EventInput) :
    establishedSightings (events ++ [event]) =
      establishedSightings events +
        if event.protocol = .tcp then representedEvents event else 0 := by
  by_cases established : event.protocol = .tcp <;> simp [establishedSightings, established]

theorem saturatingAdd_min {total count : ℤ} (totalNonneg : 0 ≤ total) (countNonneg : 0 ≤ count) :
    saturatingAdd (min i32Max total) count = min i32Max (total + count) := by
  unfold saturatingAdd i32Max
  omega

section Fold

variable {decay : ℚ → ℤ → ℤ → ℚ} {halfLife : ℤ} {sightings : List Sighting} {stored : IpScore}

def events (sightings : List Sighting) : List EventInput :=
  sightings.map (·.event)

/-- The two columns an address can only earn by completed connections, in closed form. -/
structure Latches (sightings : List Sighting) (stored : IpScore) : Prop where
  hasConfirmedReal : stored.hasConfirmedReal = (events sightings).any provesReal
  establishedEventCount :
    stored.establishedEventCount = min i32Max (establishedSightings (events sightings))

/-- The step of the closed form, for a first event (`count = 0`) and for a further one. -/
theorem established_step (seen : List EventInput) (event : EventInput) :
    (if event.protocol = .tcp then
        saturatingAdd (min i32Max (establishedSightings seen)) (representedEvents event)
      else min i32Max (establishedSightings seen)) =
      min i32Max (establishedSightings (seen ++ [event])) := by
  have seenNonneg := establishedSightings_nonneg seen
  have countPos := representedEvents_pos event
  rw [establishedSightings_append_singleton]
  split_ifs with established
  · exact saturatingAdd_min seenNonneg (by omega)
  · rw [add_zero]

theorem latches_first (sighting : Sighting) :
    Latches [sighting]
      (applyEvent decay none sighting.event halfLife sighting.deduped
        sighting.distinctWanCount sighting.distinctSensorCount) where
  hasConfirmedReal := by
    simp [applyEvent, deriveProjection, priorState, events, provesReal]
  establishedEventCount := by
    simpa [applyEvent, deriveProjection, priorState, events, establishedSightings, i32Max] using
      established_step [] sighting.event

theorem latches_next (sighting : Sighting) (latches : Latches sightings stored) :
    Latches (sightings ++ [sighting])
      (applyEvent decay (some stored) sighting.event halfLife sighting.deduped
        sighting.distinctWanCount sighting.distinctSensorCount) where
  hasConfirmedReal := by
    simp [applyEvent, deriveProjection, priorState, latches.hasConfirmedReal, events, provesReal]
  establishedEventCount := by
    have step := established_step (events sightings) sighting.event
    simp only [applyEvent, deriveProjection, priorState, latches.establishedEventCount]
    simpa [events] using step

theorem foldSightings_latches (folded : foldSightings decay halfLife sightings = some stored) :
    Latches sightings stored :=
  foldSightings_induction decay Latches latches_first
    (fun _ sighting _ latches => latches_next sighting latches) folded

/-- The three listing flags are the gates over the projection's own columns. -/
structure FlagsDerived (projection : IpScore) : Prop where
  eligible : projection.eligible = isEligible projection.hasConfirmedReal
    (asU32 projection.eventCount) (asU32 projection.distinctCategories) projection.delisted
  vendor : projection.recommendedForVendor =
    recommendedForVendor projection.eligible projection.tier
  blocklist : ∃ effective seconds, projection.recommendedForBlocklist =
    (recommendedForBlocklist projection.eligible effective ||
      recommendedByVolume projection.delisted (asU32 projection.establishedEventCount) seconds)

theorem applyEvent_flagsDerived (prev : Option IpScore) (sighting : Sighting) :
    FlagsDerived (applyEvent decay prev sighting.event halfLife sighting.deduped
      sighting.distinctWanCount sighting.distinctSensorCount) :=
  ⟨rfl, rfl, _, _, rfl⟩

theorem foldSightings_flagsDerived
    (folded : foldSightings decay halfLife sightings = some stored) : FlagsDerived stored :=
  foldSightings_induction decay (fun _ stored => FlagsDerived stored)
    (fun sighting => applyEvent_flagsDerived none sighting)
    (fun _ sighting stored _ => applyEvent_flagsDerived (some stored) sighting) folded

/-- Without a confirmed-real event only the volume path is open. -/
theorem flags_of_unconfirmed {projection : IpScore}
    (latches : Latches sightings projection) (derived : FlagsDerived projection)
    (unconfirmed : ∀ event ∈ events sightings, provesReal event = false) :
    projection.eligible = false ∧ projection.recommendedForVendor = false ∧
      (projection.recommendedForBlocklist = true →
        1000 ≤ establishedSightings (events sightings)) := by
  have notLatched : projection.hasConfirmedReal = false := by
    rw [latches.hasConfirmedReal, List.any_eq_false]
    intro event member
    simp [unconfirmed event member]
  have notEligible : projection.eligible = false := by
    rw [derived.eligible, notLatched]
    simp [isEligible]
  refine ⟨notEligible, ?_, ?_⟩
  · rw [derived.vendor, notEligible]
    rfl
  · intro listed
    rcases derived.blocklist with ⟨effective, seconds, blocklist⟩
    rw [blocklist, notEligible, latches.establishedEventCount] at listed
    simp only [recommendedForBlocklist, Bool.false_and, Bool.false_or, recommendedByVolume,
      Bool.and_eq_true, decide_eq_true_eq] at listed
    have nonneg := establishedSightings_nonneg (events sightings)
    have reached := listed.1.2
    unfold asU32 volumeListThreshold i32Max at reached
    omega

/-- `extended` is `base` with UDP or ICMP events inserted at any places. -/
inductive SpoofableInserted : List EventInput → List EventInput → Prop where
  | nil : SpoofableInserted [] []
  | keep {base extended : List EventInput} (event : EventInput) :
      SpoofableInserted base extended → SpoofableInserted (event :: base) (event :: extended)
  | insert {base extended : List EventInput} (event : EventInput)
      (spoofable : event.protocol = .udp ∨ event.protocol = .icmp) :
      SpoofableInserted base extended → SpoofableInserted base (event :: extended)

theorem SpoofableInserted.filter_tcp {base extended : List EventInput}
    (inserted : SpoofableInserted base extended) :
    extended.filter (·.protocol == .tcp) = base.filter (·.protocol == .tcp) := by
  induction inserted with
  | nil => rfl
  | keep event _ ih => simp [List.filter_cons, ih]
  | insert event spoofable _ ih =>
      have notTcp : (event.protocol == .tcp) = false := by
        rcases spoofable with udp | icmp
        · simp [udp]
        · simp [icmp]
      rw [List.filter_cons, notTcp]
      simpa using ih

/-- Only a TCP event can prove an address real, so the latch reads the TCP events alone. -/
theorem any_provesReal_eq_filter (seen : List EventInput) :
    seen.any provesReal = (seen.filter (·.protocol == .tcp)).any provesReal := by
  rw [List.any_filter]
  congr 1
  funext event
  by_cases tcp : event.protocol = .tcp
  · simp [tcp]
  · simp [provesReal, isConfirmedReal, tcp]

/-- The latch and the established count of a source, with no projection read as neither. -/
def spoofProofColumns (projection : Option IpScore) : Bool × ℤ :=
  projection.elim (false, 0) fun stored => (stored.hasConfirmedReal, stored.establishedEventCount)

theorem spoofProofColumns_foldSightings (sightings : List Sighting) :
    spoofProofColumns (foldSightings decay halfLife sightings) =
      ((events sightings).any provesReal,
        min i32Max (establishedSightings (events sightings))) := by
  cases folded : foldSightings decay halfLife sightings with
  | none =>
      rw [foldSightings_eq_none decay folded]
      rfl
  | some stored =>
      have latches := foldSightings_latches folded
      rw [← latches.hasConfirmedReal, ← latches.establishedEventCount]
      rfl

theorem spoofProofColumns_of_inserted {base extended : List Sighting}
    (inserted : SpoofableInserted (events base) (events extended)) :
    spoofProofColumns (foldSightings decay halfLife extended) =
      spoofProofColumns (foldSightings decay halfLife base) := by
  rw [spoofProofColumns_foldSightings, spoofProofColumns_foldSightings,
    any_provesReal_eq_filter, any_provesReal_eq_filter (events base)]
  unfold establishedSightings
  rw [inserted.filter_tcp]

/--
Spoofable traffic alone never lists or reports a source.  The sequence is any
prefix of a source's events, `projection` its stored row or that row read at any
time; inserted events may change every other event's dedup flag and breadth
counts.
-/
theorem spoofable_never_lists (decay : ℚ → ℤ → ℤ → ℚ) (halfLife : ℤ) :
    (∀ (sightings : List Sighting) (stored projection : IpScore),
      foldSightings decay halfLife sightings = some stored →
      (projection = stored ∨ ∃ time, projection = projectToNow decay stored time halfLife) →
      (∀ event ∈ events sightings,
        ¬ (event.protocol = .tcp ∧ event.authenticated = true ∧ event.category = .honeypot ∧
          isUnattributedSummary event = false)) →
      projection.eligible = false ∧ projection.recommendedForVendor = false ∧
        (projection.recommendedForBlocklist = true →
          1000 ≤ establishedSightings (events sightings))) ∧
    (∀ base extended : List Sighting, SpoofableInserted (events base) (events extended) →
      spoofProofColumns (foldSightings decay halfLife extended) =
        spoofProofColumns (foldSightings decay halfLife base) ∧
      ∀ time, spoofProofColumns ((foldSightings decay halfLife extended).map
          (projectToNow decay · time halfLife)) =
        spoofProofColumns ((foldSightings decay halfLife base).map
          (projectToNow decay · time halfLife))) := by
  refine ⟨?_, ?_⟩
  · intro sightings stored projection folded reading spoofable
    have unconfirmed : ∀ event ∈ events sightings, provesReal event = false := by
      intro event member
      rw [Bool.eq_false_iff]
      intro proves
      rcases (provesReal_iff event).mp proves with ⟨attributed, tcp, authenticated, honeypot⟩
      exact spoofable event member ⟨tcp, authenticated, honeypot, attributed⟩
    rcases reading with rfl | ⟨time, rfl⟩
    · exact flags_of_unconfirmed (foldSightings_latches folded)
        (foldSightings_flagsDerived folded) unconfirmed
    · have latches := foldSightings_latches folded
      exact flags_of_unconfirmed ⟨latches.hasConfirmedReal, latches.establishedEventCount⟩
        ⟨rfl, rfl, _, _, rfl⟩ unconfirmed
  · intro base extended inserted
    have same := @spoofProofColumns_of_inserted decay halfLife base extended inserted
    have readSame : ∀ (projection : Option IpScore) (time : ℤ),
        spoofProofColumns (projection.map (projectToNow decay · time halfLife)) =
          spoofProofColumns projection := by
      intro projection time
      cases projection <;> rfl
    refine ⟨same, ?_⟩
    intro time
    rw [readSame, readSame, same]

end Fold

theorem udp_scan_never_lists :
    ((applyEvent halvingDecay none (sightingAt .portScan .udp 0).event 1 false 0 1).eligible =
      false) ∧
    spoofProofColumns (foldSightings halvingDecay 1
        [sightingAt .portScan .tcp 5, sightingAt .portScan .udp 0]) =
      spoofProofColumns (foldSightings halvingDecay 1 [sightingAt .portScan .tcp 5]) := by
  rcases spoofable_never_lists halvingDecay 1 with ⟨unlisted, unchanged⟩
  constructor
  · refine (unlisted [sightingAt .portScan .udp 0] _ _ rfl (Or.inl rfl) ?_).1
    intro event member
    rw [List.mem_singleton.mp member]
    decide
  · exact (unchanged [sightingAt .portScan .tcp 5]
      [sightingAt .portScan .tcp 5, sightingAt .portScan .udp 0]
      (.keep _ (.insert _ (Or.inl rfl) .nil))).1

end Propolis
