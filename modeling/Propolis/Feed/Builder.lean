import Propolis.Feed.Publisher
import Propolis.Net.Reserved

/-!
# The entries of the feeds

The end of `FeedBuilder::build` with `materialize` (`builder.rs`), from the candidates that
were read.  A candidate is published while its last event is younger than the time to live.
The interval published for it begins with the hour of that event, so it may be over by then.
-/

namespace Propolis.Feed

structure Candidate where
  ip : IpAddr
  tier : Option FeedTier
  firstSeen : ℤ
  lastSeen : ℤ
  eventCount : ℤ
  distinctCategories : ℤ
  categories : List String

def coarsenToHour (time : ℤ) : ℤ :=
  time - time % 3600000000000

/-- What is published for a candidate. -/
def Candidate.entry (ttl : ℤ) (candidate : Candidate) : FeedEntry :=
  let validFrom := coarsenToHour candidate.lastSeen
  { sourceIp := candidate.ip
    tier := candidate.tier
    firstSeen := coarsenToHour candidate.firstSeen
    lastSeen := validFrom
    eventCount := candidate.eventCount
    distinctCategories := candidate.distinctCategories
    categories := candidate.categories
    validFrom
    validUntil := validFrom + ttl }

/-- The place of an address in the order of `IpAddr`, in which those of IPv4 come first. -/
def rank : IpAddr → ℕ
  | ip@(.v4 ..) => ip.bits
  | ip@(.v6 ..) => 2 ^ 32 + ip.bits

def materialize (candidates : List Candidate) (now ttl : ℤ) (include_ : Candidate → Bool) :
    List FeedEntry :=
  ((candidates.filter fun c => include_ c && now - c.lastSeen < ttl).map
    (Candidate.entry ttl)).mergeSort fun first second => rank first.sourceIp ≤ rank second.sourceIp

def buildFrom (candidates : List Candidate) (buildTime now : ℤ) (config : FeedConfig)
    (windows : List (String × ℤ)) : FeedSnapshot where
  buildTime
  aggressive := materialize candidates now config.aggressiveTtl (·.tier = some .aggressive)
  standard := materialize candidates now config.standardTtl (·.tier = some .standard)
  windows := windows.map fun (label, retention) =>
    { label, retention, entries := materialize candidates now retention fun _ => true }

theorem mem_materialize {candidates : List Candidate} {now ttl : ℤ} {include_ : Candidate → Bool}
    {entry : FeedEntry} :
    entry ∈ materialize candidates now ttl include_ ↔ ∃ c ∈ candidates,
      (include_ c = true ∧ now - c.lastSeen < ttl) ∧ c.entry ttl = entry := by
  simp [materialize, and_assoc]

/-- The last event is younger than the time to live, and the interval that begins with its hour
is over. -/
def Candidate.overstays (now ttl : ℤ) (candidate : Candidate) : Prop :=
  ttl - candidate.lastSeen % 3600000000000 ≤ now - candidate.lastSeen ∧
    now - candidate.lastSeen < ttl

instance (now ttl : ℤ) : DecidablePred (Candidate.overstays now ttl) :=
  fun _ => inferInstanceAs (Decidable (_ ∧ _))

section Publishing

variable {now ttl : ℤ} {c : Candidate}

theorem young_of_valid (valid : now < (c.entry ttl).validUntil) : now - c.lastSeen < ttl := by
  have early : 0 ≤ c.lastSeen % 3600000000000 := Int.emod_nonneg _ (by decide)
  simp only [Candidate.entry, coarsenToHour] at valid
  omega

theorem overstays_iff :
    c.overstays now ttl ↔ now - c.lastSeen < ttl ∧ ¬now < (c.entry ttl).validUntil := by
  simp only [Candidate.overstays, Candidate.entry, coarsenToHour]
  omega

/-- The valid entries are among the published ones, so they are all of them where no published one
is over. -/
theorem materialize_perm_iff (candidates : List Candidate) (include_ : Candidate → Bool) :
    (materialize candidates now ttl include_).Perm
        ((candidates.filter fun c => include_ c && now < (c.entry ttl).validUntil).map
          (Candidate.entry ttl)) ↔
      ∀ c ∈ candidates, include_ c = true → ¬c.overstays now ttl := by
  have among : (candidates.filter fun c => include_ c && now < (c.entry ttl).validUntil) =
      (candidates.filter fun c => include_ c && now - c.lastSeen < ttl).filter
        fun c => now < (c.entry ttl).validUntil := by
    rw [List.filter_filter]
    apply List.filter_congr
    intro c _
    by_cases valid : now < (c.entry ttl).validUntil
    · simp [valid, young_of_valid valid]
    · simp [valid]
  rw [among]
  constructor
  · intro same c member accepted over_
    rw [overstays_iff] at over_
    have counted := same.length_eq
    simp only [materialize, List.length_mergeSort, List.length_map] at counted
    have valid := List.length_filter_eq_length_iff.mp counted.symm c
      (List.mem_filter.mpr ⟨member, by simp [accepted, over_.1]⟩)
    exact over_.2 (of_decide_eq_true valid)
  · intro none_
    refine (List.mergeSort_perm _ _).trans (.of_eq (congrArg _ (List.filter_eq_self.mpr ?_).symm))
    intro c published
    simp only [List.mem_filter, Bool.and_eq_true, decide_eq_true_eq] at published ⊢
    have stays := none_ c published.1 published.2.1
    rw [overstays_iff] at stays
    exact not_not.mp fun ended => stays ⟨published.2.2, ended⟩

end Publishing

/-- The entries are those of the accepted candidates whose interval has not ended exactly where no
accepted candidate overstays.  They are in the order of their addresses, and the windows of longer
retentions have all addresses of the shorter ones. -/
theorem materialize_publishes_valid (candidates : List Candidate) (now ttl : ℤ)
    (include_ : Candidate → Bool) :
    ((materialize candidates now ttl include_).Perm
        ((candidates.filter fun c => include_ c && now < (c.entry ttl).validUntil).map
          (Candidate.entry ttl)) ↔
      ∀ c ∈ candidates, include_ c = true → ¬c.overstays now ttl) ∧
      (materialize candidates now ttl include_).Pairwise
        (fun first second => rank first.sourceIp ≤ rank second.sourceIp) ∧
      ∀ buildTime config windows,
        let feeds := (buildFrom candidates buildTime now config windows).windows
        ∀ shorter ∈ feeds, ∀ longer ∈ feeds, shorter.retention ≤ longer.retention →
          shorter.entries.map FeedEntry.sourceIp ⊆ longer.entries.map FeedEntry.sourceIp := by
  refine ⟨materialize_perm_iff candidates include_, ?_, ?_⟩
  · have sorted := @List.pairwise_mergeSort FeedEntry
      (fun first second => rank first.sourceIp ≤ rank second.sourceIp) (by simp; omega)
      (by simp; omega)
    simpa [materialize] using sorted _
  · intro buildTime config windows feeds shorter isShorter longer isLonger order ip listed
    obtain ⟨first, -, rfl⟩ := List.mem_map.mp isShorter
    obtain ⟨second, -, rfl⟩ := List.mem_map.mp isLonger
    obtain ⟨entry, published, rfl⟩ := List.mem_map.mp listed
    obtain ⟨c, member, ⟨-, young⟩, rfl⟩ := mem_materialize.mp published
    apply List.mem_map.mpr
    exact ⟨_, mem_materialize.mpr ⟨c, member, ⟨rfl, young.trans_le order⟩, rfl⟩, rfl⟩

/-- Last events at ten past, at half past and at a quarter to one, one of the day before, and one
of another tier that overstays. -/
def offTheHour : List Candidate :=
  [⟨.v4 192 0 2 9, none, 0, 87000000000000, 1, 1, []⟩,
    ⟨.v6 8193 3512 0 0 0 0 0 1, none, 0, 88200000000000, 1, 1, []⟩,
    ⟨.v4 192 0 2 1, none, 0, 89100000000000, 1, 1, []⟩,
    ⟨.v4 192 0 2 5, none, 0, 0, 1, 1, []⟩,
    ⟨.v4 192 0 2 7, some .standard, 0, 84600000000000, 1, 1, []⟩]

theorem materialize_publishes_valid_off_the_hour :
    (materialize offTheHour 90000000000000 7200000000000 (·.tier = none)).Perm
      ((offTheHour.take 3).map (Candidate.entry 7200000000000)) := by
  have published := materialize_publishes_valid offTheHour 90000000000000 7200000000000
    (·.tier = none)
  exact published.1.mpr (by decide +kernel)

/-- An entry whose last event is of half past the hour is carried half an hour too long. -/
theorem expired_entry_published :
    ∃ entry ∈ materialize [⟨.v4 192 0 2 1, none, 0, 1800000000000, 1, 1, []⟩] 3600000000000
      3600000000000 fun _ => true, entry.validUntil ≤ 3600000000000 := by
  refine ⟨_, mem_materialize.mpr ⟨_, List.mem_singleton_self _, ⟨rfl, ?_⟩, rfl⟩, ?_⟩
  · decide
  · decide

end Propolis.Feed
