import Propolis.Ledger.Append
import Propolis.Scoring.Evidence

/-!
# The batch is the single appends

`appendEvents` leaves the tables that one `appendEvent` or
`appendTelemetryEvent` per event would have left.  The ledger rows agree because
both paths link each event to the head the previous one left.  For the other
tables the proof carries, event by event, what the batch holds in memory next to
the tables the single path has reached (`Tracks`): each loaded source holds the
three table entries of that source, writing it back over the tables the batch
started from would give those entries, and the newest observation of each loaded
key is the maximum over the rows inserted so far.  Telemetry touches none of it,
because no loaded key has a telemetry signal.
-/

namespace Propolis

variable {source : SourceState} {event : EventInput} {decay : ℚ → ℤ → ℤ → ℚ}
  {chainHash : Option Digest → EventInput → Digest}

section Precision

/-- The event has the precision of the columns it is stored in. -/
structure EventInput.Stored (event : EventInput) : Prop where
  micros : event.observedAt % 1000 = 0
  scale : event.confidence.scale = 3
  weight : event.weight ≤ 80

theorem normalizeEvent_stored (valid : event.Valid) : (normalizeEvent event).Stored where
  micros := by
    simp only [normalizeEvent, truncSubsecs]
    omega
  scale := Decimal.rescale_scale _ _
  weight := by
    rw [show (normalizeEvent event).weight = event.weight from rfl,
      ((EventInput.valid_iff event).mp valid).2.2.2.1]
    exact signalWeight_le _

theorem eventRow_observed (stored : event.Stored) (id : ℕ)
    (prevHash : Option Digest) (hash : Digest) :
    (eventRow id event prevHash hash).observed = event.observedAt := by
  have micros := stored.micros
  simp only [EventRow.observed, eventRow]
  omega

theorem max?_append_singleton (times : List ℤ) (time : ℤ) :
    (times ++ [time]).max? = some (times.max?.elim time (max · time)) := by
  cases times with
  | nil => rfl
  | cons =>
      rw [List.cons_append, List.max?_cons', List.foldl_append]
      rfl

/-- A new row moves the maximum of its own source and signal, and no other. -/
theorem dedupPrior_append (rows : List EventRow) (stored : event.Stored)
    (id : ℕ) (prevHash : Option Digest) (hash : Digest) (key : IpAddr × SignalType) :
    dedupPrior (rows ++ [eventRow id event prevHash hash]) key.1 key.2 =
      if key = (event.sourceIp, event.signalType) then
        some ((dedupPrior rows event.sourceIp event.signalType).elim event.observedAt
          (max · event.observedAt))
      else dedupPrior rows key.1 key.2 := by
  have observed := eventRow_observed stored id prevHash hash
  unfold dedupPrior
  rw [List.filter_append, List.map_append]
  split_ifs with same
  · subst same
    have kept : [eventRow id event prevHash hash].filter (fun row =>
        row.sourceIp = event.sourceIp ∧ row.signalType = event.signalType) =
          [eventRow id event prevHash hash] := by
      simp [eventRow]
    rw [kept, List.map_singleton, observed]
    exact max?_append_singleton _ _
  · have other : ¬ (event.sourceIp = key.1 ∧ event.signalType = key.2) := by
      rintro ⟨source, signal⟩
      exact same (Prod.ext source.symm signal.symm)
    simp [eventRow, other]

end Precision

section Vantages

/-- An upsert sets its own key to the disjunction of the old flag and the new one. -/
theorem lookup_upsertVantage (table : VantageTable) (wan : IpAddr) (flag : Bool) (key : IpAddr) :
    (upsertVantage table wan flag).lookup key =
      if key = wan then some ((table.lookup wan).getD false || flag) else table.lookup key := by
  unfold upsertVantage
  split_ifs with same
  · subst same
    cases present : table.lookup key with
    | none => simp
    | some old => cases old <;> cases flag <;> simp [present]
  · cases table.lookup wan with
    | none => exact Finmap.lookup_insert_of_ne _ same
    | some old =>
        dsimp only
        split_ifs
        · exact Finmap.lookup_insert_of_ne _ same
        · rfl

/-- Writing several keys, each with a flag of its own. -/
theorem lookup_foldl_upsertVantage (flags : IpAddr → Bool) (wans : List IpAddr)
    (table : VantageTable) (key : IpAddr) :
    (wans.foldl (fun table wan => upsertVantage table wan (flags wan)) table).lookup key =
      if key ∈ wans then some ((table.lookup key).getD false || flags key)
      else table.lookup key := by
  induction wans generalizing table with
  | nil => simp
  | cons wan wans ih =>
      rw [List.foldl_cons, ih]
      by_cases later : key ∈ wans
      · rw [if_pos (List.mem_cons_of_mem _ later), lookup_upsertVantage]
        split_ifs with same
        · subst same
          simp
        · rfl
      · rw [if_neg later, lookup_upsertVantage]
        by_cases same : key = wan
        · subst same
          simp
        · rw [if_neg same, if_neg (by simp [same, later])]

end Vantages

section Source

/-- The vantage table the batch would leave for a source that starts from `table`. -/
def SourceState.written (source : SourceState) (table : VantageTable) : VantageTable :=
  source.dirtyWans.foldl
    (fun table wan => upsertVantage table wan ((source.vantages.lookup wan).getD false)) table

/--
A loaded source in step with the tables: `base` are the tables the batch loaded
it from, `db` those the single path has reached.
-/
structure SourceTracks (base db : Db) (ip : IpAddr) (source : SourceState) : Prop where
  score : source.score = db.ipScore ip
  vantages : source.vantages = db.ipVantage ip
  sensors : source.sensors = db.ipSensor ip
  clean : ∀ wan, wan ∉ source.dirtyWans →
    source.vantages.lookup wan = (base.ipVantage ip).lookup wan
  dirty : ∀ wan, wan ∈ source.dirtyWans → ∃ flag, source.vantages.lookup wan = some flag ∧
    ((base.ipVantage ip).lookup wan = some true → flag = true)
  added : source.sensors = base.ipSensor ip ∪ source.newSensors.toFinset
  delisted : ∀ old, base.ipScore ip = some old →
    ∃ score, source.score = some score ∧ score.delisted = old.delisted

theorem SourceTracks.written_eq {base db : Db} {ip : IpAddr}
    (tracks : SourceTracks base db ip source) :
    source.written (base.ipVantage ip) = db.ipVantage ip := by
  rw [← tracks.vantages]
  apply Finmap.ext_lookup
  intro wan
  unfold SourceState.written
  rw [lookup_foldl_upsertVantage]
  split_ifs with isDirty
  · rcases tracks.dirty wan isDirty with ⟨flag, present, keeps⟩
    rw [present]
    cases before : (base.ipVantage ip).lookup wan with
    | none => rfl
    | some old =>
        cases old with
        | false => rfl
        | true => simp [keeps before]
  · exact (tracks.clean wan isDirty).symm

theorem foldl_insert_eq_union (names : List String) (set : Finset String) :
    names.foldl (fun names sensor => insert sensor names) set = set ∪ names.toFinset := by
  induction names generalizing set with
  | nil => simp
  | cons name names ih =>
      rw [List.foldl_cons, ih, List.toFinset_cons, Finset.insert_union, Finset.union_insert]

theorem foldWan_vantages (source : SourceState) (event : EventInput) :
    (source.foldWan event).vantages =
      match event.wanIp with
      | some wan => upsertVantage source.vantages wan event.authenticatedTcp
      | none => source.vantages := by
  unfold SourceState.foldWan upsertVantage
  cases event.wanIp with
  | none => rfl
  | some wan =>
      dsimp only
      cases source.vantages.lookup wan with
      | none => rfl
      | some flag => cases flag <;> cases event.authenticatedTcp <;> rfl

theorem foldSensor_sensors (source : SourceState) (event : EventInput) :
    (source.foldSensor event).sensors = insert event.sensor source.sensors := by
  unfold SourceState.foldSensor
  split_ifs with known
  · exact (Finset.insert_eq_of_mem known).symm
  · rfl

/-- The fold of the WAN keeps the account of what is dirty. -/
theorem foldWan_account {table : VantageTable} (event : EventInput)
    (clean : ∀ wan, wan ∉ source.dirtyWans → source.vantages.lookup wan = table.lookup wan)
    (dirty : ∀ wan, wan ∈ source.dirtyWans → ∃ flag, source.vantages.lookup wan = some flag ∧
      (table.lookup wan = some true → flag = true)) :
    (∀ wan, wan ∉ (source.foldWan event).dirtyWans →
      (source.foldWan event).vantages.lookup wan = table.lookup wan) ∧
    (∀ wan, wan ∈ (source.foldWan event).dirtyWans → ∃ flag,
      (source.foldWan event).vantages.lookup wan = some flag ∧
        (table.lookup wan = some true → flag = true)) := by
  have touched : ∀ (wan : IpAddr) (flag : Bool), (table.lookup wan = some true → flag = true) →
      (∀ key, key ∉ source.dirtyWans.insert wan →
        (source.vantages.insert wan flag).lookup key = table.lookup key) ∧
      (∀ key, key ∈ source.dirtyWans.insert wan → ∃ found,
        (source.vantages.insert wan flag).lookup key = some found ∧
          (table.lookup key = some true → found = true)) := by
    intro wan flag keeps
    constructor
    · intro key notDirty
      rw [List.mem_insert_iff, not_or] at notDirty
      rw [Finmap.lookup_insert_of_ne _ notDirty.1]
      exact clean key notDirty.2
    · intro key isDirty
      by_cases same : key = wan
      · subst same
        exact ⟨flag, Finmap.lookup_insert _, keeps⟩
      · rw [Finmap.lookup_insert_of_ne _ same]
        exact dirty key ((List.mem_insert_iff.mp isDirty).resolve_left same)
  unfold SourceState.foldWan
  cases event.wanIp with
  | none => exact ⟨clean, dirty⟩
  | some wan =>
      dsimp only
      cases present : source.vantages.lookup wan with
      | none =>
          refine touched wan event.authenticatedTcp ?_
          intro already
          by_cases isDirty : wan ∈ source.dirtyWans
          · rcases dirty wan isDirty with ⟨flag, found, -⟩
            rw [present] at found
            exact absurd found (by simp)
          · rw [clean wan isDirty, already] at present
            exact absurd present (by simp)
      | some flag =>
          dsimp only
          split_ifs
          · exact touched wan true fun _ => rfl
          · exact ⟨clean, dirty⟩

end Source

section Step

variable (decay chainHash)

/-- What both single paths do with a normalized event. -/
def appendNormalized (db : Db) (event : EventInput) : Db :=
  if event.signalType.isTelemetry then
    { db with event := (insertChained chainHash db.event event).1 }
  else
    (appendScored decay chainHash db event).1

/-- The event's effect on its own source's vantage table. -/
def vantagesAfter (db : Db) (event : EventInput) : VantageTable :=
  match event.wanIp with
  | some wan => upsertVantage (db.ipVantage event.sourceIp) wan event.authenticatedTcp
  | none => db.ipVantage event.sourceIp

def sensorsAfter (db : Db) (event : EventInput) : Finset String :=
  insert event.sensor (db.ipSensor event.sourceIp)

/-- The projection a scored event leaves for its source. -/
def scoreAfter (db : Db) (event : EventInput) : IpScore :=
  applyEvent decay (db.ipScore event.sourceIp) event halfLifeSeconds
    (isDeduped event.observedAt
      (dedupPrior db.event.rows event.sourceIp event.signalType))
    (asI32 (distinctWanCount (vantageRows (vantagesAfter db event))))
    (asI32 (sensorsAfter db event).card)

/-- The conflict clause changes nothing: the engine carries `delisted` over. -/
theorem upsertScore_applyEvent (stored : Option IpScore) (event : EventInput) (halfLife : ℤ)
    (deduped : Bool) (dwc dsc : ℤ) :
    upsertScore stored (applyEvent decay stored event halfLife deduped dwc dsc) =
      applyEvent decay stored event halfLife deduped dwc dsc := by
  cases stored <;> rfl

theorem appendScored_fst (db : Db) (event : EventInput) :
    (appendScored decay chainHash db event).1 =
      { event := db.event.insert event db.event.head (chainHash db.event.head event)
        ipScore := Function.update db.ipScore event.sourceIp (some (scoreAfter decay db event))
        ipVantage := Function.update db.ipVantage event.sourceIp (vantagesAfter db event)
        ipSensor := Function.update db.ipSensor event.sourceIp (sensorsAfter db event) } := by
  have earlier : (insertChained chainHash db.event event).1.rows.filter
      (·.id < (insertChained chainHash db.event event).2) = db.event.rows :=
    Ledger.filter_id_lt_insert _ _ _ _
  unfold appendScored
  dsimp only
  rw [earlier, show ∀ stored deduped dwc dsc, (applyEvent decay stored event halfLifeSeconds
    deduped dwc dsc).sourceIp = event.sourceIp from fun _ _ _ _ => rfl, upsertScore_applyEvent]
  rfl

theorem appendNormalized_event (db : Db) (event : EventInput) :
    (appendNormalized decay chainHash db event).event =
      db.event.insert event db.event.head (chainHash db.event.head event) := by
  unfold appendNormalized
  split
  · rfl
  · rw [appendScored_fst]

/-- Appending one by one inserts the rows the batch inserts at once. -/
theorem foldl_appendNormalized_event (events : List EventInput) (db : Db) :
    (events.foldl (appendNormalized decay chainHash) db).event =
      insertEvents db.event events (chainLinks chainHash db.event.head events) := by
  induction events generalizing db with
  | nil => rfl
  | cons event rest ih =>
      rw [List.foldl_cons, ih, appendNormalized_event, Ledger.insert_head]
      rfl

variable {decay chainHash}

/-- The WAN part of a fold leaves the sensors and the score alone. -/
theorem foldWan_frame (source : SourceState) (event : EventInput) :
    (source.foldWan event).sensors = source.sensors ∧
      (source.foldWan event).newSensors = source.newSensors ∧
      (source.foldWan event).score = source.score := by
  unfold SourceState.foldWan
  split
  · exact ⟨rfl, rfl, rfl⟩
  · dsimp only
    split
    · exact ⟨rfl, rfl, rfl⟩
    · split_ifs <;> exact ⟨rfl, rfl, rfl⟩

/-- The sensor part leaves the score and the vantages alone. -/
theorem foldSensor_frame (source : SourceState) (event : EventInput) :
    (source.foldSensor event).score = source.score ∧
      (source.foldSensor event).dirtyWans = source.dirtyWans ∧
      (source.foldSensor event).vantages = source.vantages := by
  unfold SourceState.foldSensor
  split_ifs <;> exact ⟨rfl, rfl, rfl⟩

theorem SourceTracks.fold {base db : Db} (tracks : SourceTracks base db event.sourceIp source)
    {deduped : Bool} (sameDedup : deduped = isDeduped event.observedAt
      (dedupPrior db.event.rows event.sourceIp event.signalType)) :
    SourceTracks base (appendScored decay chainHash db event).1 event.sourceIp
      (source.fold decay event deduped) := by
  have wanFrame := foldWan_frame source event
  have sensorFrame := foldSensor_frame (source.foldWan event) event
  have vantages : ((source.foldWan event).foldSensor event).vantages = vantagesAfter db event := by
    rw [sensorFrame.2.2, foldWan_vantages, tracks.vantages]
    rfl
  have sensors : ((source.foldWan event).foldSensor event).sensors = sensorsAfter db event := by
    rw [foldSensor_sensors, wanFrame.1, tracks.sensors]
    rfl
  rcases foldWan_account event tracks.clean tracks.dirty with ⟨clean, dirty⟩
  rw [appendScored_fst]
  have scoreEq : (source.fold decay event deduped).score = some (scoreAfter decay db event) := by
    simp only [SourceState.fold, sensorFrame.1, wanFrame.2.2, vantages, sensors, tracks.score,
      sameDedup]
    rfl
  refine ⟨?_, ?_, ?_, ?_, ?_, ?_, ?_⟩
  · rw [scoreEq]
    simp
  · simpa [SourceState.fold] using vantages
  · simpa [SourceState.fold] using sensors
  · simpa only [SourceState.fold, sensorFrame.2.1, sensorFrame.2.2] using clean
  · simpa only [SourceState.fold, sensorFrame.2.1, sensorFrame.2.2] using dirty
  · have added := tracks.added
    simp only [SourceState.fold, SourceState.foldSensor, wanFrame.1]
    split_ifs with known
    · simpa [wanFrame.1, wanFrame.2.1] using added
    · simp only [wanFrame.2.1, added]
      ext name
      simp only [Finset.mem_insert, Finset.mem_union, List.mem_toFinset, List.mem_insert_iff]
      tauto
  · intro old stored
    rcases tracks.delisted old stored with ⟨score, found, same⟩
    refine ⟨_, scoreEq, ?_⟩
    rw [← same, scoreAfter, ← tracks.score, found]
    rfl

end Step

section Run

variable {base db : Db} {scored : List EventInput} {state : BatchState}

/-- The memory of the batch in step with the tables the single path has reached. -/
structure Tracks (base : Db) (scored : List EventInput) (db : Db) (state : BatchState) :
    Prop where
  loaded : ∀ ip ∈ scored.map (·.sourceIp), ∃ source,
    state.sources ip = some source ∧ SourceTracks base db ip source
  others : ∀ ip, ip ∉ scored.map (·.sourceIp) → state.sources ip = none ∧
    db.ipScore ip = base.ipScore ip ∧ db.ipVantage ip = base.ipVantage ip ∧
      db.ipSensor ip = base.ipSensor ip
  newest : ∀ event ∈ scored, state.newest (event.sourceIp, event.signalType) =
    some (dedupPrior db.event.rows event.sourceIp event.signalType)

theorem tracks_load (db : Db) (scored : List EventInput) :
    Tracks db scored db ⟨loadSources db scored, loadDedupPriors db scored⟩ where
  loaded := by
    intro ip member
    refine ⟨_, if_pos member, ?_⟩
    exact
      { score := rfl, vantages := rfl, sensors := rfl
        clean := fun _ _ => rfl
        dirty := fun _ isDirty => absurd isDirty (by simp)
        added := by simp
        delisted := fun old stored => ⟨old, stored, rfl⟩ }
  others := by
    intro ip notMember
    exact ⟨if_neg notMember, rfl, rfl, rfl⟩
  newest := by
    intro event member
    exact if_pos (List.mem_map.mpr ⟨event, member, rfl⟩)

/-- A source's account depends on the tables only at that source. -/
theorem SourceTracks.congr {other : Db} {ip : IpAddr}
    (tracks : SourceTracks base db ip source) (score : other.ipScore ip = db.ipScore ip)
    (vantages : other.ipVantage ip = db.ipVantage ip)
    (sensors : other.ipSensor ip = db.ipSensor ip) : SourceTracks base other ip source :=
  { tracks with
    score := by rw [score, tracks.score]
    vantages := by rw [vantages, tracks.vantages]
    sensors := by rw [sensors, tracks.sensors] }

section

variable (tracks : Tracks base scored db state)
include tracks

theorem Tracks.scored_step (stored : event.Stored) (member : event ∈ scored) :
    Tracks base scored (appendScored decay chainHash db event).1
      (foldScored decay state event) := by
  rcases tracks.loaded event.sourceIp (List.mem_map.mpr ⟨event, member, rfl⟩) with
    ⟨source, found, sourceTracks⟩
  have prior := tracks.newest event member
  have sources : (foldScored decay state event).sources =
      Function.update state.sources event.sourceIp (some (source.fold decay event
        (isDeduped event.observedAt
          (dedupPrior db.event.rows event.sourceIp event.signalType)))) := by
    simp [foldScored, found, prior]
  constructor
  · intro ip loaded
    rw [sources]
    by_cases same : ip = event.sourceIp
    · subst same
      exact ⟨_, Function.update_self _ _ _, sourceTracks.fold rfl⟩
    · rw [Function.update_of_ne same]
      rcases tracks.loaded ip loaded with ⟨other, otherFound, otherTracks⟩
      refine ⟨other, otherFound, otherTracks.congr ?_ ?_ ?_⟩
      all_goals
        exact Function.update_of_ne same _ _
  · intro ip notLoaded
    have different : ip ≠ event.sourceIp := by
      rintro rfl
      exact notLoaded (List.mem_map.mpr ⟨event, member, rfl⟩)
    simp only [sources, appendScored_fst, Function.update_of_ne different]
    exact tracks.others ip notLoaded
  · intro other otherMember
    rw [appendScored_fst, Ledger.insert_rows]
    have moved := dedupPrior_append db.event.rows stored db.event.nextId db.event.head
      (chainHash db.event.head event) (other.sourceIp, other.signalType)
    rw [moved]
    simp only [foldScored, prior, Option.join_some]
    by_cases same : (other.sourceIp, other.signalType) = (event.sourceIp, event.signalType)
    · rw [if_pos same, same, Function.update_self]
    · rw [if_neg same, Function.update_of_ne same]
      exact tracks.newest other otherMember

/-- Telemetry joins the chain and nothing the batch holds. -/
theorem Tracks.telemetry_step (stored : event.Stored)
    (telemetry : event.signalType.isTelemetry = true)
    (scorable : ∀ other ∈ scored, other.signalType.isTelemetry = false) :
    Tracks base scored { db with event := (insertChained chainHash db.event event).1 } state where
  loaded := by
    intro ip loaded
    rcases tracks.loaded ip loaded with ⟨source, found, sourceTracks⟩
    exact ⟨source, found, sourceTracks.congr rfl rfl rfl⟩
  others := tracks.others
  newest := by
    intro other member
    have different : (other.sourceIp, other.signalType) ≠ (event.sourceIp, event.signalType) := by
      intro same
      have signals : other.signalType = event.signalType := congrArg Prod.snd same
      have notTelemetry := scorable other member
      rw [signals, telemetry] at notTelemetry
      exact absurd notTelemetry (by simp)
    have unmoved := dedupPrior_append db.event.rows stored db.event.nextId db.event.head
      (chainHash db.event.head event) (other.sourceIp, other.signalType)
    rw [if_neg different] at unmoved
    rw [tracks.newest other member]
    exact congrArg some unmoved.symm

/-- What one event keeps, any run of events keeps. -/
theorem Tracks.run (events : List EventInput) (stored : ∀ event ∈ events, event.Stored)
    (listed : ∀ event ∈ events, event.signalType.isTelemetry = false → event ∈ scored)
    (scorable : ∀ event ∈ scored, event.signalType.isTelemetry = false) :
    Tracks base scored (events.foldl (appendNormalized decay chainHash) db)
      ((events.filter fun event => !event.signalType.isTelemetry).foldl (foldScored decay)
        state) := by
  induction events generalizing db state with
  | nil => simpa using tracks
  | cons event rest ih =>
      rw [List.forall_mem_cons] at stored listed
      rw [List.foldl_cons, List.filter_cons]
      cases telemetry : event.signalType.isTelemetry with
      | true =>
          have single : appendNormalized decay chainHash db event =
              { db with event := (insertChained chainHash db.event event).1 } := by
            simp [appendNormalized, telemetry]
          rw [single]
          exact ih (tracks.telemetry_step stored.1 telemetry scorable) stored.2 listed.2
      | false =>
          have single : appendNormalized decay chainHash db event =
              (appendScored decay chainHash db event).1 := by
            simp [appendNormalized, telemetry]
          rw [single]
          exact ih (tracks.scored_step stored.1 (listed.1 telemetry)) stored.2 listed.2

/-- Writing the batch's sources back gives the tables of the single path. -/
theorem Tracks.writeSources_eq :
    writeSources { base with event := db.event } state.sources = db := by
  have tables : ∀ ip,
      (writeSources { base with event := db.event } state.sources).ipScore ip = db.ipScore ip ∧
      (writeSources { base with event := db.event } state.sources).ipVantage ip =
        db.ipVantage ip ∧
      (writeSources { base with event := db.event } state.sources).ipSensor ip =
        db.ipSensor ip := by
    intro ip
    by_cases loaded : ip ∈ scored.map (·.sourceIp)
    · rcases tracks.loaded ip loaded with ⟨source, found, sourceTracks⟩
      simp only [writeSources, found, Option.bind_some]
      refine ⟨?_, sourceTracks.written_eq, ?_⟩
      · have score := sourceTracks.score
        cases before : base.ipScore ip with
        | none =>
            rw [← score]
            cases source.score <;> rfl
        | some old =>
            rcases sourceTracks.delisted old before with ⟨new, isNew, same⟩
            rw [← score, isNew]
            simp only [upsertScore, ← same]
      · rw [foldl_insert_eq_union, ← sourceTracks.sensors, sourceTracks.added]
    · rcases tracks.others ip loaded with ⟨absent, score, vantages, sensors⟩
      simp only [writeSources, absent]
      exact ⟨score.symm, vantages.symm, sensors.symm⟩
  cases db with
  | mk =>
      simp only [writeSources, Db.mk.injEq, true_and]
      exact ⟨funext fun ip => (tables ip).1, funext fun ip => (tables ip).2.1,
        funext fun ip => (tables ip).2.2⟩

end

theorem appendAtomic_eq_foldl (db : Db) {events : List EventInput}
    (stored : ∀ event ∈ events, event.Stored) :
    appendAtomic decay chainHash db events =
      events.foldl (appendNormalized decay chainHash) db := by
  have scorable : ∀ event ∈ events.filter (fun event => !event.signalType.isTelemetry),
      event.signalType.isTelemetry = false := by
    intro event member
    simpa using (List.mem_filter.mp member).2
  have listed : ∀ event ∈ events, event.signalType.isTelemetry = false →
      event ∈ events.filter (fun event => !event.signalType.isTelemetry) := by
    intro event member notTelemetry
    simp [member, notTelemetry]
  have written := (@Tracks.run decay chainHash _ _ _ _ (tracks_load db _) events stored listed
    scorable).writeSources_eq
  rw [foldl_appendNormalized_event] at written
  exact written

end Run

section Refinement

variable (decay chainHash) {events : List EventInput}

/-- One call of the single path an event belongs to, in a database that does not fail. -/
def appendRouted (db : Db) (event : EventInput) : Except RepoError Db :=
  if event.signalType.isTelemetry then
    match appendTelemetryEvent chainHash none db event with
    | (db, .ok ()) => .ok db
    | (_, .error error) => .error error
  else
    match appendEvent decay chainHash none db event with
    | (db, .ok _) => .ok db
    | (_, .error error) => .error error

/-- One call per event, in order, stopping at the first that fails. -/
def appendEach (db : Db) (events : List EventInput) : Except RepoError Db :=
  events.foldlM (appendRouted decay chainHash) db

theorem appendRouted_of_valid (db : Db) (valid : event.Valid) :
    appendRouted decay chainHash db event =
      .ok (appendNormalized decay chainHash db (normalizeEvent event)) := by
  have passes : event.validate = .ok () := valid
  have signal : (normalizeEvent event).signalType = event.signalType := rfl
  unfold appendRouted appendNormalized
  rw [signal]
  cases telemetry : event.signalType.isTelemetry with
  | true => simp [appendTelemetryEvent, passes, telemetry]
  | false => simp [appendEvent, passes, telemetry]

theorem appendEach_of_valid (db : Db) (valid : ∀ event ∈ events, event.Valid) :
    appendEach decay chainHash db events =
      .ok ((events.map normalizeEvent).foldl (appendNormalized decay chainHash) db) := by
  induction events generalizing db with
  | nil => rfl
  | cons event rest ih =>
      rw [List.forall_mem_cons] at valid
      unfold appendEach
      rw [List.foldlM_cons, appendRouted_of_valid decay chainHash db valid.1]
      exact ih (appendNormalized decay chainHash db (normalizeEvent event)) valid.2

theorem validPrefix_of_valid (valid : ∀ event ∈ events, event.Valid) :
    validPrefix events = (events, none) := by
  induction events with
  | nil => rfl
  | cons event rest ih =>
      rw [List.forall_mem_cons] at valid
      have passes : event.validate = .ok () := valid.1
      simp [validPrefix, passes, ih valid.2]

/-- When the first attempt succeeds it covers the whole batch. -/
theorem appendSlices_of_success {State : Type*}
    {atomic : ℕ → State → List EventInput → State × Option RepoError}
    {normalized : List EventInput} {state next : State}
    (success : atomic 0 state normalized = (next, none)) (nonempty : normalized ≠ []) :
    appendSlices atomic normalized 0 0 normalized.length state =
      (next, ⟨normalized.length, none⟩) := by
  unfold appendSlices
  have positive : 0 < normalized.length := List.length_pos_iff.mpr nonempty
  rw [if_pos ⟨positive, positive⟩, List.take_length, List.drop_zero, success]
  unfold appendSlices
  simp

/--
The batched append refines the one-at-a-time append: without a database error it
leaves the ledger rows, the breadth sets and the projections that one call per
event leaves, whatever tables it starts from.
-/
theorem appendEvents_refines_appendEach (db : Db) {events : List EventInput}
    (valid : ∀ event ∈ events, event.Valid) :
    ∃ final, appendEach decay chainHash db events = .ok final ∧
      appendEvents decay chainHash (fun _ => none) db events =
        (final, ⟨events.length, none⟩) := by
  refine ⟨_, appendEach_of_valid decay chainHash db valid, ?_⟩
  have stored : ∀ event ∈ events.map normalizeEvent, event.Stored := by
    intro event member
    rcases List.mem_map.mp member with ⟨original, isMember, rfl⟩
    exact normalizeEvent_stored (valid original isMember)
  rw [← appendAtomic_eq_foldl db stored]
  unfold appendEvents appendEventsWith
  rw [validPrefix_of_valid valid]
  dsimp only
  by_cases empty : events = []
  · subst empty
    unfold appendSlices
    simp [appendAtomic_eq_foldl]
  · have normalizedNe : events.map normalizeEvent ≠ [] := by simpa using empty
    rw [appendSlices_of_success (show _ = (appendAtomic decay chainHash db
      (events.map normalizeEvent), none) from rfl) normalizedNe]
    simp

end Refinement

theorem appendEvents_refines_appendEach_scan_and_end :
    ∃ final, appendEach halvingDecay (fun _ _ => ⟨List.replicate 32 0, rfl⟩) Db.empty
        [(sightingAt .portScan .tcp 5).event, (sightingAt .honeypotSessionEnd .tcp 3).event] =
          .ok final ∧
      appendEvents halvingDecay (fun _ _ => ⟨List.replicate 32 0, rfl⟩) (fun _ => none) Db.empty
        [(sightingAt .portScan .tcp 5).event, (sightingAt .honeypotSessionEnd .tcp 3).event] =
          (final, ⟨2, none⟩) := by
  refine appendEvents_refines_appendEach _ _ _ ?_
  intro event member
  simp only [List.mem_cons, List.not_mem_nil, or_false] at member
  rcases member with rfl | rfl <;> exact EventInput.fromSignal_valid (by decide) ..

end Propolis
