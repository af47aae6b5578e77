import Propolis.Ledger.Runs

/-!
# Replay

`rebuild_projection` (`repository/replay.rs`) folds a source's scored ledger rows
from nothing, computing the inputs of every round from the rows before it.  The
append path takes the same inputs from three places it maintains: a maximum over
the ledger, the vantage table and the sensor set.  After every run all three are
the aggregates of the source's rows and the stored projection is the replayed
one (`Consistent`).  The induction is over the calls; the step is one more event
at the end of its own source's history, and at the end of no other.
-/

namespace Propolis

section Definitions

/-- The newest earlier observation of a signal. -/
def priorObserved (earlier : List EventInput) (signalType : SignalType) : Option ℤ :=
  ((earlier.filter (·.signalType = signalType)).map (·.observedAt)).max?

/-- Finds the vantage and joins the flag to it, or adds one. -/
def orVantage (wan : IpAddr) (flag : Bool) : List WanVantage → List WanVantage
  | [] => [⟨wan, flag⟩]
  | vantage :: rest =>
      if vantage.wanIp = wan then
        { vantage with sawAuthenticatedTcp := vantage.sawAuthenticatedTcp || flag } :: rest
      else
        vantage :: orVantage wan flag rest

def addVantage (vantages : List WanVantage) (event : EventInput) : List WanVantage :=
  match event.wanIp with
  | none => vantages
  | some wan => orVantage wan event.authenticatedTcp vantages

def replayVantages (events : List EventInput) : List WanVantage :=
  events.foldl addVantage []

/-- Sorting and removing repeats leaves one of each name. -/
def replaySensors (events : List EventInput) : List String :=
  (events.map (·.sensor)).dedup

variable (decay : ℚ → ℤ → ℤ → ℚ)

/-- Round `k` of the replay. -/
def replayRound (events : List EventInput) (acc : Option IpScore) (k : ℕ) : Option IpScore :=
  match events[k]? with
  | none => acc
  | some event =>
      let deduped := isDeduped event.observedAt
        (priorObserved (events.take k) event.signalType)
      let vantages := replayVantages (events.take (k + 1))
      let sensors := replaySensors (events.take (k + 1))
      some (applyEvent decay acc event halfLifeSeconds deduped
        (asI32 (distinctWanCount vantages.toFinset)) (asI32 sensors.length))

def replay (events : List EventInput) : Option IpScore :=
  (List.range events.length).foldl (replayRound decay events) none

/-- The source's scored rows in id order, read back as events. -/
def sourceEvents (rows : List EventRow) (ip : IpAddr) : List EventInput :=
  (rows.filter fun row => row.sourceIp = ip ∧ row.signalType.isTelemetry = false).map
    reconstructEvent

def rebuildProjection (ledger : Ledger) (ip : IpAddr) : Option IpScore :=
  replay decay (sourceEvents ledger.rows ip)

end Definitions

section Vantages

variable {vantages : List WanVantage}

/-- The flag the list holds for a WAN. -/
def lookupVantage (vantages : List WanVantage) (wan : IpAddr) : Option Bool :=
  (vantages.find? (·.wanIp = wan)).map (·.sawAuthenticatedTcp)

theorem lookupVantage_orVantage (wan : IpAddr) (flag : Bool) (vantages : List WanVantage)
    (key : IpAddr) :
    lookupVantage (orVantage wan flag vantages) key =
      if key = wan then some ((lookupVantage vantages wan).getD false || flag)
      else lookupVantage vantages key := by
  induction vantages with
  | nil =>
      by_cases same : wan = key
      · simp [orVantage, lookupVantage, same]
      · simp [orVantage, lookupVantage, same, Ne.symm same]
  | cons vantage rest ih =>
      unfold orVantage
      by_cases here : vantage.wanIp = wan
      · by_cases same : key = wan
        · simp [lookupVantage, here, same]
        · simp [lookupVantage, here, same, Ne.symm same]
      · rw [if_neg here]
        by_cases first : vantage.wanIp = key
        · have different : key ≠ wan := by
            rintro rfl
            exact here first
          simp [lookupVantage, first, different]
        · unfold lookupVantage
          simp only [List.find?_cons, first, here]
          exact ih

theorem mem_map_wanIp_orVantage (wan : IpAddr) (flag : Bool) (vantages : List WanVantage)
    (key : IpAddr) :
    key ∈ (orVantage wan flag vantages).map (·.wanIp) ↔
      key = wan ∨ key ∈ vantages.map (·.wanIp) := by
  induction vantages with
  | nil => simp [orVantage]
  | cons vantage rest ih =>
      unfold orVantage
      split_ifs with here
      · simp [here]
      · rw [List.map_cons, List.mem_cons, List.map_cons, List.mem_cons]
        tauto

theorem nodup_orVantage (wan : IpAddr) (flag : Bool) (nodup : (vantages.map (·.wanIp)).Nodup) :
    ((orVantage wan flag vantages).map (·.wanIp)).Nodup := by
  induction vantages with
  | nil => simp [orVantage]
  | cons vantage rest ih =>
      rw [List.map_cons, List.nodup_cons] at nodup
      unfold orVantage
      split_ifs with here
      · rw [List.map_cons, List.nodup_cons]
        exact nodup
      · rw [List.map_cons, List.nodup_cons, mem_map_wanIp_orVantage, not_or]
        exact ⟨⟨here, nodup.1⟩, ih nodup.2⟩

/-- The list of a replay and the table of the append path hold the same vantages. -/
structure SameVantages (vantages : List WanVantage) (table : VantageTable) : Prop where
  nodup : (vantages.map (·.wanIp)).Nodup
  lookup : ∀ wan, table.lookup wan = lookupVantage vantages wan

theorem lookupVantage_of_mem
    (nodup : (vantages.map (·.wanIp)).Nodup) {vantage : WanVantage} (member : vantage ∈ vantages) :
    lookupVantage vantages vantage.wanIp = some vantage.sawAuthenticatedTcp := by
  induction vantages with
  | nil => simp at member
  | cons first rest ih =>
      rw [List.map_cons, List.nodup_cons] at nodup
      rcases List.mem_cons.mp member with rfl | later
      · simp [lookupVantage]
      · have different : first.wanIp ≠ vantage.wanIp := by
          intro same
          exact nodup.1 (List.mem_map.mpr ⟨vantage, later, same.symm⟩)
        have rest := ih nodup.2 later
        unfold lookupVantage
        rw [List.find?_cons_of_neg (by simpa using different)]
        exact rest

/-- The breadth count reads the same rows from either. -/
theorem SameVantages.rows_eq {table : VantageTable}
    (same : SameVantages vantages table) : vantageRows table = vantages.toFinset := by
  ext vantage
  simp only [vantageRows, Finset.mem_image, List.mem_toFinset]
  constructor
  · rintro ⟨wan, present, rfl⟩
    rcases Finmap.mem_iff.mp present with ⟨flag, found⟩
    have listed := same.lookup wan
    rw [found] at listed
    rcases Option.map_eq_some_iff.mp listed.symm with ⟨entry, entryFound, rfl⟩
    have isWan : entry.wanIp = wan := by simpa using List.find?_some entryFound
    rw [found]
    subst isWan
    exact List.mem_of_find?_eq_some entryFound
  · intro member
    have found := (same.lookup vantage.wanIp).trans (lookupVantage_of_mem same.nodup member)
    exact ⟨vantage.wanIp, Finmap.mem_iff.mpr ⟨_, found⟩, by rw [found]; rfl⟩

end Vantages

section Consistency

variable {decay : ℚ → ℤ → ℤ → ℚ} {chainHash : Option Digest → EventInput → Digest}
  {event : EventInput} {db : Db}

theorem replay_append (events : List EventInput) (event : EventInput) :
    replay decay (events ++ [event]) =
      some (applyEvent decay (replay decay events) event halfLifeSeconds
        (isDeduped event.observedAt (priorObserved events event.signalType))
        (asI32 (distinctWanCount (replayVantages (events ++ [event])).toFinset))
        (asI32 (replaySensors (events ++ [event])).length)) := by
  have earlier : (List.range events.length).foldl (replayRound decay (events ++ [event])) none =
      replay decay events := by
    refine List.foldl_ext _ _ none fun acc k member => ?_
    have inside := List.mem_range.mp member
    unfold replayRound
    rw [List.getElem?_append_left inside, List.take_append_of_le_length (by omega),
      List.take_append_of_le_length (by omega)]
  have whole : (events ++ [event]).take (events.length + 1) = events ++ [event] :=
    List.take_of_length_le (by simp)
  rw [replay, List.length_append, List.length_singleton, List.range_succ, List.foldl_append,
    earlier, List.foldl_cons, List.foldl_nil]
  unfold replayRound
  rw [List.getElem?_concat_length, List.take_left, whole]

/-- The rows of a source and a scored signal are among its scored rows. -/
theorem dedupPrior_eq_priorObserved (rows : List EventRow) (ip : IpAddr)
    {signalType : SignalType} (scorable : signalType.isTelemetry = false) :
    dedupPrior rows ip signalType = priorObserved (sourceEvents rows ip) signalType := by
  unfold dedupPrior priorObserved sourceEvents
  rw [List.filter_map, List.map_map, List.filter_filter]
  congr 2
  refine List.filter_congr fun row _ => ?_
  by_cases signal : row.signalType = signalType
  · simp [reconstructEvent, signal, scorable]
  · simp [reconstructEvent, signal]

/-- A new row is the last event of its own source if it is scored, and else of none. -/
theorem sourceEvents_append (stored : event.Stored) (rows : List EventRow)
    (id : ℕ) (prevHash : Option Digest) (hash : Digest) (ip : IpAddr) :
    sourceEvents (rows ++ [eventRow id event prevHash hash]) ip =
      if event.sourceIp = ip ∧ event.signalType.isTelemetry = false then
        sourceEvents rows ip ++ [{ event with sessionId := none }]
      else sourceEvents rows ip := by
  have back := reconstructEvent_eventRow stored id prevHash hash
  unfold sourceEvents
  rw [List.filter_append, List.map_append]
  split_ifs with mine
  · have kept : [eventRow id event prevHash hash].filter (fun row =>
        row.sourceIp = ip ∧ row.signalType.isTelemetry = false) =
          [eventRow id event prevHash hash] := by
      simp [eventRow, mine.1, mine.2]
    rw [kept, List.map_singleton, back]
  · have dropped : [eventRow id event prevHash hash].filter (fun row =>
        row.sourceIp = ip ∧ row.signalType.isTelemetry = false) = [] := by
      simpa [eventRow] using mine
    rw [dropped, List.map_nil, List.append_nil]

/-- Every table is what the ledger's rows of the source determine. -/
structure Consistent (decay : ℚ → ℤ → ℤ → ℚ) (db : Db) : Prop where
  vantages : ∀ ip, SameVantages (replayVantages (sourceEvents db.event.rows ip)) (db.ipVantage ip)
  sensors : ∀ ip, db.ipSensor ip = (replaySensors (sourceEvents db.event.rows ip)).toFinset
  score : ∀ ip, db.ipScore ip = rebuildProjection decay db.event ip

theorem consistent_empty : Consistent decay Db.empty where
  vantages ip := ⟨by simp [Db.empty, Ledger.empty, sourceEvents, replayVantages], fun wan => by
    simp [Db.empty, Ledger.empty, sourceEvents, replayVantages, lookupVantage]⟩
  sensors ip := by simp [Db.empty, Ledger.empty, sourceEvents, replaySensors]
  score ip := rfl

theorem replayVantages_append (events : List EventInput) (event : EventInput) :
    replayVantages (events ++ [event]) = addVantage (replayVantages events) event := by
  simp [replayVantages]

section

variable (consistent : Consistent decay db)
include consistent

theorem Consistent.vantagesAfter (event : EventInput) :
    SameVantages (addVantage (replayVantages (sourceEvents db.event.rows event.sourceIp)) event)
      (vantagesAfter db event) := by
  have same := consistent.vantages event.sourceIp
  unfold Propolis.vantagesAfter addVantage
  cases event.wanIp with
  | none => exact same
  | some wan =>
      refine ⟨nodup_orVantage wan event.authenticatedTcp same.nodup, fun key => ?_⟩
      rw [lookup_upsertVantage, lookupVantage_orVantage, same.lookup, same.lookup]

theorem Consistent.sensorsAfter (event : EventInput) :
    sensorsAfter db event =
      (replaySensors (sourceEvents db.event.rows event.sourceIp ++
        [{ event with sessionId := none }])).toFinset := by
  unfold Propolis.sensorsAfter
  rw [consistent.sensors]
  ext name
  simp [replaySensors, or_comm]

/-- The projection a scored event leaves is the replay of the history it extends. -/
theorem Consistent.scoreAfter (scorable : event.signalType.isTelemetry = false) :
    some (scoreAfter decay db event) =
      replay decay (sourceEvents db.event.rows event.sourceIp ++
        [{ event with sessionId := none }]) := by
  have sensorCount : (Propolis.sensorsAfter db event).card =
      (replaySensors (sourceEvents db.event.rows event.sourceIp ++
        [{ event with sessionId := none }])).length := by
    rw [consistent.sensorsAfter]
    exact List.toFinset_card_of_nodup (List.nodup_dedup _)
  rw [replay_append, Propolis.scoreAfter, consistent.score,
    dedupPrior_eq_priorObserved db.event.rows event.sourceIp scorable,
    (consistent.vantagesAfter event).rows_eq, replayVantages_append, sensorCount]
  rfl

/-- Telemetry is a row and nothing else. -/
theorem Consistent.appendTelemetry
    (stored : event.Stored) (telemetry : event.signalType.isTelemetry = true) :
    Consistent decay { db with event := (insertChained chainHash db.event event).1 } := by
  have unmoved : ∀ ip, sourceEvents
      (db.event.insert event db.event.head (chainHash db.event.head event)).rows ip =
        sourceEvents db.event.rows ip := by
    intro ip
    rw [Ledger.insert_rows, sourceEvents_append stored]
    simp [telemetry]
  constructor
  · intro ip
    simp only [insertChained, unmoved]
    exact consistent.vantages ip
  · intro ip
    simp only [insertChained, unmoved]
    exact consistent.sensors ip
  · intro ip
    simp only [insertChained, rebuildProjection, unmoved]
    exact consistent.score ip

/-- A scored event moves its own source on by one replayed event, and no other source. -/
theorem Consistent.appendScored (stored : event.Stored)
    (telemetry : event.signalType.isTelemetry = false) :
    Consistent decay (appendScored decay chainHash db event).1 := by
  have grown : ∀ ip, sourceEvents
      (db.event.insert event db.event.head (chainHash db.event.head event)).rows ip =
        if event.sourceIp = ip then
          sourceEvents db.event.rows ip ++ [{ event with sessionId := none }]
        else sourceEvents db.event.rows ip := by
    intro ip
    rw [Ledger.insert_rows, sourceEvents_append stored]
    simp [telemetry]
  rw [appendScored_fst]
  constructor
  · intro ip
    simp only [grown]
    by_cases mine : event.sourceIp = ip
    · subst mine
      rw [if_pos rfl, Function.update_self, replayVantages_append]
      exact consistent.vantagesAfter event
    · rw [if_neg mine, Function.update_of_ne (Ne.symm mine)]
      exact consistent.vantages ip
  · intro ip
    simp only [grown]
    by_cases mine : event.sourceIp = ip
    · subst mine
      rw [if_pos rfl, Function.update_self]
      exact consistent.sensorsAfter event
    · rw [if_neg mine, Function.update_of_ne (Ne.symm mine)]
      exact consistent.sensors ip
  · intro ip
    simp only [rebuildProjection, grown]
    by_cases mine : event.sourceIp = ip
    · subst mine
      rw [if_pos rfl, Function.update_self]
      exact consistent.scoreAfter telemetry
    · rw [if_neg mine, Function.update_of_ne (Ne.symm mine)]
      exact consistent.score ip

theorem Consistent.appendNormalized (stored : event.Stored) :
    Consistent decay (appendNormalized decay chainHash db event) := by
  cases telemetry : event.signalType.isTelemetry with
  | true =>
      simp only [Propolis.appendNormalized, telemetry]
      exact consistent.appendTelemetry stored telemetry
  | false =>
      simp only [Propolis.appendNormalized, telemetry]
      exact consistent.appendScored stored telemetry

end

theorem run_consistent (calls : List Call) : Consistent decay (run decay chainHash calls) :=
  run_invariant (fun _ _ consistent => { consistent with })
    (fun _ _ stored consistent => consistent.appendNormalized stored) consistent_empty calls

theorem replay_eq_none_iff (events : List EventInput) :
    replay decay events = none ↔ events = [] := by
  cases events using List.reverseRecOn with
  | nil => simp [replay]
  | append_singleton => simp [replay_append]

end Consistency

/--
Replay reproduces the incremental projection: after every run of the append
paths, folding a source's scored rows from nothing gives the stored row, and
neither exists exactly when the source has no scored row.
-/
theorem rebuildProjection_eq_stored (decay : ℚ → ℤ → ℤ → ℚ)
    (chainHash : Option Digest → EventInput → Digest) (calls : List Call) (ip : IpAddr) :
    rebuildProjection decay (run decay chainHash calls).event ip =
        (run decay chainHash calls).ipScore ip ∧
      ((run decay chainHash calls).ipScore ip = none ↔
        ∀ row ∈ (run decay chainHash calls).event.rows,
          row.sourceIp = ip → row.signalType.isTelemetry = true) := by
  have stored := (@run_consistent decay chainHash calls).score ip
  refine ⟨stored.symm, ?_⟩
  rw [stored, rebuildProjection, replay_eq_none_iff, sourceEvents]
  simp

end Propolis
