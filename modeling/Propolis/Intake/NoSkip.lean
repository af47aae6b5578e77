import Propolis.Intake.Sorting
import Propolis.Tailer.Exact

/-!
# Intake passes no line it has not dealt with

An `Intake` is a log, the runner that reads it, the ledger, the saved cursor, and
a record of what became of each line so far, with where the line begins.  The log
is appended to at any time.  A position of the tailer, or the saved one, stands
behind recorded lines only (`Accounted`), however the polls and restarts fall.
-/

namespace Propolis

open Bytes

inductive Fate where
  | appended | rejected | probe | stats | quarantined
  deriving DecidableEq

/-- What became of the line that begins at `start`. -/
structure Record where
  fate : Fate
  start : ℕ
  bytes : Bytes

/-- The record holds the line: its bytes in the quarantine, its text elsewhere. -/
def Record.Holds (record : Record) (line : Bytes) : Prop :=
  record.bytes = if record.fate = .quarantined then line else lossy line

structure Intake where
  log : Option Bytes
  runner : IntakeRunner
  ledger : List EventInput := []
  saved : Option CursorState := none
  records : List Record := []
  /-- The lines whose append was reported durable to this process. -/
  appendedRun : List ℕ := []
  /-- Those of them that were handed to the ledger again. -/
  reoffered : List ℕ := []

inductive IntakeAction where
  | poll (env : PollEnv)
  | restart

namespace Intake

variable (hash : Bytes → Digest) (reader : LineReader)

def start (log : Option Bytes) (quarantine : Bool) : Intake :=
  { log, runner := { tailer := LogTailer.new (logFs log) none, quarantine } }

/-- Where a line of the batch begins. -/
def placeOf (reading : LogTailer) (index : ℕ) : ℕ :=
  ((reading.uncommittedLine index).map Prod.fst).getD 0

def recordsOf (reading : LogTailer) (run : BatchRun) : List Record :=
  let record := fun fate index =>
    (⟨fate, placeOf reading index, run.lines.getD index []⟩ : Record)
  run.appended.map (record .appended) ++ run.rejected.map (record .rejected) ++
    run.probes.map (record .probe) ++ run.stats.map (record .stats) ++
    run.quarantined.toList.map fun set => ⟨.quarantined, set.1, set.2⟩

/-- The tailer of a poll once it has read its batch. -/
def reading (env : PollEnv) (intake : Intake) : List Bytes × LogTailer :=
  intake.runner.tailer.readBatchBounded hash intake.runner.batchSize maxBatchBytes env.read.look

/-- A poll; the cursor is saved when `cursor_moved` says so. -/
def poll (env : PollEnv) (intake : Intake) : Intake :=
  let read := (intake.reading hash env).2
  let run := intake.runner.runBatch hash reader env intake.ledger
  { log := env.commit.sight .refresh
    runner := run.runner
    ledger := run.ledger
    saved := if run.result.cursorMoved then some run.runner.tailer.persistCursor
      else run.saved <|> intake.saved
    records := intake.records ++ recordsOf read run
    appendedRun := intake.appendedRun ++ run.appended.map (placeOf read)
    reoffered := intake.reoffered ++
      (run.offered.map (placeOf read)).filter (· ∈ intake.appendedRun) }

/-- A crash, and a new process on the saved cursor. -/
def restart (intake : Intake) : Intake :=
  { intake with
    runner :=
      { tailer := LogTailer.new (logFs intake.log) intake.saved
        quarantine := intake.runner.quarantine }
    appendedRun := [] }

def step (intake : Intake) : IntakeAction → Intake
  | .poll env => intake.poll hash reader env
  | .restart => intake.restart

def run (intake : Intake) (actions : List IntakeAction) : Intake :=
  actions.foldl (step hash reader) intake

/-- The positions of the tailer, and the saved one. -/
def positions (intake : Intake) : List ℕ :=
  intake.runner.tailer.state.offset :: intake.runner.tailer.pendingDrains.map Prod.snd ++
    (intake.saved.map CursorState.offset).toList

end Intake

/-- The log is only appended to, before, between and during the calls of a poll. -/
def PollEnv.Appends (log : Option Bytes) (env : PollEnv) : Prop :=
  Grown log (env.read.sight .stat) ∧
    Grown (env.read.sight .refresh) (env.quarantineCommit.sight .stat) ∧
    Grown (env.quarantineCommit.sight .refresh) (env.commit.sight .stat)

instance (log : Option Bytes) (env : PollEnv) : Decidable (env.Appends log) :=
  inferInstanceAs (Decidable (_ ∧ _))

def Appends : Option Bytes → List IntakeAction → Prop
  | _, [] => True
  | log, .poll env :: later => env.Appends log ∧ Appends (env.commit.sight .refresh) later
  | log, .restart :: later => Appends log later

/-- A position behind complete lines, each of which is on record. -/
structure Accounted (content : Bytes) (records : List Record) (position : ℕ) : Prop where
  inside : position ≤ content.length
  clean : EndsClean (content.take position)
  passed : ∀ place ∈ linePlaces 0 (linesOf (content.take position)),
    ∃ record ∈ records, record.start = place.1 ∧ record.Holds place.2

variable {content : Bytes} {records : List Record} {env : PollEnv} {takens : List (List Bytes)}
  {exhausted : ℕ} {live : List Bytes} {offsets : List ℕ} {passed : ℕ} {lines : List Bytes}
  {index : ℕ} {place : ℕ × Bytes} {hash : Bytes → Digest} {reader : LineReader} {start : LogTailer}

namespace Accounted

variable {longer : Bytes} {position : ℕ}

theorem zero (content : Bytes) (records : List Record) : Accounted content records 0 := by
  refine ⟨Nat.zero_le _, Or.inl rfl, ?_⟩
  exact List.forall_mem_nil _

theorem grow (accounted : Accounted content records position) (extended : content <+: longer)
    (more : List Record) : Accounted longer (records ++ more) position := by
  have same := take_of_prefix extended accounted.inside
  refine ⟨accounted.inside.trans extended.length_le, ?_, ?_⟩
  · rw [same]
    exact accounted.clean
  · rw [same]
    intro place member
    rcases accounted.passed place member with ⟨record, known, here, holds⟩
    exact ⟨record, List.mem_append_left _ known, here, holds⟩

/-- Moving over lines that are on record. -/
theorem advance (accounted : Accounted content records position) {taken : List Bytes}
    (ahead : taken <+: linesOf (content.drop position))
    (known : ∀ place ∈ linePlaces position taken,
      ∃ record ∈ records, record.start = place.1 ∧ record.Holds place.2) :
    Accounted content records (position + (terminated taken).length) := by
  have before : (terminated (linesOf (content.take position))).length = position := by
    rw [← accounted.clean.eq_terminated, List.length_take, Nat.min_eq_left accounted.inside]
  refine ⟨inside_behind ahead accounted.inside, clean_behind ahead accounted.clean, ?_⟩
  rw [linesOf_behind ahead accounted.clean, linePlaces_append, before, Nat.zero_add]
  exact List.forall_mem_append.mpr ⟨accounted.passed, known⟩

end Accounted

section Batches

variable {parts : List (List Bytes)} {result : List TailEntry × LogTailer}

theorem accounted_movedPositions
    (ahead : List.Forall₂ (fun offset part => part <+: linesOf (content.drop offset)) offsets parts)
    (accounted : ∀ offset ∈ offsets, Accounted content records offset)
    (known : ∀ place ∈ sourcePlaces offsets parts, ∃ record ∈ records,
      record.start = place.1 ∧ record.Holds place.2) :
    ∀ position ∈ movedPositions offsets parts, Accounted content records position := by
  induction ahead with
  | nil =>
      exact List.forall_mem_nil _
  | @cons offset part offsets parts here _ ih =>
      intro position member
      rcases List.mem_cons.mp member with rfl | later
      · apply (accounted offset List.mem_cons_self).advance here
        intro place placeMember
        exact known place (List.mem_append_left _ placeMember)
      · apply ih _ _ position later
        · intro other otherMember
          exact accounted other (List.mem_cons_of_mem _ otherMember)
        · intro place placeMember
          exact known place (List.mem_append_right _ placeMember)

/-- The lines of a batch stand ahead of its offsets in the log, however it has grown since. -/
theorem BatchRead.ahead_in {watch : Watch}
    (read : BatchRead watch.look start takens exhausted live result)
    (drains : (watch.sight .drain).getD [] <+: content) (log : watch.content <+: content) :
    List.Forall₂ (fun offset taken => taken <+: linesOf (content.drop offset))
      (sourceOffsets start) (takens ++ [live]) := by
  apply List.rel_append
  · rw [List.forall₂_map_left_iff]
    refine read.each.imp ?_
    intro drain taken ahead
    exact ahead.trans (linesOf_mono (drains.drop drain.2))
  · have found : liveContent watch.look = watch.content := by
      simp only [liveContent, Watch.content, Watch.look]
      cases watch.sight .openLog with
      | none => rfl
      | some opened => rfl
    refine .cons ?_ .nil
    have ahead := read.ahead
    rw [found] at ahead
    exact ahead.trans (linesOf_mono (log.drop start.state.offset))

theorem prefixes_trans {ahead : List (List Bytes)}
    (beginnings : List.Forall₂ (fun part taken => part <+: taken) parts ahead)
    (each : List.Forall₂ (fun offset taken => taken <+: linesOf (content.drop offset))
      offsets ahead) :
    List.Forall₂ (fun offset part => part <+: linesOf (content.drop offset)) offsets parts := by
  induction beginnings generalizing offsets with
  | nil =>
      cases each
      exact .nil
  | cons here _ ih =>
      cases each with
      | cons first later => exact .cons (here.trans first) (ih later)

/-- How a batch leaves the tailer: over some lines of each source, the first `passed` of them. -/
theorem Moved.passedParts {appended : List ℕ} {tailer : LogTailer} {look : Look → Fs}
    (read : BatchRead look start takens exhausted live result) (fresh : start.uncommitted = none)
    (moved : Moved hash env result.2 (batchPlaces start takens live).length appended passed
      tailer) :
    ∃ parts, List.Forall₂ (fun part taken => part <+: taken) parts (takens ++ [live]) ∧
      sourcePlaces (sourceOffsets start) parts = (batchPlaces start takens live).take passed ∧
      Passed start parts tailer := by
  cases moved with
  | committed =>
      refine ⟨takens ++ [live], ?_, ?_, read.passed_commit⟩
      · apply List.forall₂_refl
      · rw [List.take_length]
        rfl
  | through some used commits =>
      refine ⟨_, uptoLines_prefixes passed _, sourcePlaces_uptoLines passed _ _, ?_⟩
      rcases read.commitThrough fresh hash passed _ with refused | accepted
      · rw [refused] at commits
        simp at commits
      · rw [accepted] at commits
        rw [← (Prod.mk.inj commits).2]
        exact read.passed_through passed
  | rewound why =>
      exact ⟨_, uptoLines_prefixes 0 _, sourcePlaces_uptoLines 0 _ _, read.passed_rewind fresh⟩

end Batches

section Soundness

variable {intake : Intake} {ledger : List EventInput}

/-- What holds after every poll and every restart. -/
structure Intake.Sound (reader : LineReader) (intake : Intake) : Prop where
  quiet : intake.runner.tailer.uncommitted = none
  size : 0 < intake.runner.batchSize
  accounted : ∀ position ∈ intake.positions,
    Accounted (intake.log.getD []) intake.records position
  durable : ∀ record ∈ intake.records, record.fate = .appended →
    ∃ input, reader.Converts record.bytes input ∧ normalizeEvent input ∈ intake.ledger

theorem persistCursor_offset (tailer : LogTailer) :
    tailer.persistCursor.offset ∈ tailer.state.offset :: tailer.pendingDrains.map Prod.snd := by
  rw [LogTailer.persistCursor]
  cases front : tailer.pendingDrains with
  | nil => simp
  | cons drain later =>
      cases found : tailer.resumes.find? (·.1 = drain.1) with
      | none => simp [found]
      | some resume => simp [found]

/-- A line that was dealt with is on record. -/
theorem recorded_of_fate {reading : LogTailer} {run : BatchRun}
    (handled : BatchHandled hash reader env reading lines ledger run passed)
    (before : index < passed) (text : lines[index]? = some (lossy place.2))
    (located : reading.uncommittedLine index =
      some (place.1, if lossy place.2 = place.2 then none else some place.2)) :
    ∃ record ∈ Intake.recordsOf reading run, record.start = place.1 ∧ record.Holds place.2 := by
  have start : Intake.placeOf reading index = place.1 := by simp [Intake.placeOf, located]
  have bytes : run.lines.getD index [] = lossy place.2 := by
    simp [handled.lines_eq, text]
  have plain : ∀ fate : Fate, fate ≠ .quarantined →
      (⟨fate, Intake.placeOf reading index, run.lines.getD index []⟩ : Record).Holds place.2 := by
    intro fate other
    rw [Record.Holds, bytes, if_neg other]
  simp only [Intake.recordsOf]
  rcases handled.fates index before with appended | rejected | probe | stats | set
  · refine ⟨_, ?_, start, plain .appended (by decide)⟩
    simp only [List.mem_append]
    exact Or.inl (Or.inl (Or.inl (Or.inl (List.mem_map_of_mem appended))))
  · refine ⟨_, ?_, start, plain .rejected (by decide)⟩
    simp only [List.mem_append]
    exact Or.inl (Or.inl (Or.inl (Or.inr (List.mem_map_of_mem rejected))))
  · refine ⟨_, ?_, start, plain .probe (by decide)⟩
    simp only [List.mem_append]
    exact Or.inl (Or.inl (Or.inr (List.mem_map_of_mem probe)))
  · refine ⟨_, ?_, start, plain .stats (by decide)⟩
    simp only [List.mem_append]
    exact Or.inl (Or.inr (List.mem_map_of_mem stats))
  · rcases set with ⟨found, line, place_eq, line_eq, quarantined⟩
    rw [located, Option.some.injEq] at place_eq
    rw [handled.lines_eq, text, Option.some.injEq] at line_eq
    subst place_eq line_eq
    have raw : (if lossy place.2 = place.2 then none else some place.2).getD (lossy place.2) =
        place.2 := by
      by_cases same : lossy place.2 = place.2 <;> simp [same]
    rw [raw] at quarantined
    refine ⟨⟨.quarantined, place.1, place.2⟩, ?_, rfl, ?_⟩
    · rw [quarantined]
      exact List.mem_append_right _ (List.mem_singleton.mpr rfl)
    · rw [Record.Holds, if_pos rfl]

/-- The records of appended lines are in the ledger. -/
theorem appended_durable {reading : LogTailer} {run : BatchRun}
    (handled : BatchHandled hash reader env reading lines ledger run passed) {record : Record}
    (member : record ∈ Intake.recordsOf reading run) (appended : record.fate = .appended) :
    ∃ input, reader.Converts record.bytes input ∧ normalizeEvent input ∈ run.ledger := by
  simp only [Intake.recordsOf, List.mem_append, List.mem_map] at member
  rcases member with
    (((⟨index, here, rfl⟩ | ⟨index, -, rfl⟩) | ⟨index, -, rfl⟩) | ⟨index, -, rfl⟩) | ⟨set, -, rfl⟩
  · rcases handled.durable index here with ⟨line, input, found, converts, row⟩
    refine ⟨input, ?_, row⟩
    simpa [handled.lines_eq, List.getD, found] using converts
  · simp at appended
  · simp at appended
  · simp at appended
  · simp at appended

/-- The log at the end of a poll, seen from the looks of its read. -/
theorem PollEnv.Appends.last {log : Option Bytes} (appends : env.Appends log) :
    Grown (env.read.sight .refresh) (env.commit.sight .refresh) := by
  have quarantine := env.quarantineCommit.grows .stat .refresh (by decide)
  have commit := env.commit.grows .stat .refresh (by decide)
  exact appends.2.1.trans (quarantine.trans (appends.2.2.trans commit))

/-- What a poll reads, and what it does with it. -/
structure Polled (hash : Bytes → Digest) (reader : LineReader) (env : PollEnv) (intake : Intake)
    (start : LogTailer) (takens : List (List Bytes)) (exhausted : ℕ) (live : List Bytes)
    (passed : ℕ) : Prop where
  still : NoFurther intake.runner.tailer start
  read : BatchRead env.read.look start takens exhausted live
    (intake.runner.tailer.readEntries hash intake.runner.batchSize maxBatchBytes env.read.look)
  handled : BatchHandled hash reader env (intake.reading hash env).2 (intake.reading hash env).1
    intake.ledger (intake.runner.runBatch hash reader env intake.ledger) passed

theorem Intake.Sound.polled (sound : intake.Sound reader) (hash : Bytes → Digest)
    (env : PollEnv) :
    ∃ takens exhausted live passed, Polled hash reader env intake
      (intake.runner.tailer.handleRotation hash env.read.look) takens exhausted live passed := by
  rcases runBatch_handled hash reader env intake.ledger intake.runner with ⟨passed, handled⟩
  rcases @readEntries_batchRead hash env.read.look intake.runner.batchSize maxBatchBytes
    intake.runner.tailer sound.size with ⟨takens, exhausted, live, read⟩
  exact ⟨takens, exhausted, live, passed, handleRotation_noFurther sound.quiet hash env.read, read,
    handled⟩

namespace Polled

section

variable (polled : Polled hash reader env intake start takens exhausted live passed)
include polled

theorem lines_eq :
    (intake.reading hash env).1 =
      (batchPlaces start takens live).map fun place => lossy place.2 :=
  polled.read.texts_places

theorem length_eq :
    (intake.reading hash env).1.length = (batchPlaces start takens live).length := by
  rw [polled.lines_eq, List.length_map]

/-- The tailer knows where a line of the batch begins. -/
theorem located (found : (batchPlaces start takens live)[index]? = some place) :
    (intake.reading hash env).2.uncommittedLine index =
      some (place.1, if lossy place.2 = place.2 then none else some place.2) :=
  polled.read.uncommittedLine polled.still.quiet found

/-- The lines that were passed are on record. -/
theorem known :
    ∀ place ∈ (batchPlaces start takens live).take passed, ∃ record ∈ Intake.recordsOf
      (intake.reading hash env).2 (intake.runner.runBatch hash reader env intake.ledger),
      record.start = place.1 ∧ record.Holds place.2 := by
  intro place member
  rcases List.mem_iff_getElem?.mp member with ⟨index, found⟩
  rw [List.getElem?_take] at found
  split at found
  · rename_i before
    apply recorded_of_fate polled.handled before
    · rw [polled.lines_eq, List.getElem?_map, found]
      rfl
    · exact polled.located found
  · simp at found

theorem parts :
    ∃ parts, List.Forall₂ (fun part taken => part <+: taken) parts (takens ++ [live]) ∧
      sourcePlaces (sourceOffsets start) parts = (batchPlaces start takens live).take passed ∧
      Passed start parts (intake.runner.runBatch hash reader env intake.ledger).runner.tailer := by
  have moved := polled.handled.moved
  rw [polled.length_eq] at moved
  exact moved.passedParts polled.read polled.still.quiet

end

end Polled

/-- What is saved is where the tailer stands, or what was saved before. -/
theorem Polled.saved (polled : Polled hash reader env intake start takens exhausted live passed) :
    (intake.poll hash reader env).saved =
        some (intake.poll hash reader env).runner.tailer.persistCursor ∨
      (intake.poll hash reader env).saved = intake.saved := by
  simp only [Intake.poll]
  split
  · exact Or.inl rfl
  · rcases polled.handled.saved with none | some
    · rw [none]
      right
      cases intake.saved <;> rfl
    · rw [some]
      exact Or.inl rfl

theorem Intake.Sound.poll (sound : intake.Sound reader) (appends : env.Appends intake.log) :
    (intake.poll hash reader env).Sound reader := by
  rcases sound.polled hash env with ⟨takens, exhausted, live, passed, polled⟩
  rcases polled.parts with ⟨parts, beginnings, places, over_⟩
  have last := appends.last.content
  have drains : (env.read.sight .drain).getD [] <+: (env.commit.sight .refresh).getD [] :=
    (env.read.grows .drain .refresh (by decide)).content.trans last
  have reads : env.read.content <+: (env.commit.sight .refresh).getD [] :=
    env.read.content_refresh.trans last
  have grown : intake.log.getD [] <+: (env.commit.sight .refresh).getD [] :=
    (Watch.content_grown appends.1).trans reads
  have older : ∀ position ∈ intake.positions, Accounted ((env.commit.sight .refresh).getD [])
      (intake.poll hash reader env).records position :=
    fun position member => (sound.accounted position member).grow grown _
  have offsets : ∀ offset ∈ sourceOffsets
      (intake.runner.tailer.handleRotation hash env.read.look),
      Accounted ((env.commit.sight .refresh).getD []) (intake.poll hash reader env).records
        offset := by
    intro offset member
    have position : offset ∈
        (intake.runner.tailer.handleRotation hash env.read.look).state.offset ::
        (intake.runner.tailer.handleRotation hash env.read.look).pendingDrains.map Prod.snd := by
      rcases List.mem_append.mp member with drain | live
      · exact List.mem_cons_of_mem _ drain
      · rw [List.mem_singleton.mp live]
        exact List.mem_cons_self
    rcases polled.still.positions offset position with zero | old
    · rw [zero]
      exact Accounted.zero _ _
    · apply older
      exact List.mem_append_left _ old
  have moved := accounted_movedPositions
    (prefixes_trans beginnings (polled.read.ahead_in drains reads)) offsets (by
      rw [places]
      intro place member
      rcases polled.known place member with ⟨record, made, holds⟩
      exact ⟨record, List.mem_append_right _ made, holds⟩)
  have positions : ∀ offset ∈ (intake.poll hash reader env).runner.tailer.state.offset ::
      (intake.poll hash reader env).runner.tailer.pendingDrains.map Prod.snd,
      Accounted ((env.commit.sight .refresh).getD []) (intake.poll hash reader env).records
        offset := by
    intro offset member
    rcases List.mem_cons.mp member with rfl | drain
    · exact moved _ over_.live
    · exact moved _ (over_.drains offset drain)
  refine ⟨over_.quiet, polled.handled.size, ?_, ?_⟩
  · intro position member
    rcases List.mem_append.mp member with tailer | saved
    · exact positions position tailer
    · rw [Option.mem_toList] at saved
      rcases polled.saved with moved | kept
      · rw [moved] at saved
        rw [← Option.some.inj saved]
        exact positions _ (persistCursor_offset _)
      · rw [kept] at saved
        apply older
        apply List.mem_append_right
        rw [Option.mem_toList]
        exact saved
  · intro record member appended
    rcases List.mem_append.mp member with old | new
    · rcases sound.durable record old appended with ⟨input, converts, row⟩
      exact ⟨input, converts, polled.handled.kept _ row⟩
    · exact appended_durable polled.handled new appended

theorem Intake.Sound.restart (sound : intake.Sound reader) : intake.restart.Sound reader := by
  refine ⟨rfl, Nat.succ_pos _, ?_, sound.durable⟩
  intro position member
  rcases List.mem_append.mp member with tailer | saved
  · have here : position = (intake.saved.getD ⟨0, 0, zeroHash, none⟩).offset :=
      List.mem_singleton.mp tailer
    cases cursor : intake.saved with
    | none =>
        rw [cursor] at here
        rw [here]
        exact Accounted.zero _ _
    | some state =>
        apply sound.accounted
        apply List.mem_append_right
        rw [here, cursor]
        simp
  · exact sound.accounted position (List.mem_append_right _ saved)

theorem Intake.Sound.run {actions : List IntakeAction} (sound : intake.Sound reader)
    (appends : Appends intake.log actions) : (intake.run hash reader actions).Sound reader := by
  induction actions generalizing intake with
  | nil => exact sound
  | cons action later ih =>
      cases action with
      | poll env => exact ih (sound.poll appends.1) appends.2
      | restart => exact ih sound.restart appends

theorem Intake.start_sound (log : Option Bytes) (quarantine : Bool) :
    (Intake.start log quarantine).Sound reader := by
  refine ⟨rfl, Nat.succ_pos _, ?_, ?_⟩
  · intro position member
    have here : position = 0 := List.mem_singleton.mp member
    rw [here]
    exact Accounted.zero _ _
  · exact List.forall_mem_nil _

end Soundness

end Propolis
