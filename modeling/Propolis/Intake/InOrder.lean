import Propolis.Intake.NoSkip

/-!
# Intake appends no line twice

Polls that are not disturbed keep the tailer where it is or move it forward over
the lines it has dealt with (`Between`), so that what a process has appended stays
behind its position (`Intake.InOrder`) and is not handed to the ledger again.

A disturbed poll reads its log again from the beginning, and a line longer than
`MAX_LINE_BYTES` is passed without a record.
-/

namespace Propolis

open Bytes

variable {appended : List ℕ} {passed : ℕ} {tailer : LogTailer} {log : Option Bytes}
  {state : CursorState} {index : ℕ} {line : Bytes}

section Order

variable {hash : Bytes → Digest} {reader : LineReader} {env : PollEnv} {intake : Intake}
  {start : LogTailer} {live : List Bytes} {exhausted : ℕ}
  {result : List TailEntry × LogTailer}

/-- A tailer that stands between where the batch began and where it read to, behind the lines it
has passed. -/
structure Between (start after tailer : LogTailer) (passedPlaces : List (ℕ × Bytes)) : Prop where
  state : tailer.state = { after.state with offset := tailer.state.offset }
  drains : tailer.pendingDrains = []
  file : tailer.file = after.file
  from_ : start.state.offset ≤ tailer.state.offset
  upto : tailer.state.offset ≤ after.state.offset
  behind : ∀ place ∈ passedPlaces, place.1 < tailer.state.offset

theorem batchPlaces_live (drains : start.pendingDrains = []) :
    batchPlaces start [] live = linePlaces start.state.offset live := by
  simp [batchPlaces, drains, sourcePlaces]

theorem terminated_length_le {front whole : List Bytes} (beginning : front <+: whole) :
    (terminated front).length ≤ (terminated whole).length := by
  rcases beginning with ⟨rest, rfl⟩
  rw [terminated_append, List.length_append]
  exact Nat.le_add_right _ _

theorem Moved.between {look : Look → Fs} (read : BatchRead look start [] exhausted live result)
    (fresh : start.uncommitted = none) (drains : start.pendingDrains = [])
    (moved : Moved hash env result.2 (batchPlaces start [] live).length appended passed tailer) :
    Between start result.2 tailer ((batchPlaces start [] live).take passed) := by
  have after : result.2.state.offset = start.state.offset + (terminated live).length := by
    rw [read.state]
  have none : result.2.pendingDrains = [] := by
    rw [read.pending]
    simp [advanced]
  rw [batchPlaces_live drains] at moved ⊢
  cases moved with
  | committed =>
      refine ⟨rfl, none, rfl, ?_, le_rfl, ?_⟩
      · simp only [LogTailer.commitBatch]
        omega
      · intro place member
        rw [List.take_length] at member
        simp only [LogTailer.commitBatch, after]
        exact (linePlaces_bounds member).2
  | through some used commits =>
      rcases read.commitThrough fresh hash passed _ with refused | accepted
      · rw [refused] at commits
        simp at commits
      · rw [accepted] at commits
        rw [← (Prod.mk.inj commits).2]
        simp only [movedThrough, List.flatten_nil, texts_nil]
        refine ⟨?_, ?_, rfl, ?_, ?_, ?_⟩
        · rw [read.state]
        · simp [drains, advanced]
        · exact Nat.le_add_right _ _
        · rw [after]
          exact Nat.add_le_add_left (terminated_length_le (uptoLine_initial _ live)) _
        · intro place member
          apply (linePlaces_bounds _).2
          rw [linePlaces_uptoLine, ← linePlaces_length start.state.offset live,
            ← List.take_eq_take_min]
          exact member
  | rewound why =>
      rw [read.rewind fresh]
      refine ⟨?_, drains, rfl, le_rfl, ?_, ?_⟩
      · rw [read.state]
      · dsimp only
        omega
      · exact List.forall_mem_nil _

/-- The tailer fits the log, and has passed what this process has appended. -/
structure Intake.InOrder (hash : Bytes → Digest) (intake : Intake) : Prop where
  settled : Settled hash False intake.log intake.runner.tailer
  saved : ∀ state, intake.saved = some state → Placed hash False intake.log state
  before : ∀ start ∈ intake.appendedRun, start < intake.runner.tailer.state.offset
  once : intake.appendedRun.Nodup
  fresh : intake.reoffered = []

/-- A cursor that fits the log fits it further back too. -/
theorem Placed.back (placed : Placed hash False log state) {offset : ℕ}
    (before : offset ≤ state.offset) : Placed hash False log { state with offset := offset } := by
  cases placed with
  | unseen inode zero len =>
      apply Placed.unseen
      · exact inode
      · dsimp only
        omega
      · exact len
  | seen inode inside stamped unread =>
      apply Placed.seen
      · exact inode
      · exact before.trans inside
      · exact { stamped with }
      · intro empty
        have start := (unread empty).resolve_right id
        exact Or.inl (Nat.le_zero.mp (start ▸ before))

/-- A tailer that has read lines of a log that is only appended to sees no rotation. -/
theorem Placed.unrotated (placed : Placed hash False log state) (read : 0 < state.offset)
    {watch : Watch} (grown : Grown log (watch.sight .stat)) :
    detectRotation hash (watch.look .stat) (watch.look .head) state = .none := by
  cases placed with
  | unseen => omega
  | @seen content _ window inode inside stamped unread =>
      rcases detectRotation_of_seen inode inside stamped grown
        (watch.grows .stat .head (by decide)) with same | ⟨empty, _⟩
      · exact same
      · have start := (unread empty).resolve_right id
        omega

/-- An undisturbed poll of a settled tailer reads the log alone. -/
structure PolledLog (hash : Bytes → Digest) (reader : LineReader) (env : PollEnv)
    (intake : Intake) (start : LogTailer) (exhausted : ℕ) (live : List Bytes) (passed : ℕ) :
    Prop where
  polled : Polled hash reader env intake start [] exhausted live passed
  drains : start.pendingDrains = []
  offset : start.state.offset = intake.runner.tailer.state.offset
  settled : Settled hash False (env.read.sight .refresh) (intake.reading hash env).2

theorem Intake.InOrder.polledLog (inOrder : intake.InOrder hash) (sound : intake.Sound reader)
    (appends : env.Appends intake.log) (undisturbed : env.read.Undisturbed) :
    ∃ exhausted live passed, PolledLog hash reader env intake
      (intake.runner.tailer.handleRotation hash env.read.look) exhausted live passed := by
  have rotated := handleRotation_settled inOrder.settled sound.quiet nofun appends.1
  have pollRead : PollRead hash env.read intake.runner.batchSize maxBatchBytes
      intake.runner.tailer _ :=
    readEntries_settled inOrder.settled sound.quiet nofun appends.1 undisturbed.1 sound.size
  rcases sound.polled hash env with ⟨takens, exhausted, live, passed, polled⟩
  have none : takens = [] := by
    have paired := polled.read.paired
    rw [rotated.drains] at paired
    exact List.length_eq_zero_iff.mp paired.symm
  subst none
  refine ⟨exhausted, live, passed, polled, rotated.drains, rotated.offset, pollRead.settled _ ?_⟩
  exact fun stamp => .inl (undisturbed.2 stamp)

/-- A batch that appended something has passed it, unless the tailer refused. -/
theorem Moved.passed_ne_zero {reading : LogTailer} {lineCount : ℕ}
    (moved : Moved hash env reading lineCount appended passed tailer)
    (inside : ∀ index ∈ appended, index < lineCount) (member : index ∈ appended)
    (accepts : ∀ count ≤ lineCount,
      (reading.commitBatchThrough hash count env.commit.look).1 = true) :
    passed ≠ 0 := by
  cases moved with
  | committed =>
      have here := inside index member
      omega
  | through => omega
  | rewound why =>
      rcases why with nothing | ⟨count, few, refused⟩
      · rw [nothing] at member
        exact absurd member List.not_mem_nil
      · rw [accepts count few] at refused
        simp at refused

namespace PolledLog

section

variable (polledLog : PolledLog hash reader env intake start exhausted live passed)
include polledLog

theorem places_eq :
    batchPlaces start [] live = linePlaces intake.runner.tailer.state.offset live := by
  rw [batchPlaces_live polledLog.drains, polledLog.offset]

theorem between :
    Between start (intake.reading hash env).2 (intake.poll hash reader env).runner.tailer
      ((linePlaces intake.runner.tailer.state.offset live).take passed) := by
  have moved := polledLog.polled.handled.moved
  rw [polledLog.polled.length_eq] at moved
  rw [← polledLog.places_eq]
  exact moved.between polledLog.polled.read polledLog.polled.still.quiet polledLog.drains

/-- Where the lines of the batch begin. -/
theorem placeOf_eq (inside : index < (intake.reading hash env).1.length) :
    ∃ place, (linePlaces intake.runner.tailer.state.offset live)[index]? = some place ∧
      Intake.placeOf (intake.reading hash env).2 index = place.1 := by
  rw [polledLog.polled.length_eq, polledLog.places_eq] at inside
  have some : ∃ place, (linePlaces intake.runner.tailer.state.offset live)[index]? = some place :=
    ⟨_, List.getElem?_eq_getElem inside⟩
  rcases some with ⟨place, found⟩
  refine ⟨place, found, ?_⟩
  rw [← polledLog.places_eq] at found
  simp [Intake.placeOf, polledLog.polled.located found]

theorem le_placeOf (inside : index < (intake.reading hash env).1.length) :
    intake.runner.tailer.state.offset ≤ Intake.placeOf (intake.reading hash env).2 index := by
  rcases polledLog.placeOf_eq inside with ⟨place, found, here⟩
  rw [here]
  exact (linePlaces_bounds (List.mem_of_getElem? found)).1

theorem appended_inside
    (member : index ∈ (intake.runner.runBatch hash reader env intake.ledger).appended) :
    index < (intake.reading hash env).1.length := by
  rcases polledLog.polled.handled.durable index member with ⟨line, input, found, -⟩
  exact (List.getElem?_eq_some_iff.mp found).1

/-- Behind a batch with lines the tailer does not refuse to commit through some of them. -/
theorem accepts (appends : env.Appends intake.log)
    (inside : index < (intake.reading hash env).1.length) :
    ∀ count ≤ (intake.reading hash env).1.length,
      ((intake.reading hash env).2.commitBatchThrough hash count env.commit.look).1 = true := by
  intro count few
  have read := polledLog.polled.read
  have lines : (intake.reading hash env).1 = texts (([] : List (List Bytes)).flatten ++ live) := by
    rw [← texts_of_entries, ← read.entries]
    rfl
  rw [lines] at few
  have grown : Grown (env.read.sight .refresh) (env.commit.sight .stat) :=
    appends.2.1.trans ((env.quarantineCommit.grows .stat .refresh (by decide)).trans appends.2.2)
  have further : 0 < (intake.reading hash env).2.state.offset := by
    rcases polledLog.placeOf_eq inside with ⟨place, found, -⟩
    have bounds := linePlaces_bounds (List.mem_of_getElem? found)
    have reached : (intake.reading hash env).2.state.offset =
        intake.runner.tailer.state.offset + (terminated live).length := by
      rw [← polledLog.offset]
      exact congrArg CursorState.offset read.state
    omega
  have same := polledLog.settled.placed.unrotated further grown
  exact congrArg Prod.fst
    (read.commitThrough_of_unchanged polledLog.polled.still.quiet few (.inl same))

/-- What was appended has been passed: a commit through the lines reached is not refused. -/
theorem appended_passed (appends : env.Appends intake.log) :
    ∀ index ∈ (intake.runner.runBatch hash reader env intake.ledger).appended, index < passed := by
  rcases polledLog.polled.handled.reached with none | all
  · intro index member
    exfalso
    apply polledLog.polled.handled.moved.passed_ne_zero _ member _ none
    · intro other otherMember
      exact polledLog.appended_inside otherMember
    · exact polledLog.accepts appends (polledLog.appended_inside member)
  · exact all

/-- The appended lines begin where the tailer stood or behind it, and before where it stands. -/
theorem appended_between (appends : env.Appends intake.log) :
    ∀ begins ∈ (intake.runner.runBatch hash reader env intake.ledger).appended.map
        (Intake.placeOf (intake.reading hash env).2),
      intake.runner.tailer.state.offset ≤ begins ∧
        begins < (intake.poll hash reader env).runner.tailer.state.offset := by
  intro begins member
  rcases List.mem_map.mp member with ⟨index, appended, rfl⟩
  refine ⟨polledLog.le_placeOf (polledLog.appended_inside appended), ?_⟩
  rcases polledLog.placeOf_eq (polledLog.appended_inside appended) with ⟨place, found, here⟩
  rw [here]
  apply polledLog.between.behind
  apply List.mem_of_getElem? (i := index)
  rw [List.getElem?_take, if_pos (polledLog.appended_passed appends index appended)]
  exact found

theorem appended_ordered :
    ((intake.runner.runBatch hash reader env intake.ledger).appended.map
      (Intake.placeOf (intake.reading hash env).2)).Pairwise (· < ·) := by
  rw [List.pairwise_map]
  apply polledLog.polled.handled.ordered.imp_of_mem
  intro first second firstMember secondMember order
  rcases polledLog.placeOf_eq (polledLog.appended_inside firstMember) with
    ⟨firstPlace, firstFound, firstHere⟩
  rcases polledLog.placeOf_eq (polledLog.appended_inside secondMember) with
    ⟨secondPlace, secondFound, secondHere⟩
  rw [firstHere, secondHere]
  rcases List.getElem?_eq_some_iff.mp firstFound with ⟨firstInside, rfl⟩
  rcases List.getElem?_eq_some_iff.mp secondFound with ⟨secondInside, rfl⟩
  exact List.pairwise_iff_getElem.mp (linePlaces_ordered _ live) first second firstInside
    secondInside order

end

end PolledLog

theorem Intake.InOrder.poll (inOrder : intake.InOrder hash) (sound : intake.Sound reader)
    (appends : env.Appends intake.log) (undisturbed : env.read.Undisturbed) :
    (intake.poll hash reader env).InOrder hash := by
  rcases inOrder.polledLog sound appends undisturbed with ⟨exhausted, live, passed, polledLog⟩
  have between := polledLog.between
  have placed : Placed hash False (env.commit.sight .refresh)
      (intake.poll hash reader env).runner.tailer.state := by
    rw [between.state]
    exact (polledLog.settled.placed.grow appends.last).back between.upto
  have further : intake.runner.tailer.state.offset ≤
      (intake.poll hash reader env).runner.tailer.state.offset := by
    rw [← polledLog.offset]
    exact between.from_
  have appended := polledLog.appended_between appends
  refine ⟨⟨between.drains, placed, ?_⟩, ?_, ?_, ?_, ?_⟩
  · intro unseen
    rw [between.state] at unseen
    rw [between.file]
    exact polledLog.settled.unopened unseen
  · intro state saved
    rcases polledLog.polled.saved with moved | kept
    · rw [moved, Option.some.injEq] at saved
      have here : (intake.poll hash reader env).runner.tailer.persistCursor =
          (intake.poll hash reader env).runner.tailer.state := by
        simp [LogTailer.persistCursor, between.drains]
      rw [← saved, here]
      exact placed
    · rw [kept] at saved
      have grown : Grown intake.log (env.commit.sight .refresh) :=
        appends.1.trans ((env.read.grows .stat .refresh (by decide)).trans appends.last)
      exact (inOrder.saved state saved).grow grown
  · intro begins member
    rcases List.mem_append.mp member with old | new
    · exact Nat.lt_of_lt_of_le (inOrder.before begins old) further
    · exact (appended begins new).2
  · apply List.nodup_append.mpr
    refine ⟨inOrder.once, polledLog.appended_ordered.imp fun order => ne_of_lt order, ?_⟩
    intro old oldMember new newMember same
    have less := inOrder.before old oldMember
    have more := (appended new newMember).1
    omega
  · simp only [Intake.poll, inOrder.fresh, List.nil_append]
    apply List.filter_eq_nil_iff.mpr
    intro begins member
    rcases List.mem_map.mp member with ⟨index, offered, rfl⟩
    have more := polledLog.le_placeOf (polledLog.polled.handled.offered index offered)
    simp only [decide_eq_true_eq]
    intro old
    have less := inOrder.before _ old
    omega

theorem Intake.InOrder.restart (inOrder : intake.InOrder hash) : intake.restart.InOrder hash := by
  refine ⟨⟨rfl, ?_, fun _ => rfl⟩, inOrder.saved, ?_, List.nodup_nil, inOrder.fresh⟩
  · cases cursor : intake.saved with
    | none =>
        simp only [Intake.restart, cursor]
        exact .unseen rfl rfl rfl
    | some state =>
        simp only [Intake.restart, cursor]
        exact inOrder.saved state cursor
  · exact List.forall_mem_nil _

theorem Intake.start_inOrder (hash : Bytes → Digest) (log : Option Bytes) (quarantine : Bool) :
    (Intake.start log quarantine).InOrder hash := by
  refine ⟨⟨rfl, .unseen rfl rfl rfl, fun _ => rfl⟩, ?_, ?_, List.nodup_nil, rfl⟩
  · intro state saved
    simp [Intake.start] at saved
  · exact List.forall_mem_nil _

theorem Intake.InOrder.run {actions : List IntakeAction} (inOrder : intake.InOrder hash)
    (sound : intake.Sound reader) (appends : Appends intake.log actions)
    (undisturbed : ∀ env, .poll env ∈ actions → env.read.Undisturbed) :
    (intake.run hash reader actions).InOrder hash := by
  induction actions generalizing intake with
  | nil => exact inOrder
  | cons action later ih =>
      have rest : ∀ env, .poll env ∈ later → env.read.Undisturbed :=
        fun env member => undisturbed env (List.mem_cons_of_mem _ member)
      cases action with
      | poll env =>
          have first := undisturbed env List.mem_cons_self
          exact ih (inOrder.poll sound appends.1 first) (sound.poll appends.1) appends.2 rest
      | restart => exact ih inOrder.restart sound.restart appends rest

end Order

/-- Whatever the outcomes of the writes, wherever a process dies and however the log grows, every
position of the tailer and the saved cursor stand behind lines that are on record (those no
longer than `MAX_LINE_BYTES`), each as rejected, as a probe or a stats line, as quarantined with
its own bytes, or as appended, its event being in the ledger.  Where no poll is disturbed, no
line that was reported durable to a process is handed to the ledger by it again. -/
theorem intake_neither_skips_nor_repeats (hash : Bytes → Digest) (reader : LineReader)
    (quarantine : Bool) {log : Option Bytes} {actions : List IntakeAction}
    (appends : Appends log actions) :
    let reached := (Intake.start log quarantine).run hash reader actions
    (∀ position ∈ reached.positions,
        Accounted (reached.log.getD []) reached.records position) ∧
      (∀ record ∈ reached.records, record.fate = .appended →
        ∃ input, reader.Converts record.bytes input ∧ normalizeEvent input ∈ reached.ledger) ∧
      ((∀ env, .poll env ∈ actions → env.read.Undisturbed) →
        reached.appendedRun.Nodup ∧ reached.reoffered = []) := by
  have start : (Intake.start log quarantine).Sound reader := Intake.start_sound log quarantine
  have sound : ((Intake.start log quarantine).run hash reader actions).Sound reader :=
    start.run appends
  refine ⟨sound.accounted, sound.durable, ?_⟩
  intro undisturbed
  have inOrder := (Intake.start_inOrder hash log quarantine).run start appends undisturbed
  exact ⟨inOrder.once, inOrder.fresh⟩

section Cases

/-- Every line is an event. -/
def plainReader : LineReader where
  Event := Bytes
  parse := some
  isStats := fun _ => false
  statsSensor := fun _ => none
  sensorName := []
  isProbe := fun _ => false
  convert := fun _ => some (.fromSignal (.v4 203 0 113 7) none "telnet" .portScan .tcp false 0
    .null none, none)
  hashLine := List.length

/-- Every write of the poll succeeds. -/
def cleanPoll (read : Watch) (log : Bytes) : PollEnv where
  read
  storeAll := none
  storeOne := fun _ => none
  faults := fun _ => none
  quarantineWrite := true
  quarantineCommit := .still (some log)
  commit := .still (some log)

/-- A poll that reads one line appends it. -/
theorem cleanPoll_one {runner : IntakeRunner} {reading : LogTailer} {line log : Bytes}
    {watch : Watch}
    (read : runner.tailer.readBatchBounded sha256 runner.batchSize maxBatchBytes watch.look =
      ([line], reading)) (ledger : List EventInput) :
    (runner.runBatch sha256 plainReader (cleanPoll watch log) ledger).runner.tailer =
        reading.commitBatch ∧
      (runner.runBatch sha256 plainReader (cleanPoll watch log) ledger).runner.batchSize =
        nextBatchSize runner.batchSize 1 line.length false ∧
      (runner.runBatch sha256 plainReader (cleanPoll watch log) ledger).appended = [0] := by
  have valid : (EventInput.fromSignal (.v4 203 0 113 7) none "telnet" .portScan .tcp false 0
      .null none).validate = .ok () := by
    decide +kernel
  simp [IntakeRunner.runBatch, IntakeRunner.finishBatch, cleanPoll, read, sortLines,
    SortedLines.push, plainReader, SortedLines.appendable, appendEventsWith, validPrefix, valid,
    appendSlices, ledgerAtomic]

/-- A poll that reads no line commits what it passed over, and records nothing. -/
theorem cleanPoll_none {runner : IntakeRunner} {reading : LogTailer} {log : Bytes} {watch : Watch}
    (read : runner.tailer.readBatchBounded sha256 runner.batchSize maxBatchBytes watch.look =
      ([], reading)) (ledger : List EventInput) :
    (runner.runBatch sha256 plainReader (cleanPoll watch log) ledger).runner.tailer =
        reading.commitBatch ∧
      Intake.recordsOf reading
        (runner.runBatch sha256 plainReader (cleanPoll watch log) ledger) = [] := by
  simp [IntakeRunner.runBatch, IntakeRunner.finishBatch, cleanPoll, read, sortLines,
    SortedLines.appendable, appendEventsWith, validPrefix, appendSlices, Intake.recordsOf]

/-- The append fails, then the line `a` is refused until it is put aside, and after a restart
nothing fails. -/
def troubledActions : List IntakeAction :=
  let settled := cleanPoll (.still (some [97, 10, 98, 10])) [97, 10, 98, 10]
  [.poll { cleanPoll calmPoll.watch [97, 10, 98, 10] with faults := fun _ => some .connection }] ++
    List.replicate wedgePolls (.poll
      { settled with faults := fun attempt => if attempt < 2 then some .corrupt else none }) ++
    [.restart, .poll settled]

theorem intake_neither_skips_nor_repeats_calm :
    let reached := (Intake.start none true).run sha256 plainReader troubledActions
    Appends none troubledActions ∧
      (∀ position ∈ reached.positions, Accounted [97, 10, 98, 10] reached.records position) ∧
      reached.appendedRun.Nodup ∧ reached.reoffered = [] := by
  intro reached
  have appends : Appends none troubledActions := by
    refine ⟨?_, ?_, ?_, ?_, ?_, trivial⟩ <;> decide
  obtain ⟨accounted, -, inOrder⟩ :=
    intake_neither_skips_nor_repeats sha256 plainReader true appends
  refine ⟨appends, accounted, inOrder ?_⟩
  simp only [troubledActions, List.mem_append, List.mem_replicate, List.mem_cons,
    IntakeAction.poll.injEq, reduceCtorEq, false_or, List.not_mem_nil, or_false]
  rintro env ((rfl | ⟨-, rfl⟩) | rfl) <;> decide

/-- The log is found empty, and the line `a` is written before the poll opens it. -/
def racedEnv : PollEnv := cleanPoll racedPoll.watch [97, 10]

def idleEnv : PollEnv := cleanPoll (.still (some [97, 10])) [97, 10]

/-- What the first of the two polls reads, and what the second reads after it. -/
def racedReading : List Bytes × LogTailer :=
  (LogTailer.new (logFs (some [])) none).readBatchBounded sha256 100 maxBatchBytes
    racedPoll.watch.look

def idleReading : List Bytes × LogTailer :=
  racedReading.2.commitBatch.readBatchBounded sha256 100 maxBatchBytes
    (Watch.still (some [97, 10])).look

theorem poll_appendedRun (hash : Bytes → Digest) (reader : LineReader) (env : PollEnv)
    (intake : Intake) :
    (intake.poll hash reader env).appendedRun = intake.appendedRun ++
      (intake.runner.runBatch hash reader env intake.ledger).appended.map
        (Intake.placeOf (intake.reading hash env).2) := rfl

theorem raced_line_appended_twice :
    ((Intake.start (some []) true).run sha256 plainReader
      [.poll racedEnv, .poll idleEnv]).appendedRun = [0, 0] := by
  have firstLines : racedReading.1 = [[97]] := by decide +kernel
  have secondLines : idleReading.1 = [[97]] := by decide +kernel
  let begun := Intake.start (some []) true
  let polled := begun.poll sha256 plainReader racedEnv
  have firstRead : begun.reading sha256 racedEnv = ([[97]], racedReading.2) :=
    Prod.ext firstLines rfl
  have first := @cleanPoll_one begun.runner racedReading.2 [97] [97, 10] racedPoll.watch firstRead
    []
  have tailer : polled.runner.tailer = racedReading.2.commitBatch := first.1
  have size : polled.runner.batchSize = 100 := first.2.1
  have secondRead : polled.reading sha256 idleEnv = ([[97]], idleReading.2) := by
    rw [Intake.reading, tailer, size]
    exact Prod.ext secondLines rfl
  have second := @cleanPoll_one _ _ [97] [97, 10] _ secondRead polled.ledger
  have firstAppended : (begun.runner.runBatch sha256 plainReader racedEnv begun.ledger).appended =
      [0] := first.2.2
  have secondAppended : (polled.runner.runBatch sha256 plainReader idleEnv
      polled.ledger).appended = [0] := second.2.2
  have once : polled.appendedRun = _ := poll_appendedRun sha256 plainReader racedEnv begun
  have twice := poll_appendedRun sha256 plainReader idleEnv polled
  rw [firstAppended, List.map_singleton] at once
  rw [secondAppended, secondRead, once] at twice
  exact twice

/-- A poll of a log of one line, which nobody writes to. -/
def lineEnv (line : Bytes) : PollEnv :=
  cleanPoll (.still (some (line ++ [newline]))) (line ++ [newline])

theorem read_long_line (clean : newline ∉ line) (long : ¬Short line) (maxBytes : ℕ) :
    (Watch.still (some (line ++ [newline]))).read 0 100 maxBytes =
      { entries := [.discarded (line.length + 1)], consumed := line.length + 1 } := by
  have lines : linesOf (line ++ [newline]) = [line] := linesOf_line_append clean []
  rw [Short] at long
  simp only [Watch.read, Watch.still_content, Option.getD_some, readLinesFrom, List.drop_zero,
    lines, readLinesLoop, if_neg long]
  simp

theorem long_line_passed (clean : newline ∉ line) (long : ¬Short line) :
    let passed := (Intake.start (some (line ++ [newline])) true).run sha256 plainReader
      [.poll (lineEnv line)]
    passed.runner.tailer.state.offset = (line ++ [newline]).length ∧ passed.records = [] := by
  intro passed
  let begun := Intake.start (some (line ++ [newline])) true
  have read : PollRead sha256 (.still (some (line ++ [newline]))) 100 maxBatchBytes
      begun.runner.tailer _ :=
    readEntries_settled (Intake.start_inOrder sha256 _ true).settled rfl nofun (Grown.refl _)
      id (by decide)
  have entries := read.entries
  have offset := read.offset
  have zero : begun.runner.tailer.state.offset = 0 := rfl
  rw [zero, read_long_line clean long] at entries offset
  have reading : begun.reading sha256 (lineEnv line) =
      ([], (begun.reading sha256 (lineEnv line)).2) :=
    Prod.ext (congrArg (List.filterMap TailEntry.text) entries) rfl
  have committed := @cleanPoll_none begun.runner _ (line ++ [newline])
    (.still (some (line ++ [newline]))) reading []
  refine ⟨?_, committed.2⟩
  have tailer : passed.runner.tailer =
      (begun.reading sha256 (lineEnv line)).2.commitBatch := committed.1
  rw [tailer, List.length_append]
  exact offset.trans (Nat.zero_add _)

/-- A line one byte longer than `MAX_LINE_BYTES`. -/
def longLine : Bytes := List.replicate (maxLineBytes + 1) 97

/-- A line appended twice by one process, and a line passed without a record. -/
theorem intake_repeats_and_skips :
    (Appends (some []) [.poll racedEnv, .poll idleEnv] ∧
        ¬((Intake.start (some []) true).run sha256 plainReader
          [.poll racedEnv, .poll idleEnv]).appendedRun.Nodup) ∧
      Appends (some (longLine ++ [newline])) [.poll (lineEnv longLine)] ∧
        ((Intake.start (some (longLine ++ [newline])) true).run sha256 plainReader
          [.poll (lineEnv longLine)]).runner.tailer.state.offset =
            (longLine ++ [newline]).length ∧
        ((Intake.start (some (longLine ++ [newline])) true).run sha256 plainReader
          [.poll (lineEnv longLine)]).records = [] := by
  have clean : newline ∉ longLine := by
    intro member
    have byte := List.eq_of_mem_replicate member
    exact absurd byte (by decide)
  have long : ¬Short longLine := by
    rw [Short, longLine, List.length_replicate]
    omega
  refine ⟨⟨⟨by decide, by decide, trivial⟩, ?_⟩, ?_, long_line_passed clean long⟩
  · rw [raced_line_appended_twice]
    decide
  · exact ⟨⟨Grown.refl _, Grown.refl _, Grown.refl _⟩, trivial⟩

end Cases

end Propolis
