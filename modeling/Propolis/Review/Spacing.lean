import Mathlib.Data.List.Perm.Subperm
import Propolis.Review.OnceADay

/-!
# Cooldown and rate limit between accepted reports

The gate measures from `submitted_at`, the time at which the row of the day was
inserted.  For an attempt that inserts its own row this is the time of its call, and
the gate keeps accepted reports apart and within their limit.  A retry of a recorded
failure finds the row of the first attempt: when it is accepted, the row shows a
success at the time of the failure, and the gate opens again too early.

The runner's table is extended by the log of the accepted reports, each with the time
of its call, which no statement of the program reads.
-/

namespace Propolis

open Bytes Interaction Process

section Windows

variable {Mark : Type} {time : Mark → ℤ} {limit : ℕ} {width : ℤ}

/-- In every stretch of the width there are at most as many marks. -/
def AtMostWithin (time : Mark → ℤ) (limit : ℕ) (width : ℤ) (marks : List Mark) : Prop :=
  ∀ start, marks.countP (fun mark => start < time mark ∧ time mark ≤ start + width) ≤ limit

/-- A mark may be added when fewer are in the stretch that ends at it. -/
theorem AtMostWithin.append {marks : List Mark} (within : AtMostWithin time limit width marks)
    {mark : Mark}
    (room : marks.countP (fun earlier => time mark - width < time earlier) < limit) :
    AtMostWithin time limit width (marks ++ [mark]) := by
  intro start
  rw [List.countP_append, List.countP_singleton]
  by_cases inside : start < time mark ∧ time mark ≤ start + width
  · -- Every earlier mark of the stretch is also in the one that ends at the new mark.
    have fewer : marks.countP (fun mark => start < time mark ∧ time mark ≤ start + width) ≤
        marks.countP (fun earlier => time mark - width < time earlier) := by
      apply List.countP_mono_left
      intro earlier _ counted
      simp only [decide_eq_true_eq] at counted ⊢
      omega
    simp only [inside, and_self, decide_true, if_true]
    omega
  · simp only [inside, decide_false, Bool.false_eq_true]
    exact within start

end Windows

section Timed

/-- A report the vendor accepted, and when it was called. -/
structure AcceptedReport where
  sourceIp : IpAddr
  vendor : String
  date : ℤ
  time : ℤ
  deriving DecidableEq

/-- The key the accepted call was made under. -/
def AcceptedReport.key (forms : ReportForms) (report : AcceptedReport) : Bytes :=
  idempotencyKey forms report.sourceIp report.vendor report.date

/-- The table, the accepted reports so far and the last reading of the clock. -/
structure SubmissionLog where
  table : SubmissionTable
  reports : List AcceptedReport
  clock : ℤ

def SubmitCall.stamped (time : ℤ) (submitted : SubmitCall) : Option AcceptedReport :=
  if submitted.accepted then some ⟨submitted.sourceIp, submitted.vendor, submitted.date, time⟩
  else none

/-- The world answers as before; the calls it has not seen yet are stamped with its clock. -/
def respondTimed (op : SubmissionOp) (input : SubmissionInput) (log : SubmissionLog) :
    Option op.Answer × SubmissionLog :=
  let responded := respondSubmission op input log.table
  (responded.1, {
    table := responded.2
    reports := log.reports ++
      (responded.2.calls.drop log.table.calls.length).filterMap (·.stamped input.clock)
    clock := input.clock })

def Fortune.isSuccess : Fortune → Bool
  | .succeeds => true
  | _ => false

/-- No crash and no database error, and the clock does not go back. -/
def runsSmoothly (_ : SubmissionOp) (input : SubmissionInput) (log : SubmissionLog) : Bool :=
  input.fortune.isSuccess && decide (log.clock ≤ input.clock)

/-- A call that is accepted is made at the time its row was inserted, for its address and vendor:
it is no retry of a failure that was recorded earlier. -/
def acceptsFirst (forms : ReportForms) :
    SubmissionOp → SubmissionInput → SubmissionLog → Bool
  | .submit vendor date report, input, log =>
      !isAccepted input.reply || log.table.rows.all fun row =>
        decide (row.idempotencyKey = idempotencyKey forms report.sourceIp vendor date →
          row.sourceIp = report.sourceIp ∧ row.vendor = vendor ∧ row.submittedAt = input.clock)
  | _, _, _ => true

def smoothAndFirst (forms : ReportForms) (op : SubmissionOp) (input : SubmissionInput)
    (log : SubmissionLog) : Bool :=
  runsSmoothly op input log && acceptsFirst forms op input log

/-- The gate configuration a vendor is checked against. -/
def SubmissionRunner.configOf (runner : SubmissionRunner) (vendor : String) :
    Option VendorConfig :=
  runner.gatekeeperConfig.find? fun config => config.name = vendor

/-- The reports keep the cooldown of their pair and the rate limit of their vendor. -/
structure Spaced (runner : SubmissionRunner) (reports : List AcceptedReport) : Prop where
  cooldown : reports.Pairwise fun earlier later =>
    earlier.sourceIp = later.sourceIp → earlier.vendor = later.vendor →
    ∀ config, runner.configOf later.vendor = some config →
      hours config.cooldownHours ≤ later.time - earlier.time
  rateLimit : ∀ vendor config, runner.configOf vendor = some config →
    AtMostWithin AcceptedReport.time config.rateLimit (hours config.rateWindowHours)
      (reports.filter fun report => report.vendor = vendor)

end Timed

variable {forms : ReportForms} {runner : SubmissionRunner} {log after : SubmissionLog}

variable {last : SubmissionLog} {report : AcceptedReport} {row : VendorSubmission} {today : ℤ}
  {book : Option CooldownBook} {ip : IpAddr} {config : VendorConfig} {table : SubmissionTable}

section Recorded

/-- Between two attempts: the row of an accepted report shows a success at its time. -/
structure Recorded (forms : ReportForms) (runner : SubmissionRunner) (log : SubmissionLog) :
    Prop where
  unique : (log.table.rows.map (·.idempotencyKey)).Nodup
  keys : (log.reports.map (·.key forms)).Nodup
  shown : ∀ report ∈ log.reports, ∃ row ∈ log.table.rows,
    row.idempotencyKey = report.key forms ∧ row.sourceIp = report.sourceIp ∧
      row.vendor = report.vendor ∧ row.submittedAt = report.time ∧ row.success = true
  spaced : Spaced runner log.reports

/-- Only time has passed for the reports. -/
structure Waited (log after : SubmissionLog) : Prop where
  reports : after.reports = log.reports
  clock : log.clock ≤ after.clock

theorem Waited.trans (first : Waited log after) (second : Waited after last) : Waited log last :=
  ⟨second.reports.trans first.reports, first.clock.trans second.clock⟩

/-- The log is recorded at a later time. -/
structure Later (forms : ReportForms) (runner : SubmissionRunner) (log after : SubmissionLog) :
    Prop extends Waited log after where
  recorded : Recorded forms runner after

theorem Later.trans (first : Later forms runner log after)
    (second : Later forms runner after last) : Later forms runner log last :=
  ⟨first.toWaited.trans second.toWaited, second.recorded⟩

variable (recorded : Recorded forms runner log)
include recorded

theorem Recorded.later : Later forms runner log log :=
  ⟨⟨rfl, le_rfl⟩, recorded⟩

/-- The latest success of the pair is not before any of its reports. -/
theorem Recorded.latestOf_ge (member : report ∈ log.reports) :
    ∃ last, latestOf log.table.rows report.sourceIp report.vendor = some last ∧
      report.time ≤ last := by
  obtain ⟨row, rowMember, -, sameIp, sameVendor, sameTime, success⟩ := recorded.shown report member
  have listed : report.time ∈ (log.table.rows.filter fun row => row.sourceIp = report.sourceIp ∧
      row.vendor = report.vendor ∧ row.success).map (·.submittedAt) := by
    apply List.mem_map.mpr
    refine ⟨row, List.mem_filter.mpr ⟨rowMember, ?_⟩, sameTime⟩
    simp [sameIp, sameVendor, success]
  obtain ⟨last, found⟩ := Option.isSome_iff_exists.mp (List.isSome_max?_of_mem listed)
  exact ⟨last, found, (List.max?_eq_some_iff.mp found).2 _ listed⟩

/-- The gate counts at least the reports of the vendor after the cutoff. -/
theorem Recorded.countP_le (vendor : String) (cutoff : ℤ) :
    (log.reports.filter fun report => report.vendor = vendor).countP
        (fun report => cutoff < report.time) ≤
      log.table.rows.countP fun row =>
        row.vendor = vendor ∧ row.success ∧ cutoff < row.submittedAt := by
  simp only [List.countP_eq_length_filter, List.filter_filter]
  rw [← List.length_map (·.key forms)]
  conv_rhs => rw [← List.length_map (·.idempotencyKey)]
  apply List.Subperm.length_le
  apply List.subperm_of_subset
  · exact recorded.keys.sublist (List.Sublist.map _ List.filter_sublist)
  · intro key listed
    obtain ⟨report, member, rfl⟩ := List.mem_map.mp listed
    obtain ⟨member, counted⟩ := List.mem_filter.mp member
    obtain ⟨row, rowMember, keyed, -, sameVendor, sameTime, success⟩ :=
      recorded.shown report member
    apply List.mem_map.mpr
    refine ⟨row, List.mem_filter.mpr ⟨rowMember, ?_⟩, keyed⟩
    simp only [Bool.and_eq_true] at counted
    simp [sameVendor, sameTime, success, counted.1, counted.2]

/-- A key whose row shows no success has no accepted report. -/
theorem Recorded.key_ne_of_failing (member : row ∈ log.table.rows) (failing : row.success = false) :
    ∀ report ∈ log.reports, report.key forms ≠ row.idempotencyKey := by
  intro report reportMember same
  obtain ⟨shown, shownMember, keyed, -, -, -, success⟩ := recorded.shown report reportMember
  have sameRow : shown = row :=
    row_eq_of_unique recorded.unique shownMember member (keyed.trans same)
  rw [sameRow, failing] at success
  cases success

end Recorded

section Gate

/-- A report the book does not know was made under the key of today. -/
def Knows (forms : ReportForms) (today : ℤ) (book : Option CooldownBook)
    (log : SubmissionLog) : Prop :=
  ∀ report ∈ log.reports, ∀ known,
    (book.bind fun book => book.latestSuccess report.sourceIp report.vendor) = some known →
    (∃ last, known = some last ∧ report.time ≤ last) ∨
      report.key forms = idempotencyKey forms report.sourceIp report.vendor today

/-- The pair has passed its gate: what is not under the key of today is a cooldown ago, and there
is room in the window that ends now. -/
structure Ripe (forms : ReportForms) (today : ℤ) (ip : IpAddr) (config : VendorConfig)
    (log : SubmissionLog) : Prop where
  cooled : ∀ report ∈ log.reports, report.sourceIp = ip → report.vendor = config.name →
    report.key forms ≠ idempotencyKey forms ip config.name today →
    hours config.cooldownHours ≤ log.clock - report.time
  room : (log.reports.filter fun report => report.vendor = config.name).countP
    (fun report => log.clock - hours config.rateWindowHours < report.time) < config.rateLimit

/-- The log is recorded, and the book knows its reports. -/
structure Aware (forms : ReportForms) (runner : SubmissionRunner) (today : ℤ)
    (book : Option CooldownBook) (log : SubmissionLog) : Prop where
  recorded : Recorded forms runner log
  knows : Knows forms today book log

theorem Aware.later (aware : Aware forms runner today book log)
    (later : Later forms runner log after) : Aware forms runner today book after := by
  refine ⟨later.recorded, ?_⟩
  unfold Knows
  rw [later.reports]
  exact aware.knows

theorem countP_after_le (reports : List AcceptedReport) {cutoff later : ℤ}
    (ordered : cutoff ≤ later) :
    reports.countP (fun report => later < report.time) ≤
      reports.countP (fun report => cutoff < report.time) := by
  apply List.countP_mono_left
  intro report _ counted
  simp only [decide_eq_true_eq] at counted ⊢
  exact ordered.trans_lt counted

theorem Ripe.waited (ripe : Ripe forms today ip config log) (waited : Waited log after) :
    Ripe forms today ip config after := by
  have clock := waited.clock
  constructor
  · rw [waited.reports]
    intro report member sameIp sameVendor fresh
    have cooled := ripe.cooled report member sameIp sameVendor fresh
    omega
  · rw [waited.reports]
    refine lt_of_le_of_lt (countP_after_le _ ?_) ripe.room
    omega

/-- An accepted call of a pair that has passed its gate keeps the reports spaced. -/
theorem Spaced.append {reports : List AcceptedReport} (spaced : Spaced runner reports)
    (configured : runner.configOf report.vendor = some config)
    (cooled : ∀ earlier ∈ reports, earlier.sourceIp = report.sourceIp →
      earlier.vendor = report.vendor → hours config.cooldownHours ≤ report.time - earlier.time)
    (room : (reports.filter fun earlier => earlier.vendor = report.vendor).countP
      (fun earlier => report.time - hours config.rateWindowHours < earlier.time) <
        config.rateLimit) :
    Spaced runner (reports ++ [report]) := by
  constructor
  · apply List.pairwise_append.mpr
    refine ⟨spaced.cooldown, List.pairwise_singleton _ _, ?_⟩
    intro earlier member later last sameIp sameVendor found foundConfig
    obtain rfl := List.mem_singleton.mp last
    obtain rfl := Option.some.inj (configured.symm.trans foundConfig)
    exact cooled earlier member sameIp sameVendor
  · intro vendor found foundConfig
    rw [List.filter_append]
    by_cases same : report.vendor = vendor
    · subst same
      obtain rfl := Option.some.inj (configured.symm.trans foundConfig)
      rw [List.filter_singleton, decide_eq_true rfl]
      exact (spaced.rateLimit _ _ configured).append room
    · rw [List.filter_singleton, decide_eq_false same, cond_false, List.append_nil]
      exact spaced.rateLimit vendor found foundConfig

end Gate

section Statements

variable {op : SubmissionOp} {returned : op.Answer → SubmissionLog → Prop}

theorem Fortune.eq_succeeds_of_isSuccess {fortune : Fortune} (success : fortune.isSuccess = true) :
    fortune = .succeeds := by
  cases fortune with
  | succeeds => rfl
  | fails => cases success
  | crashes applied => cases success

theorem respond_of_succeeds {input : SubmissionInput} {after : SubmissionTable}
    {result : Option op.Answer} (succeeded : input.fortune = .succeeds)
    (responded : respondSubmission op input table = (result, after)) : result.isSome = true := by
  cases op <;>
    (simp only [respondSubmission, onTable, succeeded, Prod.mk.injEq] at responded
     rw [← responded.1]
     rfl)

def SubmissionLog.IsSpaced (runner : SubmissionRunner) (log : SubmissionLog) : Prop :=
  Spaced runner log.reports

/-- The process keeps accepted reports spaced, in a world that runs smoothly and accepts no
retries. -/
abbrev Submitting.Paced {Value : Type} (forms : ReportForms) (runner : SubmissionRunner)
    (process : Submitting Value) (log : SubmissionLog)
    (returned : Value → SubmissionLog → Prop) : Prop :=
  process.Ensures respondTimed (smoothAndFirst forms) (SubmissionLog.IsSpaced runner)
    (Recorded forms runner) log returned

/-- Every operation is answered; what it is answered is all that is left to look at. -/
theorem paced_call (spaced : Spaced runner log.reports)
    (answered : ∀ input answer table, input.fortune = .succeeds → log.clock ≤ input.clock →
      acceptsFirst forms op input log = true →
      respondSubmission op input log.table = (some answer, table) →
      returned answer { table, clock := input.clock, reports := log.reports ++
        (table.calls.drop log.table.calls.length).filterMap (·.stamped input.clock) }) :
    Submitting.Paced forms runner (call op) log returned := by
  have admitted_parts : ∀ input, smoothAndFirst forms op input log = true →
      input.fortune = .succeeds ∧ log.clock ≤ input.clock ∧
        acceptsFirst forms op input log = true := by
    intro input admitted
    simp only [smoothAndFirst, runsSmoothly, Bool.and_eq_true, decide_eq_true_eq] at admitted
    exact ⟨Fortune.eq_succeeds_of_isSuccess admitted.1.1, admitted.1.2, admitted.2⟩
  refine ensures_call ?_ ?_ ?_
  · exact spaced
  · intro input admitted answer after responded
    obtain ⟨succeeded, ordered, first⟩ := admitted_parts input admitted
    obtain ⟨replied, rfl⟩ := Prod.mk.inj responded
    exact answered input answer _ succeeded ordered first (Prod.ext replied rfl)
  · intro input admitted after responded
    obtain ⟨succeeded, -, -⟩ := admitted_parts input admitted
    have replied : (respondSubmission op input log.table).1.isSome = true :=
      respond_of_succeeds succeeded rfl
    rw [(Prod.mk.inj responded).1] at replied
    cases replied

/-- A statement that reads leaves all but the clock. -/
theorem paced_read (read : op.isRead = true) (recorded : Recorded forms runner log)
    (answered : ∀ input answer, input.fortune = .succeeds →
      Later forms runner log { log with clock := input.clock } →
      respondSubmission op input log.table = (some answer, log.table) →
      returned answer { log with clock := input.clock }) :
    Submitting.Paced forms runner (call op) log returned := by
  apply paced_call recorded.spaced
  intro input answer table succeeded ordered _ responded
  obtain rfl := respond_of_isRead read responded
  rw [List.drop_length, List.filterMap_nil, List.append_nil]
  exact answered input answer succeeded ⟨⟨rfl, ordered⟩, { recorded with }⟩ responded

end Statements

section Checks

section

variable (recorded : Recorded forms runner log)
include recorded

/-- Reading the clock. -/
theorem paced_utcNow {returned : ℤ → SubmissionLog → Prop}
    (answered : ∀ now, Later forms runner log { log with clock := now } →
      returned now { log with clock := now }) :
    Submitting.Paced forms runner (call SubmissionOp.utcNow) log returned := by
  apply paced_read rfl recorded
  intro input now succeeded later responded
  rw [respondSubmission, succeeded] at responded
  cases responded
  exact answered input.clock later

theorem checkRateLimit_paced (config : VendorConfig) :
    (checkRateLimit config).Paced forms runner log fun checked after =>
      Later forms runner log after ∧ (checked = .ok () →
        (after.reports.filter fun report => report.vendor = config.name).countP
          (fun report => after.clock - hours config.rateWindowHours < report.time) <
            config.rateLimit) := by
  apply ensures_bind
  apply paced_utcNow recorded
  intro now waited
  apply ensures_bind
  apply paced_read rfl waited.recorded
  intro input answer _ later responded
  have passed := waited.trans later
  rcases answer with text | count
  · exact ensures_pure ⟨passed, by simp⟩
  · dsimp only
    split
    case isTrue full => exact ensures_pure ⟨passed, by simp⟩
    case isFalse room =>
      refine ensures_pure ⟨passed, ?_⟩
      intro _
      rw [respondSubmission] at responded
      have counted := (onTable_ok responded).1
      have clock : now ≤ input.clock := later.clock
      calc (log.reports.filter fun report => report.vendor = config.name).countP
            (fun report => input.clock - hours config.rateWindowHours < report.time)
          ≤ (log.reports.filter fun report => report.vendor = config.name).countP
              (fun report => now - hours config.rateWindowHours < report.time) :=
            countP_after_le _ (by omega)
        _ ≤ count := counted ▸ recorded.countP_le config.name _
        _ < config.rateLimit := Nat.lt_of_not_le room

end

section

variable (aware : Aware forms runner today book log)
include aware

variable (ip : IpAddr) (config : VendorConfig)

/-- The latest success that is found for a pair covers every report of it but those under the key
of today. -/
theorem mostRecentSuccess_paced :
    (mostRecentSuccess ip config book).Paced forms runner log fun found after =>
      Later forms runner log after ∧ ∀ known, found = .ok known →
        ∀ report ∈ log.reports, report.sourceIp = ip → report.vendor = config.name →
        report.key forms ≠ idempotencyKey forms ip config.name today →
        ∃ last, known = some last ∧ report.time ≤ last := by
  rw [mostRecentSuccess]
  cases covered : book.bind fun book => book.latestSuccess ip config.name with
  | some latest =>
      refine ensures_pure ⟨aware.recorded.later, ?_⟩
      rintro known found report member rfl sameVendor fresh
      obtain rfl := Except.ok.inj found
      rw [← sameVendor] at covered fresh
      rcases aware.knows report member latest covered with reached | same
      · exact reached
      · exact absurd same fresh
  | none =>
      apply paced_read rfl aware.recorded
      intro input answer _ later responded
      refine ⟨later, ?_⟩
      rintro known rfl report member rfl sameVendor -
      rw [respondSubmission] at responded
      rw [(onTable_ok responded).1, ← sameVendor]
      exact aware.recorded.latestOf_ge member

theorem checkCooldown_paced :
    (checkCooldown ip config book).Paced forms runner log fun checked after =>
      Later forms runner log after ∧ (checked = .ok () →
        ∀ report ∈ after.reports, report.sourceIp = ip → report.vendor = config.name →
        report.key forms ≠ idempotencyKey forms ip config.name today →
        hours config.cooldownHours ≤ after.clock - report.time) := by
  apply (mostRecentSuccess_paced aware ip config).bind
  rintro (text | _ | last) found ⟨waited, covers⟩
  · exact ensures_pure ⟨waited, by simp⟩
  · -- No success was found, so there is no report to keep away from.
    refine ensures_pure ⟨waited, ?_⟩
    rw [waited.reports]
    intro _ report member sameIp sameVendor fresh
    obtain ⟨last, absent, -⟩ := covers none rfl report member sameIp sameVendor fresh
    cases absent
  · apply ensures_bind
    apply paced_utcNow waited.recorded
    intro now later
    split
    case isTrue early => exact ensures_pure ⟨waited.trans later, by simp⟩
    case isFalse cooled =>
      refine ensures_pure ⟨waited.trans later, ?_⟩
      dsimp only
      rw [waited.reports]
      intro _ report member sameIp sameVendor fresh
      obtain ⟨_, found, reached⟩ := covers _ rfl report member sameIp sameVendor fresh
      obtain rfl := Option.some.inj found
      have distance : hours config.cooldownHours ≤ now - last := Int.not_lt.mp cooled
      omega

/-- A pair that passes its gate is ripe. -/
theorem checkWith_paced (score : IpScore) :
    (checkWith ip config score book).Paced forms runner log fun result after =>
      Later forms runner log after ∧ (result = .pass → Ripe forms today ip config after) := by
  have here := aware.recorded.later
  rw [checkWith]
  split
  · exact ensures_pure ⟨here, by simp⟩
  split
  · exact ensures_pure ⟨here, by simp⟩
  apply ensures_bind
  apply paced_utcNow aware.recorded
  intro now first
  split
  · exact ensures_pure ⟨first, by simp⟩
  apply (checkCooldown_paced (aware.later first) ip config).bind
  rintro (reason | _) cool ⟨second, cooled⟩
  · exact ensures_pure ⟨first.trans second, by simp⟩
  apply (checkRateLimit_paced second.recorded config).bind
  rintro (reason | _) after ⟨third, room⟩
  · exact ensures_pure ⟨first.trans (second.trans third), by simp⟩
  have ripe : Ripe forms today ip config after := by
    refine ⟨?_, room rfl⟩
    rw [third.reports]
    intro report member sameIp sameVendor fresh
    have distance := cooled rfl report member sameIp sameVendor fresh
    have clock := third.clock
    omega
  have passed := first.trans (second.trans third)
  dsimp only
  split
  · exact ensures_pure ⟨passed, by simp⟩
  split
  · exact ensures_pure ⟨passed, by simp⟩
  · exact ensures_pure ⟨passed, fun _ => ripe⟩

end

/-- A pair the query asked for is answered with its latest success. -/
theorem lookup_filterMap {Key Value : Type} [BEq Key] [LawfulBEq Key]
    {find : Key → Option Value}
    {keys : List Key} {key : Key} {value : Value} (asked : key ∈ keys)
    (found : find key = some value) :
    (keys.filterMap fun key => (find key).map fun value => (key, value)).lookup key =
      some value := by
  induction keys with
  | nil => cases asked
  | cons first rest ih =>
      by_cases same : key = first
      · subst same
        simp [found]
      · have later := ih ((List.mem_cons.mp asked).resolve_left same)
        cases other : find first with
        | none => simpa [other] using later
        | some _ => simpa [other, List.lookup_cons, beq_eq_false_iff_ne.mpr same] using later

/-- The book that is loaded knows every report. -/
theorem loadCooldowns_paced (recorded : Recorded forms runner log) (approved : List IpAddr)
    (today : ℤ) :
    (loadCooldowns runner approved).Paced forms runner log fun book after =>
      Aware forms runner today book after := by
  apply ensures_bind
  rw [CooldownBook.load]
  split
  case isTrue empty =>
    refine ensures_pure (ensures_pure ⟨recorded, ?_⟩)
    intro report _ known covered
    rw [Option.bind_some, CooldownBook.latestSuccess] at covered
    split at covered
    case isTrue within =>
      rcases empty with empty | empty
      · exact absurd within.1 (by simp [List.isEmpty_iff.mp empty])
      · exact absurd within.2 (by simp [List.isEmpty_iff.mp empty])
    case isFalse => cases covered
  case isFalse =>
    apply ensures_bind
    apply paced_read rfl recorded
    intro input answer _ later responded
    rcases answer with text | rows
    · refine ensures_pure (ensures_pure ⟨later.recorded, ?_⟩)
      intro report _ known covered
      cases covered
    · refine ensures_pure (ensures_pure ⟨later.recorded, ?_⟩)
      intro report member known covered
      rw [respondSubmission] at responded
      rw [Option.bind_some, CooldownBook.latestSuccess] at covered
      split at covered
      case isFalse => cases covered
      case isTrue within =>
        left
        obtain rfl := Option.some.inj covered
        obtain ⟨last, latest, reached⟩ := recorded.latestOf_ge member
        refine ⟨last, ?_, reached⟩
        rw [(onTable_ok responded).1]
        apply lookup_filterMap
        · apply List.mem_flatMap.mpr
          exact ⟨_, within.1, List.mem_map_of_mem within.2⟩
        · exact latest

end Checks

section Attempt

variable {key : Bytes}

theorem updateSubmission_calls (key : Bytes) (status : Option ℤ) (body : String)
    (success : Bool) (table : SubmissionTable) :
    (updateSubmission key status body success table).calls = table.calls :=
  rfl

theorem insertSubmission_mem {stored : VendorSubmission} (member : stored ∈ table.rows) :
    stored ∈ (insertSubmission row table).rows := by
  rw [insertSubmission]
  split
  · exact member
  · exact List.mem_append_left _ member

theorem insertSubmission_calls (row : VendorSubmission) (table : SubmissionTable) :
    (insertSubmission row table).calls = table.calls := by
  rw [insertSubmission]
  split <;> rfl

section

variable (recorded : Recorded forms runner log)
include recorded

theorem Recorded.insert (row : VendorSubmission) (now : ℤ) :
    Recorded forms runner
      { log with table := insertSubmission row log.table, clock := now } := by
  refine ⟨insertSubmission_unique recorded.unique row, recorded.keys, ?_, recorded.spaced⟩
  intro report member
  obtain ⟨shown, shownMember, shows_⟩ := recorded.shown report member
  exact ⟨shown, insertSubmission_mem shownMember, shows_⟩

/-- The key is claimed: it has a row, and no accepted report. -/
structure OpenKey (forms : ReportForms) (key : Bytes) (log : SubmissionLog) : Prop where
  present : ∃ row ∈ log.table.rows, row.idempotencyKey = key
  unaccepted : ∀ report ∈ log.reports, report.key forms ≠ key

/-- An attempt that goes on has claimed its key. -/
theorem insertPending_paced (ip : IpAddr) (vendor : String) (report : VendorReport) :
    (insertPending ip vendor key report).Paced forms runner log fun claim after =>
      Later forms runner log after ∧
        (claim = .ok .claimed ∨ claim = .ok .retryOfRecordedFailure →
          OpenKey forms key after) := by
  apply ensures_bind
  apply paced_call recorded.spaced
  intro input answer table succeeded ordered _ responded
  rw [respondSubmission, succeeded] at responded
  obtain ⟨answered, rfl⟩ := Prod.mk.inj responded
  have inserted : Later forms runner log { log with
      table := insertSubmission (pendingRow ip vendor key report input.clock) log.table
      clock := input.clock } := ⟨⟨rfl, ordered⟩, recorded.insert _ _⟩
  rw [insertSubmission_calls, List.drop_length, List.filterMap_nil, List.append_nil]
  rcases answer with text | _ | _
  · cases answered
  · apply ensures_bind
    apply paced_read rfl inserted.recorded
    intro input answer _ later responded
    rcases answer with text | prior
    · exact ensures_pure ⟨inserted.trans later, by simp⟩
    · refine ensures_pure ⟨inserted.trans later, ?_⟩
      intro goesOn
      obtain ⟨status, failed⟩ := prior_of_retry (by simpa using goesOn)
      rw [respondSubmission] at responded
      obtain ⟨row, found, columns⟩ :=
        Option.map_eq_some_iff.mp ((onTable_ok responded).1.symm.trans failed)
      have member := List.mem_of_find?_eq_some found
      have keyed : row.idempotencyKey = key := by
        simpa using List.find?_some found
      refine ⟨⟨row, member, keyed⟩, ?_⟩
      rw [← keyed]
      exact inserted.recorded.key_ne_of_failing member (Prod.mk.inj columns).1
  · -- The row is new, so no accepted report can be shown by it.
    refine ensures_pure ⟨inserted, ?_⟩
    intro _
    have fresh : ∀ stored ∈ log.table.rows, stored.idempotencyKey ≠ key := by
      simpa using answered
    refine ⟨⟨pendingRow ip vendor key report input.clock, ?_, rfl⟩, ?_⟩
    · rw [insertSubmission, if_neg]
      · exact List.mem_append_right _ List.mem_cons_self
      · simp only [List.any_eq_true, decide_eq_true_eq, not_exists, not_and]
        exact fresh
    · intro accepted member same
      obtain ⟨shown, shownMember, keyed, -⟩ := recorded.shown accepted member
      exact fresh shown shownMember (keyed.trans same)

/-- The log after a call of the vendor. -/
def SubmissionLog.called (log : SubmissionLog) (submitted : SubmitCall) (now : ℤ) :
    SubmissionLog where
  table := { log.table with calls := log.table.calls ++ [submitted] }
  reports := log.reports ++ (submitted.stamped now).toList
  clock := now

/-- The vendor is called under a claimed key, by a pair that has passed its gate. -/
theorem submit_paced {report : VendorReport}
    (ripe : Ripe forms today report.sourceIp config log)
    (configured : runner.configOf config.name = some config)
    (claimed : OpenKey forms (idempotencyKey forms report.sourceIp config.name today) log) :
    Submitting.Paced forms runner (call (SubmissionOp.submit config.name today report)) log
      fun reply after => ∃ now,
        after = log.called ⟨report.sourceIp, config.name, today, isAccepted reply⟩ now ∧
        Spaced runner after.reports ∧
        (isAccepted reply = true → ∀ row ∈ log.table.rows,
          row.idempotencyKey = idempotencyKey forms report.sourceIp config.name today →
          row.sourceIp = report.sourceIp ∧ row.vendor = config.name ∧ row.submittedAt = now) := by
  apply paced_call recorded.spaced
  intro input reply table succeeded ordered first responded
  rw [respondSubmission, succeeded] at responded
  cases responded
  refine ⟨input.clock, ?_, ?_, ?_⟩
  · simp [SubmissionLog.called, Option.toList]
    split <;> simp [*]
  · rw [List.drop_left]
    cases accepted : isAccepted input.reply with
    | false => simpa [SubmitCall.stamped] using recorded.spaced
    | true =>
        have waited : Waited log { log with clock := input.clock } := ⟨rfl, ordered⟩
        have ripe := ripe.waited waited
        apply recorded.spaced.append configured
        · intro earlier member sameIp sameVendor
          exact ripe.cooled earlier member sameIp sameVendor (claimed.unaccepted earlier member)
        · exact ripe.room
  · intro accepted row member keyed
    simp only [acceptsFirst, accepted, Bool.not_true, Bool.false_or, List.all_eq_true,
      decide_eq_true_eq] at first
    exact first row member keyed

/-- Recording the outcome shows an accepted report by its row. -/
theorem Recorded.called_update {submitted : SubmitCall} {time : ℤ}
    (spaced : Spaced runner (log.called submitted time).reports)
    (claimed : OpenKey forms (submitted.key forms) log)
    (first : submitted.accepted = true → ∀ row ∈ log.table.rows,
      row.idempotencyKey = submitted.key forms →
      row.sourceIp = submitted.sourceIp ∧ row.vendor = submitted.vendor ∧
        row.submittedAt = time)
    (status : Option ℤ) (body : String) (now : ℤ) :
    Recorded forms runner { log.called submitted time with
      table := updateSubmission (submitted.key forms) status body submitted.accepted
        (log.called submitted time).table
      clock := now } := by
  -- The rows of other keys are as they were.
  have before : ∀ report ∈ log.reports, ∃ row ∈ (updateSubmission (submitted.key forms) status
      body submitted.accepted (log.called submitted time).table).rows,
      row.idempotencyKey = report.key forms ∧ row.sourceIp = report.sourceIp ∧
        row.vendor = report.vendor ∧ row.submittedAt = report.time ∧ row.success = true := by
    intro report member
    obtain ⟨row, rowMember, keyed, shown⟩ := recorded.shown report member
    refine ⟨row, List.mem_map.mpr ⟨row, rowMember, ?_⟩, keyed, shown⟩
    apply if_neg
    rw [keyed]
    exact claimed.unaccepted report member
  constructor
  · rw [updateSubmission_keys]
    exact recorded.unique
  · cases accepted : submitted.accepted with
    | false =>
        simpa [SubmissionLog.called, SubmitCall.stamped, accepted] using recorded.keys
    | true =>
        simp only [SubmissionLog.called, SubmitCall.stamped, accepted, if_true,
          Option.toList_some, List.map_append, List.map_cons, List.map_nil]
        rw [List.nodup_append]
        refine ⟨recorded.keys, List.pairwise_singleton _ _, ?_⟩
        simp only [List.mem_map, List.mem_singleton]
        rintro _ ⟨report, member, rfl⟩ _ rfl
        exact claimed.unaccepted report member
  · intro report member
    rcases List.mem_append.mp member with old | new
    · exact before report old
    · rw [SubmitCall.stamped] at new
      split at new
      case isFalse => cases new
      case isTrue accepted =>
        obtain rfl := List.mem_singleton.mp new
        obtain ⟨row, rowMember, keyed⟩ := claimed.present
        obtain ⟨sameIp, sameVendor, sameTime⟩ := first accepted row rowMember keyed
        refine ⟨_, List.mem_map.mpr ⟨row, rowMember, if_pos keyed⟩, ?_⟩
        exact ⟨keyed, sameIp, sameVendor, sameTime, accepted⟩
  · exact spaced

end

variable (report : VendorReport) (aware : Aware forms runner today book log)
  (ripe : Ripe forms today report.sourceIp config log)
  (configured : runner.configOf config.name = some config)
include aware ripe configured

theorem callVendor_paced
    (claimed : OpenKey forms (idempotencyKey forms report.sourceIp config.name today) log)
    (result : SubmitResult) :
    (callVendor (idempotencyKey forms report.sourceIp config.name today) config.name today report
      result).Paced forms runner log fun _ => Aware forms runner today book := by
  apply (submit_paced aware.recorded ripe configured claimed).bind
  rintro reply called ⟨time, rfl, spaced, first⟩
  apply ensures_bind
  apply paced_call spaced
  intro input answer table succeeded _ _ responded
  rw [respondSubmission, succeeded] at responded
  cases responded
  have recorded := aware.recorded.called_update spaced claimed first (replyParts reply).1
    (replyParts reply).2.1 input.clock
  have knows : Knows forms today book (log.called
      ⟨report.sourceIp, config.name, today, isAccepted reply⟩ time) := by
    intro accepted member known covered
    rcases List.mem_append.mp member with old | new
    · exact aware.knows accepted old known covered
    · rw [SubmitCall.stamped] at new
      split at new
      case isFalse => cases new
      case isTrue =>
        obtain rfl := List.mem_singleton.mp new
        exact .inr rfl
  rw [replyParts_success, updateSubmission_calls, List.drop_length, List.filterMap_nil,
    List.append_nil]
  split <;> exact ensures_pure ⟨recorded, knows⟩

theorem attemptSubmission_paced (result : SubmitResult) :
    (attemptSubmission forms report.sourceIp config.name today report result).Paced forms runner
      log fun _ => Aware forms runner today book := by
  apply (insertPending_paced aware.recorded _ _ _).bind
  rintro claim after ⟨later, claimed⟩
  have aware := aware.later later
  have ripe := ripe.waited later.toWaited
  rcases claim with text | _ | _ | _ | _
  · exact ensures_pure aware
  · exact callVendor_paced report aware ripe configured (claimed (.inl rfl)) result
  · exact callVendor_paced report aware ripe configured (claimed (.inr rfl)) result
  · exact ensures_pure aware
  · exact ensures_pure aware

end Attempt

section Pass

theorem labelsOf_paced (recorded : Recorded forms runner log) (ip : IpAddr)
    (known : Option (List (Category × Option String))) :
    (labelsOf ip known).Paced forms runner log fun _ => Later forms runner log := by
  cases known with
  | some labels => exact ensures_pure recorded.later
  | none =>
      apply paced_read rfl recorded
      intro input _ _ later _
      exact later

theorem submitToVendors_paced (aware : Aware forms runner today book log)
    (ip : IpAddr) (score : IpScore) (vendors : List String)
    (known : Option (List (Category × Option String))) (result : SubmitResult) :
    (submitToVendors forms runner book today ip score vendors known result).Paced forms runner log
      fun _ => Aware forms runner today book := by
  induction vendors generalizing known result log with
  | nil => exact ensures_pure aware
  | cons vendor rest ih =>
      rw [submitToVendors]
      cases configured : runner.gatekeeperConfig.find? fun config => config.name = vendor with
      | none => exact ih aware known _
      | some config =>
          have named : config.name = vendor := by
            simpa using List.find?_some configured
          subst named
          apply (checkWith_paced aware ip config score).bind
          rintro (_ | reason) gated ⟨passed, ripe⟩
          · apply (labelsOf_paced passed.recorded ip known).bind
            rintro (text | labels) labelled later
            · exact ensures_pure (aware.later (passed.trans later))
            · apply Ensures.bind
              · exact attemptSubmission_paced (buildReport forms ip score labels config.name)
                  (aware.later (passed.trans later)) ((ripe rfl).waited later.toWaited) configured
                  result
              · intro result after aware
                exact ih aware (some labels) result
          · exact ih (aware.later passed) known _

theorem submitApproved_paced (aware : Aware forms runner today book log)
    (approved : List IpAddr) (result : SubmitResult) :
    (submitApproved forms runner book today approved result).Paced forms runner log
      fun _ => Aware forms runner today book := by
  induction approved generalizing result log with
  | nil => exact ensures_pure aware
  | cons ip rest ih =>
      rw [submitApproved]
      split
      · exact ih aware _
      · apply ensures_bind
        apply paced_read rfl aware.recorded
        intro input answer _ later _
        have aware := aware.later later
        rcases answer with text | _ | score
        · exact ih aware result
        · exact ih aware result
        · apply (submitToVendors_paced aware ip score runner.vendors none result).bind
          intro result after aware
          exact ih aware result

theorem runOnce_paced (recorded : Recorded forms runner log) :
    (runOnce forms runner).Paced forms runner log fun _ => Recorded forms runner := by
  apply ensures_bind
  apply paced_read rfl recorded
  intro input answer _ listed _
  rcases answer with text | approved
  · exact ensures_pure listed.recorded
  · apply ensures_bind
    apply paced_utcNow listed.recorded
    intro now later
    apply (loadCooldowns_paced later.recorded approved (dateNaive now)).bind
    intro book loaded aware
    apply (submitApproved_paced aware approved .empty).bind
    intro result after aware
    exact ensures_pure aware.recorded

end Pass

section Runs

/-- The runner over its table and the log of its accepted reports. -/
abbrev TimedMachine :=
  Machine SubmissionOp SubmissionOp.Answer SubmissionLog (Except String SubmitResult)

def timedStep (forms : ReportForms) (runner : SubmissionRunner) (machine : TimedMachine)
    (move : Move SubmissionInput) : TimedMachine :=
  machine.step respondTimed (runOnce forms runner) move

/-- The runner before its first pass, over the rows that are stored. -/
def timedStart (rows : List VendorSubmission) (clock : ℤ) : TimedMachine :=
  ⟨⟨⟨rows, []⟩, [], clock⟩, none⟩

/-- In every run of passes at times that do not go back, without crashes and database errors, in
which no retry of an earlier failure is accepted: two accepted reports of an address to a vendor
are a cooldown apart, and every stretch of the rate window holds at most the limit of them. -/
theorem accepted_reports_spaced (forms : ReportForms) (runner : SubmissionRunner)
    {rows : List VendorSubmission} (unique : (rows.map (·.idempotencyKey)).Nodup) {clock : ℤ}
    {moves : List (Move SubmissionInput)}
    (met : Run.meets (timedStep forms runner) (Machine.admits (smoothAndFirst forms))
      (timedStart rows clock) moves = true) :
    let reports := (moves.foldl (timedStep forms runner) (timedStart rows clock)).state.reports
    (reports.Pairwise fun earlier later =>
      earlier.sourceIp = later.sourceIp → earlier.vendor = later.vendor →
      ∀ config, runner.configOf later.vendor = some config →
        hours config.cooldownHours ≤ later.time - earlier.time) ∧
    ∀ vendor config, runner.configOf vendor = some config → ∀ start,
      reports.countP (fun report => report.vendor = vendor ∧ start < report.time ∧
        report.time ≤ start + hours config.rateWindowHours) ≤ config.rateLimit := by
  intro reports
  have initially : Recorded forms runner ⟨⟨rows, []⟩, [], clock⟩ := by
    refine ⟨unique, List.nodup_nil, by simp, List.Pairwise.nil, ?_⟩
    intro vendor config _ start
    exact Nat.zero_le _
  have implies : ∀ log, Recorded forms runner log → log.IsSpaced runner :=
    fun _ recorded => recorded.spaced
  have spaced : Spaced runner reports :=
    Machine.safe_of_run implies (fun _ recorded => runOnce_paced recorded) initially met
  refine ⟨spaced.cooldown, ?_⟩
  intro vendor config configured start
  have within := spaced.rateLimit vendor config configured start
  rw [List.countP_filter] at within
  refine le_of_eq_of_le (List.countP_congr ?_) within
  intro report _
  simp only [decide_eq_true_eq, Bool.and_eq_true]
  tauto

/-- The texts of two days. -/
def dayForms : ReportForms where
  date day := if day = 0 then ofText "2026-07-29" else ofText "2026-07-30"
  comment _ _ := "propolis"

/-- One vendor with a cooldown of a day and one report a day. -/
def dailyRunner : SubmissionRunner where
  vendors := ["abuseipdb"]
  gatekeeperConfig := [{
    name := "abuseipdb", enabled := true, cooldownHours := 24, rateLimit := 1,
    rateWindowHours := 24, scoreFloor := none, categoryFilter := none }]
  allowlist _ := false

def minutes (count : ℤ) : ℤ :=
  count * 60000000000

/-- A whole pass at one time, with one reply of the vendor. -/
def passAt (time : ℤ) (reply : Except VendorError VendorResponse) : List (Move SubmissionInput) :=
  .start :: List.replicate 13 (.proceed { oneAddressWorld .succeeds reply with clock := time })

/-- The vendor accepts at 00:10, a pass at 00:05 of the next day is held and one at 00:20 is
accepted again. -/
def dailyPasses : List (Move SubmissionInput) :=
  passAt (minutes 10) (.ok ⟨200, "ok", true⟩) ++ passAt (minutes 1445) (.ok ⟨200, "ok", true⟩) ++
    passAt (minutes 1460) (.ok ⟨200, "ok", true⟩)

theorem accepted_reports_spaced_daily :
    let reports := (dailyPasses.foldl (timedStep dayForms dailyRunner)
      (timedStart [] 0)).state.reports
    reports = [⟨.v4 8 8 8 8, "abuseipdb", 0, minutes 10⟩,
      ⟨.v4 8 8 8 8, "abuseipdb", 1, minutes 1460⟩] ∧
    reports.Pairwise fun earlier later =>
      earlier.sourceIp = later.sourceIp → earlier.vendor = later.vendor →
      ∀ config, dailyRunner.configOf later.vendor = some config →
        hours config.cooldownHours ≤ later.time - earlier.time := by
  have met : Run.meets (timedStep dayForms dailyRunner)
      (Machine.admits (smoothAndFirst dayForms)) (timedStart [] 0) dailyPasses = true := by
    decide +kernel
  have unique : (([] : List VendorSubmission).map (·.idempotencyKey)).Nodup := List.nodup_nil
  refine ⟨?_, (accepted_reports_spaced dayForms dailyRunner unique met).1⟩
  decide +kernel

/-- The vendor is unavailable at 00:10 and accepts the retry at 23:50; the row still says 00:10,
and a pass at 00:15 of the next day is accepted again. -/
def retriedPasses : List (Move SubmissionInput) :=
  passAt (minutes 10) (.error (.transient 503 "unavailable")) ++
    passAt (minutes 1430) (.ok ⟨200, "ok", true⟩) ++ passAt (minutes 1455) (.ok ⟨200, "ok", true⟩)

theorem retried_report_opens_gate :
    let reports := (retriedPasses.foldl (timedStep dayForms dailyRunner)
      (timedStart [] 0)).state.reports
    Run.meets (timedStep dayForms dailyRunner) (Machine.admits runsSmoothly)
      (timedStart [] 0) retriedPasses = true ∧
    reports = [⟨.v4 8 8 8 8, "abuseipdb", 0, minutes 1430⟩,
      ⟨.v4 8 8 8 8, "abuseipdb", 1, minutes 1455⟩] ∧
    (¬ reports.Pairwise fun earlier later =>
      earlier.sourceIp = later.sourceIp → earlier.vendor = later.vendor →
      ∀ config, dailyRunner.configOf later.vendor = some config →
        hours config.cooldownHours ≤ later.time - earlier.time) ∧
    ¬ ∀ vendor config, dailyRunner.configOf vendor = some config → ∀ start,
      reports.countP (fun report => report.vendor = vendor ∧ start < report.time ∧
        report.time ≤ start + hours config.rateWindowHours) ≤ config.rateLimit := by
  intro reports
  have made : reports = [⟨.v4 8 8 8 8, "abuseipdb", 0, minutes 1430⟩,
      ⟨.v4 8 8 8 8, "abuseipdb", 1, minutes 1455⟩] := by
    decide +kernel
  refine ⟨by decide +kernel, made, ?_, ?_⟩
  · rw [made]
    intro apart
    have tooClose := (List.pairwise_cons.mp apart).1 _ List.mem_cons_self rfl rfl _ rfl
    revert tooClose
    decide
  · rw [made]
    intro within
    have tooMany := within "abuseipdb" _ rfl (minutes 1000)
    revert tooMany
    decide

end Runs

end Propolis
