import Mathlib.Data.List.Nodup
import Propolis.Review.Submission

/-!
# At most one accepted report a day

A call of the vendor is only made under a key that no accepted call was made under.
What a later pass knows of the calls is the row of the key: it shows a success, or
no outcome, for as long as an accepted call stands under it.  The one moment it does
not is between an accepted retry of a recorded failure and the statement that records
it; a crash or a lost statement there leaves the failure recorded.
-/

namespace Propolis

open Bytes Interaction Process

variable {forms : ReportForms} {runner : SubmissionRunner} {table : SubmissionTable}

/-- The key a call is made under. -/
def SubmitCall.key (forms : ReportForms) (submitted : SubmitCall) : Bytes :=
  idempotencyKey forms submitted.sourceIp submitted.vendor submitted.date

/-- No call is made under the key of an accepted one. -/
def ReportedOnce (forms : ReportForms) (table : SubmissionTable) : Prop :=
  table.calls.Pairwise fun earlier later =>
    earlier.accepted = true → later.key forms ≠ earlier.key forms

/-- The row of the key records a failure. -/
def recordsFailure (key : Bytes) (table : SubmissionTable) : Bool :=
  table.rows.any fun row =>
    row.idempotencyKey = key ∧ row.success = false ∧ row.responseStatus.isSome

def Fortune.isApplied : Fortune → Bool
  | .succeeds => true
  | .fails _ applied | .crashes applied => applied

def Fortune.isCrash : Fortune → Bool
  | .crashes _ => true
  | _ => false

/-- Where a failure is recorded, the outcome of a call that was accepted is recorded too: the
process does not end in the call, and the statement that records its success is applied. -/
def recordsRetries (forms : ReportForms) :
    SubmissionOp → SubmissionInput → SubmissionTable → Bool
  | .submit vendor date report, input, table =>
      !(recordsFailure (idempotencyKey forms report.sourceIp vendor date) table &&
        isAccepted input.reply && input.fortune.isCrash && input.fortune.isApplied)
  | .updateResult key _ _ success, input, table =>
      !(recordsFailure key table && success) || input.fortune.isApplied
  | _, _, _ => true

/-- Between two attempts: the row of an accepted call shows a success or no outcome. -/
structure Noted (forms : ReportForms) (table : SubmissionTable) : Prop where
  unique : (table.rows.map (·.idempotencyKey)).Nodup
  once : ReportedOnce forms table
  held : ∀ submitted ∈ table.calls, submitted.accepted = true →
    ∃ row ∈ table.rows, row.idempotencyKey = submitted.key forms ∧
      (row.success = true ∨ row.responseStatus = none)

/-- The process is safe from the table, whatever the world does that records retries. -/
abbrev Submitting.Safe {Value : Type} (forms : ReportForms) (process : Submitting Value)
    (table : SubmissionTable) (returned : Value → SubmissionTable → Prop) : Prop :=
  process.Ensures respondSubmission (recordsRetries forms) (ReportedOnce forms) (Noted forms)
    table returned

section Statements

variable {fortune : Fortune} {effect : SubmissionTable → SubmissionTable}
  {table after : SubmissionTable}

theorem onTable_after {Answer : Type} {answer : SubmissionTable → Answer}
    {result : Option (Except String Answer)}
    (responded : onTable fortune answer effect table = (result, after)) :
    after = if fortune.isApplied then effect table else table := by
  cases fortune with
  | succeeds | fails | crashes => cases responded; rfl

theorem onTable_ok {Answer : Type} {answer : SubmissionTable → Answer} {value : Answer}
    (responded : onTable fortune answer effect table = (some (.ok value), after)) :
    value = answer table ∧ after = effect table := by
  cases fortune with
  | succeeds => cases responded; exact ⟨rfl, rfl⟩
  | fails | crashes => cases responded

/-- The operations that leave the table as it is. -/
def SubmissionOp.isRead : SubmissionOp → Bool
  | .insertRow .. | .submit .. | .updateResult .. => false
  | _ => true

theorem respond_of_isRead {op : SubmissionOp} (read : op.isRead = true) {input : SubmissionInput}
    {result : Option op.Answer} (responded : respondSubmission op input table = (result, after)) :
    after = table := by
  cases op with
  | insertRow | submit | updateResult => cases read
  | utcNow =>
      rw [respondSubmission] at responded
      cases fortune : input.fortune with
      | succeeds | fails | crashes => rw [fortune] at responded; cases responded; rfl
  | listApproved | loadCooldowns _ _ | readScore _ | latestSuccess _ _ | successCount _ _
  | protocolLabels _ | priorOutcome _ =>
      rw [respondSubmission] at responded
      rw [onTable_after responded, id, ite_self]

end Statements

section Quiet

variable {process : Submitting Value} {rest : Value → Submitting Other}

/-- A process that reads only. -/
def Quiet (forms : ReportForms) {Value : Type} (process : Submitting Value) : Prop :=
  ∀ table, Noted forms table → process.Safe forms table fun _ after => after = table

/-- A process that leaves the table noted. -/
def Keeps (forms : ReportForms) {Value : Type} (process : Submitting Value) : Prop :=
  ∀ table, Noted forms table → process.Safe forms table fun _ => Noted forms

variable {Value Other : Type}

theorem quiet_pure (value : Value) : Quiet forms (pure value : Submitting Value) :=
  fun _ _ => ensures_pure rfl

theorem quiet_call {op : SubmissionOp} (read : op.isRead = true) :
    Quiet forms (call op : Submitting op.Answer) := by
  intro table noted
  apply ensures_call noted.once
  · intro input _ answer after responded
    exact respond_of_isRead read responded
  · intro input _ after responded
    rw [respond_of_isRead read responded]
    exact noted

theorem quiet_bind (quiet : Quiet forms process) (later : ∀ value, Quiet forms (rest value)) :
    Quiet forms (process >>= rest) := by
  intro table noted
  apply (quiet table noted).bind
  rintro value after rfl
  exact later value after noted

theorem keeps_pure (value : Value) : Keeps forms (pure value : Submitting Value) :=
  fun _ noted => ensures_pure noted

theorem keeps_bind (keeps : Keeps forms process) (later : ∀ value, Keeps forms (rest value)) :
    Keeps forms (process >>= rest) := by
  intro table noted
  apply (keeps table noted).bind
  intro value after noted
  exact later value after noted

theorem Quiet.bind_keeps (quiet : Quiet forms process) (later : ∀ value, Keeps forms (rest value)) :
    Keeps forms (process >>= rest) := by
  intro table noted
  apply (quiet table noted).bind
  rintro value after rfl
  exact later value after noted

theorem checkCooldown_quiet (ip : IpAddr) (config : VendorConfig) (book : Option CooldownBook) :
    Quiet forms (checkCooldown ip config book) := by
  apply quiet_bind
  · rw [mostRecentSuccess]
    cases book.bind fun book => book.latestSuccess ip config.name with
    | some latest => exact quiet_pure _
    | none => exact quiet_call rfl
  · rintro (text | _ | last)
    · exact quiet_pure _
    · exact quiet_pure _
    · apply quiet_bind (quiet_call rfl)
      intro now
      split <;> exact quiet_pure _

theorem checkRateLimit_quiet (config : VendorConfig) : Quiet forms (checkRateLimit config) := by
  apply quiet_bind (quiet_call rfl)
  intro now
  apply quiet_bind (quiet_call rfl)
  rintro (text | count)
  · exact quiet_pure _
  · dsimp only
    split <;> exact quiet_pure _

theorem checkWith_quiet (ip : IpAddr) (config : VendorConfig) (score : IpScore)
    (book : Option CooldownBook) : Quiet forms (checkWith ip config score book) := by
  rw [checkWith]
  split
  · exact quiet_pure _
  split
  · exact quiet_pure _
  apply quiet_bind (quiet_call rfl)
  intro now
  split
  · exact quiet_pure _
  apply quiet_bind (checkCooldown_quiet ip config book)
  rintro (reason | _)
  · exact quiet_pure _
  apply quiet_bind (checkRateLimit_quiet config)
  rintro (reason | _)
  · exact quiet_pure _
  dsimp only
  split
  · exact quiet_pure _
  split <;> exact quiet_pure _

theorem loadCooldowns_quiet (approved : List IpAddr) :
    Quiet forms (loadCooldowns runner approved) := by
  apply quiet_bind
  · rw [CooldownBook.load]
    split
    · exact quiet_pure _
    · apply quiet_bind (quiet_call rfl)
      rintro (text | rows) <;> exact quiet_pure _
  · rintro (text | book) <;> exact quiet_pure _

end Quiet

section Attempt

variable {key : Bytes} {accepted : Bool} {report : VendorReport}

/-- The key is claimed: its row shows no success, and no call under it was accepted. -/
structure ClaimedKey (forms : ReportForms) (key : Bytes) (table : SubmissionTable) : Prop where
  noted : Noted forms table
  present : ∃ row ∈ table.rows, row.idempotencyKey = key ∧ row.success = false
  unaccepted : ∀ submitted ∈ table.calls, submitted.key forms = key → submitted.accepted = false

/-- The vendor was called under the key; the row does not show it yet. -/
structure CalledKey (forms : ReportForms) (key : Bytes) (accepted : Bool)
    (table : SubmissionTable) : Prop where
  unique : (table.rows.map (·.idempotencyKey)).Nodup
  once : ReportedOnce forms table
  present : ∃ row ∈ table.rows, row.idempotencyKey = key ∧ row.success = false
  others : ∀ submitted ∈ table.calls, submitted.accepted = true → submitted.key forms ≠ key →
    ∃ row ∈ table.rows, row.idempotencyKey = submitted.key forms ∧
      (row.success = true ∨ row.responseStatus = none)
  refused : accepted = false →
    ∀ submitted ∈ table.calls, submitted.key forms = key → submitted.accepted = false

theorem row_eq_of_unique (unique : (table.rows.map (·.idempotencyKey)).Nodup)
    {row other : VendorSubmission} (member : row ∈ table.rows) (otherMember : other ∈ table.rows)
    (same : row.idempotencyKey = other.idempotencyKey) : row = other :=
  List.inj_on_of_nodup_map unique member otherMember same

theorem insertSubmission_unique (unique : (table.rows.map (·.idempotencyKey)).Nodup)
    (row : VendorSubmission) :
    ((insertSubmission row table).rows.map (·.idempotencyKey)).Nodup := by
  rw [insertSubmission]
  split
  case isTrue => exact unique
  case isFalse absent =>
    rw [List.map_append, List.nodup_append]
    refine ⟨unique, List.pairwise_singleton _ _, ?_⟩
    simp only [List.mem_map, List.map_cons, List.map_nil, List.mem_singleton]
    rintro _ ⟨stored, member, rfl⟩ _ rfl same
    exact absent (List.any_eq_true.mpr ⟨stored, member, by simpa using same⟩)

theorem updateSubmission_keys (key : Bytes) (status : Option ℤ) (body : String)
    (success : Bool) (table : SubmissionTable) :
    (updateSubmission key status body success table).rows.map (·.idempotencyKey) =
      table.rows.map (·.idempotencyKey) := by
  rw [updateSubmission, List.map_map]
  apply List.map_congr_left
  intro row _
  by_cases same : row.idempotencyKey = key <;> simp [same]

/-- A key nothing is stored under is claimed by inserting its row. -/
theorem pending_of_inserted (noted : Noted forms table)
    (absent : (table.rows.any fun stored => stored.idempotencyKey = key) = false)
    (ip : IpAddr) (vendor : String) (report : VendorReport) (now : ℤ) :
    ClaimedKey forms key (insertSubmission (pendingRow ip vendor key report now) table) := by
  have fresh : ∀ stored ∈ table.rows, stored.idempotencyKey ≠ key := by
    simpa using absent
  have inserted : insertSubmission (pendingRow ip vendor key report now) table =
      { table with rows := table.rows ++ [pendingRow ip vendor key report now] } :=
    if_neg (Bool.eq_false_iff.mp absent)
  have unique := insertSubmission_unique noted.unique (pendingRow ip vendor key report now)
  rw [inserted] at unique ⊢
  refine ⟨⟨unique, noted.once, ?_⟩, ⟨_, List.mem_append_right _ List.mem_cons_self, rfl, rfl⟩, ?_⟩
  · intro submitted member accepted
    obtain ⟨stored, storedMember, shown⟩ := noted.held submitted member accepted
    exact ⟨stored, List.mem_append_left _ storedMember, shown⟩
  · intro submitted member same
    by_contra accepted
    obtain ⟨stored, storedMember, storedKey, -⟩ :=
      noted.held submitted member (Bool.not_eq_false _ ▸ accepted)
    exact fresh stored storedMember (storedKey.trans same)

/-- A recorded failure says that no call under the key was accepted. -/
theorem pending_of_recorded (noted : Noted forms table) {status : ℤ}
    (prior : ((table.rows.find? fun row => row.idempotencyKey = key).map fun row =>
      (row.success, row.responseStatus)) = some (false, some status)) :
    ClaimedKey forms key table := by
  obtain ⟨row, found, columns⟩ := Option.map_eq_some_iff.mp prior
  obtain ⟨failing, recorded⟩ := Prod.mk.inj columns
  have member : row ∈ table.rows := List.mem_of_find?_eq_some found
  have keyed : row.idempotencyKey = key := by
    simpa using List.find?_some found
  refine ⟨noted, ⟨row, member, keyed, failing⟩, ?_⟩
  intro submitted submittedMember same
  by_contra accepted
  obtain ⟨stored, storedMember, storedKey, shown⟩ :=
    noted.held submitted submittedMember (Bool.not_eq_false _ ▸ accepted)
  have sameRow : stored = row :=
    row_eq_of_unique noted.unique storedMember member (storedKey.trans (same.trans keyed.symm))
  rw [sameRow, failing, recorded] at shown
  simp at shown

/-- A key that is taken stays as it is. -/
theorem insertSubmission_of_taken {row : VendorSubmission}
    (taken : (table.rows.any fun stored => stored.idempotencyKey = row.idempotencyKey) = true) :
    insertSubmission row table = table :=
  if_pos taken

/-- Whether an insert was applied or not, the table is noted. -/
theorem insertSubmission_noted (noted : Noted forms table) (ip : IpAddr) (vendor : String)
    (report : VendorReport) (now : ℤ) (applied : Bool) :
    Noted forms (if applied then insertSubmission (pendingRow ip vendor key report now) table
      else table) := by
  cases applied with
  | false => exact noted
  | true =>
      cases taken : table.rows.any fun stored => stored.idempotencyKey = key with
      | true =>
          rw [insertSubmission_of_taken taken]
          exact noted
      | false => exact (pending_of_inserted noted taken ip vendor report now).noted

/-- Of the rows that are there, only a recorded failure lets the attempt go on. -/
theorem prior_of_retry {prior : Option (Bool × Option ℤ)}
    (goesOn : PendingClaim.ofPrior prior = .claimed ∨
      PendingClaim.ofPrior prior = .retryOfRecordedFailure) :
    ∃ status, prior = some (false, some status) := by
  rcases prior with _ | ⟨_ | _, _ | status⟩
  all_goals simp [PendingClaim.ofPrior] at goesOn ⊢

theorem insertPending_safe (noted : Noted forms table) (ip : IpAddr) (vendor : String)
    (report : VendorReport) :
    (insertPending ip vendor key report).Safe forms table fun claim after =>
      Noted forms after ∧
        (claim = .ok .claimed ∨ claim = .ok .retryOfRecordedFailure →
          ClaimedKey forms key after) := by
  apply ensures_bind
  apply ensures_call noted.once
  · intro input _ answer after responded
    rw [respondSubmission] at responded
    rcases answer with text | _ | _
    · apply ensures_pure
      rw [onTable_after responded]
      exact ⟨insertSubmission_noted noted ip vendor report input.clock _, by simp⟩
    · -- The key is taken: what its row shows decides.
      obtain ⟨conflict, rfl⟩ := onTable_ok responded
      rw [insertSubmission_of_taken (Bool.not_eq_eq_eq_not.mp conflict.symm)]
      apply ensures_bind
      apply ensures_call noted.once
      · intro input _ answer after responded
        obtain rfl := respond_of_isRead rfl responded
        rcases answer with text | prior
        · exact ensures_pure ⟨noted, by simp⟩
        · rw [respondSubmission] at responded
          obtain ⟨read, -⟩ := onTable_ok responded
          refine ensures_pure ⟨noted, ?_⟩
          intro goesOn
          obtain ⟨status, recorded⟩ := prior_of_retry (by simpa using goesOn)
          exact pending_of_recorded noted (read.symm.trans recorded)
      · intro input _ after responded
        rw [respond_of_isRead rfl responded]
        exact noted
    · obtain ⟨absent, rfl⟩ := onTable_ok responded
      have pending := pending_of_inserted noted (by simpa using absent) ip vendor report
        input.clock
      exact ensures_pure ⟨pending.noted, fun _ => pending⟩
  · intro input _ after responded
    rw [respondSubmission] at responded
    rw [onTable_after responded]
    exact insertSubmission_noted noted ip vendor report input.clock _

/-- Calling the vendor under a claimed key. -/
theorem called_of_pending (submitted : SubmitCall)
    (pending : ClaimedKey forms (submitted.key forms) table) :
    CalledKey forms (submitted.key forms) submitted.accepted
      { table with calls := table.calls ++ [submitted] } := by
  refine ⟨pending.noted.unique, ?_, pending.present, ?_, ?_⟩
  · apply List.pairwise_append.mpr
    refine ⟨pending.noted.once, List.pairwise_singleton _ _, ?_⟩
    intro earlier member later last accepted same
    obtain rfl := List.mem_singleton.mp last
    rw [pending.unaccepted earlier member same.symm] at accepted
    cases accepted
  · intro other member accepted different
    rcases List.mem_append.mp member with before | last
    · exact pending.noted.held other before accepted
    · obtain rfl := List.mem_singleton.mp last
      exact absurd rfl different
  · intro refused other member same
    rcases List.mem_append.mp member with before | last
    · exact pending.unaccepted other before same
    · obtain rfl := List.mem_singleton.mp last
      exact refused

/-- The row shows no outcome, or no call was accepted: nothing need be recorded. -/
theorem CalledKey.noted_of_unrecorded (called : CalledKey forms key accepted table)
    (unrecorded : accepted = true → recordsFailure key table = false) : Noted forms table := by
  refine ⟨called.unique, called.once, ?_⟩
  intro submitted member wasAccepted
  by_cases same : submitted.key forms = key
  · cases accepted with
    | false =>
        rw [called.refused rfl submitted member same] at wasAccepted
        cases wasAccepted
    | true =>
        obtain ⟨row, rowMember, keyed, failing⟩ := called.present
        refine ⟨row, rowMember, keyed.trans same.symm, .inr ?_⟩
        have silent := unrecorded rfl
        simp only [recordsFailure, List.any_eq_false, decide_eq_true_eq] at silent
        by_contra recorded
        exact silent row rowMember ⟨keyed, failing, Option.isSome_iff_ne_none.mpr recorded⟩
  · exact called.others submitted member wasAccepted same

/-- Recording the outcome settles the table. -/
theorem CalledKey.noted_of_update (called : CalledKey forms key accepted table)
    (status : Option ℤ) (body : String) :
    Noted forms (updateSubmission key status body accepted table) := by
  refine ⟨updateSubmission_keys key status body accepted table ▸ called.unique, called.once, ?_⟩
  intro submitted member wasAccepted
  by_cases same : submitted.key forms = key
  · cases accepted with
    | false =>
        rw [called.refused rfl submitted member same] at wasAccepted
        cases wasAccepted
    | true =>
        obtain ⟨row, rowMember, keyed, -⟩ := called.present
        refine ⟨_, List.mem_map_of_mem rowMember, ?_⟩
        rw [if_pos keyed]
        exact ⟨keyed.trans same.symm, .inl rfl⟩
  · obtain ⟨row, rowMember, keyed, shown⟩ := called.others submitted member wasAccepted same
    refine ⟨_, List.mem_map_of_mem rowMember, ?_⟩
    rw [if_neg (fun taken => same (keyed.symm.trans taken))]
    exact ⟨keyed, shown⟩

theorem replyParts_success (reply : Except VendorError VendorResponse) :
    (replyParts reply).2.2 = isAccepted reply := by
  rcases reply with (⟨status, body⟩ | ⟨status, body⟩) | response <;> rfl

/-- Recording the outcome of a call, where a lost statement is allowed only if nothing need be
recorded. -/
theorem recordResult_safe (called : CalledKey forms key accepted table)
    (status : Option ℤ) (body : String) :
    (recordResult key status body accepted).Safe forms table fun _ => Noted forms := by
  have kept : ∀ input, recordsRetries forms (.updateResult key status body accepted) input table =
      true → Noted forms (if input.fortune.isApplied then
        updateSubmission key status body accepted table else table) := by
    intro input recorded
    simp only [recordsRetries, Bool.or_eq_true]
      at recorded
    cases applied : input.fortune.isApplied with
    | true => exact called.noted_of_update status body
    | false =>
        apply called.noted_of_unrecorded
        intro wasAccepted
        simpa [applied, wasAccepted] using recorded
  apply ensures_call called.once
  · intro input recorded answer after responded
    rw [respondSubmission] at responded
    rw [onTable_after responded]
    exact kept input recorded
  · intro input recorded after responded
    rw [respondSubmission] at responded
    rw [onTable_after responded]
    exact kept input recorded

/-- The vendor is called, and then the outcome recorded. -/
theorem submit_safe {vendor : String} {date : ℤ}
    (pending : ClaimedKey forms (idempotencyKey forms report.sourceIp vendor date) table) :
    Submitting.Safe forms (call (SubmissionOp.submit vendor date report)) table
      fun reply => CalledKey forms (idempotencyKey forms report.sourceIp vendor date)
        (isAccepted reply) := by
  have called : ∀ reply, CalledKey forms (idempotencyKey forms report.sourceIp vendor date)
      (isAccepted reply) { table with calls := table.calls ++
        [{ sourceIp := report.sourceIp, vendor, date, accepted := isAccepted reply }] } :=
    fun reply => called_of_pending
      { sourceIp := report.sourceIp, vendor, date, accepted := isAccepted reply } pending
  apply ensures_call pending.noted.once
  · intro input _ reply after responded
    rw [respondSubmission] at responded
    cases fortune : input.fortune with
    | crashes applied => rw [fortune] at responded; cases responded
    | succeeds | fails => rw [fortune] at responded; cases responded; exact called _
  · intro input recorded after responded
    rw [respondSubmission] at responded
    cases fortune : input.fortune with
    | succeeds | fails => rw [fortune] at responded; cases responded
    | crashes applied =>
        rw [fortune] at responded
        cases responded
        cases applied with
        | false => exact pending.noted
        | true =>
            apply (called input.reply).noted_of_unrecorded
            intro accepted
            change recordsFailure (idempotencyKey forms report.sourceIp vendor date) table = false
            simpa [recordsRetries, fortune, accepted, Fortune.isCrash, Fortune.isApplied]
              using recorded

theorem callVendor_safe {vendor : String} {today : ℤ}
    (pending : ClaimedKey forms (idempotencyKey forms report.sourceIp vendor today) table)
    (result : SubmitResult) :
    (callVendor (idempotencyKey forms report.sourceIp vendor today) vendor today report
      result).Safe forms table fun _ => Noted forms := by
  apply (submit_safe pending).bind
  intro reply after called
  rw [← replyParts_success] at called
  apply (recordResult_safe called _ _).bind
  intro _ after noted
  split <;> exact ensures_pure noted

theorem attemptSubmission_keeps (vendor : String) (today : ℤ) (report : VendorReport)
    (result : SubmitResult) :
    Keeps forms (attemptSubmission forms report.sourceIp vendor today report result) := by
  intro table noted
  apply (insertPending_safe noted _ _ _).bind
  rintro (text | _ | _ | _ | _) after ⟨noted, pending⟩
  · exact ensures_pure noted
  · exact callVendor_safe (pending (.inl rfl)) result
  · exact callVendor_safe (pending (.inr rfl)) result
  · exact ensures_pure noted
  · exact ensures_pure noted

end Attempt

section Pass

theorem submitToVendors_keeps (book : Option CooldownBook) (today : ℤ) (ip : IpAddr)
    (score : IpScore) (vendors : List String)
    (known : Option (List (Category × Option String))) (result : SubmitResult) :
    Keeps forms (submitToVendors forms runner book today ip score vendors known result) := by
  induction vendors generalizing known result with
  | nil => exact keeps_pure result
  | cons vendor rest ih =>
      rw [submitToVendors]
      cases runner.gatekeeperConfig.find? fun config => config.name = vendor with
      | none => exact ih known _
      | some config =>
          apply (checkWith_quiet ip config score book).bind_keeps
          rintro (_ | reason)
          · apply Quiet.bind_keeps
            · cases known with
              | some labels => exact quiet_pure _
              | none => exact quiet_call rfl
            · rintro (text | labels)
              · exact keeps_pure result
              · apply keeps_bind
                · exact attemptSubmission_keeps vendor today
                    (buildReport forms ip score labels vendor) result
                · exact fun result => ih (some labels) result
          · exact ih known _

theorem submitApproved_keeps (book : Option CooldownBook) (today : ℤ) (approved : List IpAddr)
    (result : SubmitResult) :
    Keeps forms (submitApproved forms runner book today approved result) := by
  induction approved generalizing result with
  | nil => exact keeps_pure result
  | cons ip rest ih =>
      rw [submitApproved]
      split
      · exact ih _
      · apply (quiet_call rfl).bind_keeps
        rintro (text | _ | score)
        · exact ih result
        · exact ih result
        · apply keeps_bind (submitToVendors_keeps book today ip score runner.vendors none result)
          exact fun result => ih result

theorem runOnce_keeps : Keeps forms (runOnce forms runner) := by
  apply (quiet_call rfl).bind_keeps
  rintro (text | approved)
  · exact keeps_pure _
  · apply (quiet_call rfl).bind_keeps
    intro now
    apply (loadCooldowns_quiet approved).bind_keeps
    intro book
    apply keeps_bind (submitApproved_keeps book (dateNaive now) approved .empty)
    exact fun result => keeps_pure _

end Pass

section Runs

/-- The runner over its table: passes are started and proceed statement by statement. -/
abbrev SubmissionMachine :=
  Machine SubmissionOp SubmissionOp.Answer SubmissionTable (Except String SubmitResult)

/-- One move of the runner. -/
def submissionStep (forms : ReportForms) (runner : SubmissionRunner)
    (machine : SubmissionMachine) (move : Move SubmissionInput) : SubmissionMachine :=
  machine.step respondSubmission (runOnce forms runner) move

theorem count_le_one_of_once (once : ReportedOnce forms table) (ip : IpAddr) (vendor : String)
    (date : ℤ) :
    table.calls.countP (fun submitted => submitted.accepted && submitted.sourceIp = ip &&
      submitted.vendor = vendor && submitted.date = date) ≤ 1 := by
  unfold ReportedOnce at once
  generalize table.calls = calls at once
  induction calls with
  | nil => exact Nat.zero_le 1
  | cons first rest ih =>
      obtain ⟨apart, later⟩ := List.pairwise_cons.mp once
      rw [List.countP_cons]
      split
      case isFalse => exact ih later
      case isTrue matched =>
        simp only [Bool.and_eq_true, decide_eq_true_eq] at matched
        obtain ⟨⟨⟨accepted, sameIp⟩, sameVendor⟩, sameDate⟩ := matched
        have none : rest.countP (fun submitted => submitted.accepted &&
            submitted.sourceIp = ip && submitted.vendor = vendor && submitted.date = date) = 0 := by
          apply List.countP_eq_zero.mpr
          intro other member
          simp only [Bool.and_eq_true, decide_eq_true_eq]
          rintro ⟨⟨⟨-, otherIp⟩, otherVendor⟩, otherDate⟩
          apply apart other member accepted
          rw [SubmitCall.key, SubmitCall.key, otherIp, otherVendor, otherDate, sameIp, sameVendor,
            sameDate]
        rw [none]

/-- In every run of passes in which the outcome of an accepted retry of a recorded failure gets
recorded: no call is made under the key of an accepted call, and so at most one call is accepted
for an address, a vendor and a date. -/
theorem reported_once_a_day (forms : ReportForms) (runner : SubmissionRunner)
    {rows : List VendorSubmission} (unique : (rows.map (·.idempotencyKey)).Nodup)
    {moves : List (Move SubmissionInput)}
    (recorded : Run.meets (submissionStep forms runner) (Machine.admits (recordsRetries forms))
      ⟨⟨rows, []⟩, none⟩ moves = true) :
    let table := (moves.foldl (submissionStep forms runner) ⟨⟨rows, []⟩, none⟩).state
    (table.calls.Pairwise fun earlier later =>
      earlier.accepted = true → later.key forms ≠ earlier.key forms) ∧
    ∀ ip vendor date, table.calls.countP (fun submitted => submitted.accepted &&
      submitted.sourceIp = ip && submitted.vendor = vendor && submitted.date = date) ≤ 1 := by
  intro table
  have implies : ∀ table, Noted forms table → ReportedOnce forms table :=
    fun _ noted => noted.once
  have initially : Noted forms ⟨rows, []⟩ := ⟨unique, List.Pairwise.nil, by simp⟩
  have once : ReportedOnce forms table :=
    Machine.safe_of_run implies runOnce_keeps initially recorded
  exact ⟨once, fun ip vendor date => count_le_one_of_once once ip vendor date⟩

/-- Fixed texts for a date and a comment. -/
def plainForms : ReportForms where
  date _ := ofText "2026-07-29"
  comment _ _ := "propolis"

/-- One vendor that is enabled, without a floor or a filter, and without a cooldown. -/
def oneVendorRunner : SubmissionRunner where
  vendors := ["abuseipdb"]
  gatekeeperConfig := [{
    name := "abuseipdb", enabled := true, cooldownHours := 0, rateLimit := 1000,
    rateWindowHours := 24, scoreFloor := none, categoryFilter := none }]
  allowlist _ := false

def freshScore : IpScore where
  sourceIp := .v4 8 8 8 8
  rawScore := 80
  decayAnchor := 0
  maxConfidence := 1
  eventCount := 1
  establishedEventCount := 1
  distinctCategories := 1
  categoryBreakdown category := if category = .auth then some ⟨20, 1⟩ else none
  hasConfirmedReal := true
  distinctWanCount := 1
  distinctSensorCount := 1
  activeDays := 1
  lastActiveDay := 0
  firstSeen := 0
  lastSeen := 0
  eligible := true
  recommendedForVendor := true
  recommendedForBlocklist := false
  tier := none
  delisted := false

/-- A world with one approved address. -/
def oneAddressWorld (fortune : Fortune) (reply : Except VendorError VendorResponse) :
    SubmissionInput where
  fortune := fortune
  approved := [.v4 8 8 8 8]
  score := some freshScore
  labels := [(.auth, some "ssh")]
  reply := reply
  clock := 0

def unavailable : SubmissionInput :=
  oneAddressWorld .succeeds (.error (.transient 503 "unavailable"))

def accepting : SubmissionInput :=
  oneAddressWorld .succeeds (.ok ⟨200, "ok", true⟩)

def crashing : SubmissionInput :=
  oneAddressWorld (.crashes false) (.ok ⟨200, "ok", true⟩)

/-- The first attempt is accepted and its record lost; the next pass finds no outcome. -/
def lostFirstRecord : List (Move SubmissionInput) :=
  [.start] ++ List.replicate 10 (.proceed accepting) ++ [.proceed crashing] ++
  [.start] ++ List.replicate 10 (.proceed accepting)

theorem reported_once_a_day_lost_first :
    Run.meets (submissionStep plainForms oneVendorRunner)
      (Machine.admits (recordsRetries plainForms)) ⟨⟨[], []⟩, none⟩ lostFirstRecord = true ∧
    (lostFirstRecord.foldl (submissionStep plainForms oneVendorRunner)
      ⟨⟨[], []⟩, none⟩).state.calls.countP (fun submitted => submitted.accepted &&
        submitted.sourceIp = .v4 8 8 8 8 && submitted.vendor = "abuseipdb" &&
        submitted.date = 0) ≤ 1 := by
  have recorded : Run.meets (submissionStep plainForms oneVendorRunner)
      (Machine.admits (recordsRetries plainForms)) ⟨⟨[], []⟩, none⟩ lostFirstRecord = true := by
    decide +kernel
  have unique : (([] : List VendorSubmission).map (·.idempotencyKey)).Nodup := List.nodup_nil
  exact ⟨recorded, (reported_once_a_day plainForms oneVendorRunner unique recorded).2
    (.v4 8 8 8 8) "abuseipdb" 0⟩

/-- A failure is recorded, its retry is accepted and the record of that is lost; the next pass
finds the failure and calls again. -/
def lostRetryRecord : List (Move SubmissionInput) :=
  [.start] ++ List.replicate 11 (.proceed unavailable) ++
  [.start] ++ List.replicate 11 (.proceed accepting) ++ [.proceed crashing] ++
  [.start] ++ List.replicate 12 (.proceed accepting)

theorem retried_report_is_repeated :
    let calls := (lostRetryRecord.foldl (submissionStep plainForms oneVendorRunner)
      ⟨⟨[], []⟩, none⟩).state.calls
    calls = [⟨.v4 8 8 8 8, "abuseipdb", 0, false⟩, ⟨.v4 8 8 8 8, "abuseipdb", 0, true⟩,
        ⟨.v4 8 8 8 8, "abuseipdb", 0, true⟩] ∧
    ¬ ∀ ip vendor date, calls.countP (fun submitted => submitted.accepted &&
      submitted.sourceIp = ip && submitted.vendor = vendor && submitted.date = date) ≤ 1 := by
  intro calls
  have made : calls = [⟨.v4 8 8 8 8, "abuseipdb", 0, false⟩,
      ⟨.v4 8 8 8 8, "abuseipdb", 0, true⟩, ⟨.v4 8 8 8 8, "abuseipdb", 0, true⟩] := by
    decide +kernel
  refine ⟨made, ?_⟩
  intro atMostOne
  have twice := atMostOne (.v4 8 8 8 8) "abuseipdb" 0
  rw [made] at twice
  revert twice
  decide

end Runs

end Propolis
