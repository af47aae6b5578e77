import Propolis.Intake.Runner

/-!
# What becomes of the lines of a batch

Every line of a batch is sorted into exactly one of the lists of `run_batch`, and
the converted lines keep the order of the log (`Sorts`).  So the lines before the
first event that was not appended are dealt with: `BatchHandled` says how far a batch
got and that every line up to there has its fate.
-/

namespace Propolis

open Bytes

section Append

variable {State : Type} {atomic : ℕ → State → List EventInput → State × Option RepoError}

/-- An append says how many events are durable: all of them, or those before the failed one. -/
structure Outcome (count : ℕ) (outcome : BatchAppend) : Prop where
  all : outcome.failure = none → outcome.appended = count
  some : outcome.failure ≠ none → outcome.appended < count

theorem Outcome.le {count : ℕ} {outcome : BatchAppend} (done : Outcome count outcome) :
    outcome.appended ≤ count := by
  by_cases clean : outcome.failure = none
  · exact (done.all clean).le
  · exact (done.some clean).le

theorem appendSlices_outcome (normalized : List EventInput) (attempt : ℕ) {done stop : ℕ}
    (state : State) (ahead : done < stop ∨ done = normalized.length)
    (inside : stop ≤ normalized.length) :
    Outcome normalized.length (appendSlices atomic normalized attempt done stop state).2 := by
  fun_induction appendSlices atomic normalized attempt done stop state with
  | case1 attempt done stop state more next success ih =>
      apply ih
      · omega
      · exact le_rfl
  | case2 attempt done stop state more next error failure halved ih =>
      apply ih <;> omega
  | case3 attempt done stop state more next error failure final =>
      exact ⟨fun none => absurd none (by simp), fun _ => more.1⟩
  | case4 attempt done stop state over_ =>
      refine ⟨fun _ => ?_, fun some => absurd rfl some⟩
      dsimp only
      omega

theorem validPrefix_outcome (events : List EventInput) :
    ((validPrefix events).2 = none → (validPrefix events).1.length = events.length) ∧
      ((validPrefix events).2 ≠ none → (validPrefix events).1.length < events.length) := by
  induction events with
  | nil => exact ⟨fun _ => rfl, fun some => absurd rfl some⟩
  | cons event rest ih =>
      rw [validPrefix]
      cases event.validate with
      | error error => exact ⟨fun none => absurd none (by simp), fun _ => by simp⟩
      | ok valid => simpa using ih

theorem appendEventsWith_outcome (state : State) (events : List EventInput) :
    Outcome events.length (appendEventsWith atomic state events).2 := by
  have slices : Outcome (validPrefix events).1.length (appendSlices atomic
      ((validPrefix events).1.map normalizeEvent) 0 0
      ((validPrefix events).1.map normalizeEvent).length state).2 := by
    have whole := @appendSlices_outcome _ atomic ((validPrefix events).1.map normalizeEvent) 0 0
      ((validPrefix events).1.map normalizeEvent).length state (by omega) le_rfl
    rwa [List.length_map] at whole ⊢
  have valid := validPrefix_outcome events
  simp only [appendEventsWith]
  generalize appendSlices atomic ((validPrefix events).1.map normalizeEvent) 0 0
    ((validPrefix events).1.map normalizeEvent).length state = result at slices
  rcases result with ⟨after, ⟨done, failure⟩⟩
  cases failure with
  | some error =>
      have early := slices.some (by simp)
      refine ⟨fun none => absurd none (by simp), fun _ => ?_⟩
      dsimp only at early ⊢
      by_cases bad : (validPrefix events).2 = none
      · have same := valid.1 bad
        omega
      · have fewer := valid.2 bad
        omega
  | none =>
      have all := slices.all rfl
      refine ⟨fun none => ?_, fun some => ?_⟩
      · rw [Option.map_eq_none_iff] at none
        rw [all, valid.1 none]
      · rw [all]
        apply valid.2
        intro none
        rw [none] at some
        exact some rfl

end Append

section Ledger

variable {faults : ℕ → Option RepoError}

theorem ledgerAtomic_failed {attempt : ℕ} {ledger next rows : List EventInput} {error : RepoError}
    (failure : ledgerAtomic faults attempt ledger rows = (next, some error)) : next = ledger := by
  simp only [ledgerAtomic] at failure
  split at failure
  · exact (Prod.mk.inj failure).1.symm
  · simp at failure

/-- What is durable are the leading events. -/
theorem appendSlices_ledger (normalized : List EventInput) (attempt : ℕ) {done stop : ℕ}
    (ledger : List EventInput) (order : done ≤ stop) (inside : stop ≤ normalized.length) :
    done ≤ (appendSlices (ledgerAtomic faults) normalized attempt done stop ledger).2.appended ∧
      (appendSlices (ledgerAtomic faults) normalized attempt done stop ledger).1 =
        ledger ++ (normalized.take (appendSlices (ledgerAtomic faults) normalized attempt done stop
          ledger).2.appended).drop done := by
  fun_induction appendSlices (ledgerAtomic faults) normalized attempt done stop ledger with
  | case1 attempt done stop ledger more next success ih =>
      rcases ih inside le_rfl with ⟨further, rows⟩
      have written : next = ledger ++ (normalized.take stop).drop done := by
        simp only [ledgerAtomic] at success
        split at success
        · simp at success
        · exact (Prod.mk.inj success).1.symm
      refine ⟨order.trans further, ?_⟩
      subst written
      rw [rows, List.append_assoc, drop_take_append _ order further]
  | case2 attempt done stop ledger more next error failure halved ih =>
      obtain rfl := ledgerAtomic_failed failure
      apply ih <;> omega
  | case3 attempt done stop ledger more next error failure final =>
      obtain rfl := ledgerAtomic_failed failure
      refine ⟨le_rfl, ?_⟩
      rw [List.drop_eq_nil_of_le (by simp), List.append_nil]
  | case4 attempt done stop ledger over_ =>
      refine ⟨le_rfl, ?_⟩
      rw [List.drop_eq_nil_of_le (by simp), List.append_nil]

theorem validPrefix_prefix (events : List EventInput) : (validPrefix events).1 <+: events := by
  induction events with
  | nil => exact List.prefix_rfl
  | cons event rest ih =>
      rw [validPrefix]
      cases event.validate with
      | error error => exact List.nil_prefix
      | ok valid => exact (List.prefix_cons_inj event).mpr ih

/-- The ledger gains the leading events, normalized. -/
theorem appendEventsWith_ledger (ledger events : List EventInput) :
    (appendEventsWith (ledgerAtomic faults) ledger events).1 = ledger ++
      (events.take (appendEventsWith (ledgerAtomic faults) ledger events).2.appended).map
        normalizeEvent := by
  have slices := (@appendSlices_ledger faults ((validPrefix events).1.map normalizeEvent) 0 0
    ((validPrefix events).1.map normalizeEvent).length ledger (Nat.zero_le _) le_rfl).2
  have reach := @appendSlices_outcome _ (ledgerAtomic faults)
    ((validPrefix events).1.map normalizeEvent) 0 0
    ((validPrefix events).1.map normalizeEvent).length ledger (by omega) le_rfl
  simp only [appendEventsWith]
  generalize appendSlices (ledgerAtomic faults) ((validPrefix events).1.map normalizeEvent) 0 0
    ((validPrefix events).1.map normalizeEvent).length ledger = result at slices reach
  rcases result with ⟨after, ⟨done, failure⟩⟩
  have inside : done ≤ (validPrefix events).1.length := by
    rw [List.length_map] at reach
    exact reach.le
  have leading : (validPrefix events).1.take done = events.take done := by
    rcases validPrefix_prefix events with ⟨others, whole⟩
    conv_rhs => rw [← whole]
    exact (List.take_append_of_le_length inside).symm
  rw [← List.map_take, leading] at slices
  cases failure with
  | none => exact slices
  | some error => exact slices

end Ledger

variable {reader : LineReader} {lines : List Bytes} {sorted : SortedLines}

section Sorts

variable {rejectedAt probes statsLines : List ℕ}

/-- A line that was read as this ledger input. -/
def LineReader.Converts (reader : LineReader) (line : Bytes) (input : EventInput) : Prop :=
  ∃ event reply, reader.parse line = some event ∧ reader.convert event = some (input, reply)

/-- Every line has its fate, and the converted ones keep the order of the log. -/
structure Sorts (reader : LineReader) (lines : List Bytes) (sorted : SortedLines) : Prop where
  each : ∀ index < lines.length, index ∈ sorted.rejectedAt ∨ index ∈ sorted.probes ∨
    index ∈ sorted.statsLines ∨ index ∈ sorted.pending.map Pending.line
  ordered : (sorted.pending.map Pending.line).Pairwise (· < ·)
  inside : ∀ index ∈ sorted.pending.map Pending.line, index < lines.length
  paired : sorted.pending.length = sorted.events.length
  converted : List.Forall₂ (fun pending input => ∃ line, lines[pending.line]? = some line ∧
    reader.Converts line input) sorted.pending sorted.events
  replied : ∀ reply ∈ sorted.replies, reply.1 < sorted.pending.length

theorem Sorts.nil : Sorts reader [] {} := by
  refine ⟨?_, .nil, ?_, rfl, .nil, ?_⟩
  · intro index impossible
    exact absurd impossible (Nat.not_lt_zero index)
  · exact List.forall_mem_nil _
  · exact List.forall_mem_nil _

section

variable (sorts : Sorts reader lines sorted) (line : Bytes)
include sorts line

/-- The next line has its place in one of the lists, whichever it is. -/
theorem Sorts.each_append {pending : List Pending}
    (kept : sorted.rejectedAt ⊆ rejectedAt ∧ sorted.probes ⊆ probes ∧
      sorted.statsLines ⊆ statsLines ∧ sorted.pending ⊆ pending)
    (next : lines.length ∈ rejectedAt ∨ lines.length ∈ probes ∨ lines.length ∈ statsLines ∨
      lines.length ∈ pending.map Pending.line) :
    ∀ index < (lines ++ [line]).length, index ∈ rejectedAt ∨ index ∈ probes ∨
      index ∈ statsLines ∨ index ∈ pending.map Pending.line := by
  intro index inside
  rw [List.length_append] at inside
  rcases Nat.lt_succ_iff_lt_or_eq.mp inside with before | rfl
  · rcases sorts.each index before with rejected | probe | stats | converted
    · exact Or.inl (kept.1 rejected)
    · exact Or.inr (Or.inl (kept.2.1 probe))
    · exact Or.inr (Or.inr (Or.inl (kept.2.2.1 stats)))
    · exact Or.inr (Or.inr (Or.inr (List.map_subset _ kept.2.2.2 converted)))
  · exact next

theorem Sorts.converted_append :
    List.Forall₂ (fun pending input => ∃ other, (lines ++ [line])[pending.line]? = some other ∧
      reader.Converts other input) sorted.pending sorted.events := by
  refine sorts.converted.imp ?_
  rintro pending input ⟨other, found, converts⟩
  refine ⟨other, ?_, converts⟩
  rw [List.getElem?_append_left (List.getElem?_eq_some_iff.mp found).1]
  exact found

theorem Sorts.inside_append :
    ∀ index ∈ sorted.pending.map Pending.line, index < (lines ++ [line]).length := by
  intro index member
  rw [List.length_append]
  exact Nat.lt_add_right _ (sorts.inside index member)

/-- A line that is no event goes to one of the other lists. -/
theorem Sorts.aside (kept : sorted.rejectedAt ⊆ rejectedAt ∧ sorted.probes ⊆ probes ∧
      sorted.statsLines ⊆ statsLines)
    (next : lines.length ∈ rejectedAt ∨ lines.length ∈ probes ∨ lines.length ∈ statsLines) :
    Sorts reader (lines ++ [line])
      { sorted with rejectedAt := rejectedAt, probes := probes, statsLines := statsLines } := by
  refine ⟨?_, sorts.ordered, sorts.inside_append line, sorts.paired,
    sorts.converted_append line, sorts.replied⟩
  apply sorts.each_append line
  · exact ⟨kept.1, kept.2.1, kept.2.2, List.Subset.refl _⟩
  · rcases next with rejected | probe | stats
    · exact Or.inl rejected
    · exact Or.inr (Or.inl probe)
    · exact Or.inr (Or.inr (Or.inl stats))

theorem Sorts.reject : Sorts reader (lines ++ [line]) (sorted.reject lines.length) := by
  apply sorts.aside line
  · exact ⟨List.subset_append_left _ _, List.Subset.refl _, List.Subset.refl _⟩
  · exact Or.inl (by simp)

theorem Sorts.push : Sorts reader (lines ++ [line]) (sorted.push reader (line, lines.length)) := by
  rw [SortedLines.push]
  cases parsed : reader.parse line with
  | none => exact sorts.reject line
  | some event =>
      dsimp only
      by_cases stats : reader.isStats event = true
      · rw [if_pos stats]
        cases reader.statsSensor event with
        | none => exact sorts.reject line
        | some sensor =>
            dsimp only
            by_cases own : sensor = reader.sensorName
            · rw [if_pos own]
              apply sorts.aside line
              · exact ⟨List.Subset.refl _, List.Subset.refl _, List.subset_append_left _ _⟩
              · exact Or.inr (Or.inr (by simp))
            · rw [if_neg own]
              exact sorts.reject line
      · rw [if_neg stats]
        by_cases probe : reader.isProbe event = true
        · rw [if_pos probe]
          apply sorts.aside line
          · exact ⟨List.Subset.refl _, List.subset_append_left _ _, List.Subset.refl _⟩
          · exact Or.inr (Or.inl (by simp))
        · rw [if_neg probe]
          cases converted : reader.convert event with
          | none => exact sorts.reject line
          | some made =>
              rcases made with ⟨input, reply⟩
              refine ⟨?_, ?_, ?_, ?_, ?_, ?_⟩
              · apply sorts.each_append line
                · exact ⟨List.Subset.refl _, List.Subset.refl _, List.Subset.refl _,
                    List.subset_append_left _ _⟩
                · exact Or.inr (Or.inr (Or.inr (by simp)))
              · rw [List.map_append, List.pairwise_append]
                refine ⟨sorts.ordered, by simp, ?_⟩
                intro index member last lastMember
                simp only [List.map_cons, List.map_nil, List.mem_singleton] at lastMember
                rw [lastMember]
                exact sorts.inside index member
              · intro index member
                rw [List.map_append, List.mem_append] at member
                rcases member with old | new
                · exact sorts.inside_append line index old
                · simp only [List.map_cons, List.map_nil, List.mem_singleton] at new
                  simp [new]
              · simp [sorts.paired]
              · apply List.rel_append
                · exact sorts.converted_append line
                · refine .cons ⟨line, ?_, event, reply, parsed, converted⟩ .nil
                  simp
              · intro other member
                rw [List.length_append]
                rcases List.mem_append.mp member with old | new
                · exact Nat.lt_succ_of_lt (sorts.replied other old)
                · have made := Option.mem_toList.mp new
                  rw [Option.map_eq_some_iff] at made
                  rcases made with ⟨text, -, rfl⟩
                  exact Nat.lt_succ_self _

end

theorem sortLines_from (sorts : Sorts reader lines sorted) (later : List Bytes) :
    Sorts reader (lines ++ later)
      ((later.zipIdx lines.length).foldl (SortedLines.push reader) sorted) := by
  induction later generalizing lines sorted with
  | nil => simpa using sorts
  | cons line later ih =>
      have next := ih (sorts.push line)
      rw [List.length_append, List.append_assoc] at next
      exact next

theorem sortLines_sorts (reader : LineReader) (lines : List Bytes) :
    Sorts reader lines (sortLines reader lines) :=
  sortLines_from Sorts.nil lines

end Sorts

section Handling

variable {hash : Bytes → Digest} {env : PollEnv} {reading : IntakeRunner} {ledger : List EventInput}
  {storeFailure : Option (ℕ × RepoError)} {rows : List EventInput} {appended : ℕ}

/-- How the tailer is left, and how many lines of the batch it has passed. -/
inductive Moved (hash : Bytes → Digest) (env : PollEnv) (reading : LogTailer) (lineCount : ℕ)
    (appended : List ℕ) : ℕ → LogTailer → Prop where
  | committed : Moved hash env reading lineCount appended lineCount reading.commitBatch
  | through {count : ℕ} {watch : Watch} {tailer : LogTailer} (some : 0 < count)
      (used : watch = env.quarantineCommit ∨ watch = env.commit)
      (commits : reading.commitBatchThrough hash count watch.look = (true, tailer)) :
      Moved hash env reading lineCount appended count tailer
  | rewound (why : appended = [] ∨ ∃ count, count ≤ lineCount ∧
      (reading.commitBatchThrough hash count env.commit.look).1 = false) :
      Moved hash env reading lineCount appended 0 reading.rewindBatch

/-- A line that was set aside, with where it begins and its bytes. -/
def SetAside (reading : LogTailer) (run : BatchRun) (index : ℕ) : Prop :=
  ∃ place line, reading.uncommittedLine index = some place ∧ run.lines[index]? = some line ∧
    run.quarantined = some (place.1, place.2.getD line)

/-- What a batch did with its lines. -/
structure BatchHandled (hash : Bytes → Digest) (reader : LineReader) (env : PollEnv)
    (reading : LogTailer) (lines : List Bytes) (ledger : List EventInput) (run : BatchRun)
    (passed : ℕ) : Prop where
  lines_eq : run.lines = lines
  moved : Moved hash env reading lines.length run.appended passed run.runner.tailer
  inside : passed ≤ lines.length
  fates : ∀ index < passed, index ∈ run.appended ∨ index ∈ run.rejected ∨ index ∈ run.probes ∨
    index ∈ run.stats ∨ SetAside reading run index
  reached : passed = 0 ∨ ∀ index ∈ run.appended, index < passed
  offered : ∀ index ∈ run.offered, index < lines.length
  ordered : run.appended.Pairwise (· < ·)
  saved : run.saved = none ∨ run.saved = some run.runner.tailer.persistCursor
  size : 0 < run.runner.batchSize
  kept : ∀ event ∈ ledger, event ∈ run.ledger
  durable : ∀ index ∈ run.appended, ∃ line input, lines[index]? = some line ∧
    reader.Converts line input ∧ normalizeEvent input ∈ run.ledger

theorem nextBatchSize_pos (current linesRead bytesRead : ℕ) (failed : Bool) :
    0 < nextBatchSize current linesRead bytesRead failed := by
  rw [nextBatchSize]
  split
  · exact Nat.succ_pos _
  · exact Nat.lt_of_lt_of_le (Nat.succ_pos _) (Nat.le_max_right _ _)

/-- In a growing list, what is less than an element stands before it. -/
theorem mem_take_iff_lt {list : List ℕ} (ordered : list.Pairwise (· < ·)) {position last other : ℕ}
    (found : list[position]? = some last) (member : other ∈ list) :
    other ∈ list.take position ↔ other < last := by
  rcases List.getElem?_eq_some_iff.mp found with ⟨inside, rfl⟩
  have split : list = list.take position ++ list[position] :: list.drop (position + 1) := by
    rw [List.cons_getElem_drop_succ, List.take_append_drop]
  rw [split, List.pairwise_append] at ordered
  constructor
  · intro front
    exact ordered.2.2 other front _ List.mem_cons_self
  · intro before
    rw [split] at member
    rcases List.mem_append.mp member with front | behind
    · exact front
    · rcases List.mem_cons.mp behind with rfl | later
      · exact absurd before (lt_irrefl _)
      · have after := (List.pairwise_cons.mp ordered.2.1).1 other later
        omega

/-- Without a failure everything was appended; with one, there is an event that was not. -/
theorem append_reach {outcome : BatchAppend} (sorts : Sorts reader lines sorted)
    (refused : ∀ failure ∈ storeFailure, failure.1 < sorted.pending.length)
    (done : Outcome (sorted.appendable storeFailure).length outcome) :
    ((outcome.failure <|> storeFailure.map Prod.snd) = none →
        outcome.appended = sorted.pending.length) ∧
      ((outcome.failure <|> storeFailure.map Prod.snd) ≠ none →
        outcome.appended < sorted.pending.length) := by
  have paired := sorts.paired
  cases storeFailure with
  | none =>
      simp only [SortedLines.appendable] at done
      rw [← paired] at done
      have same : (outcome.failure <|> Option.map Prod.snd (none : Option (ℕ × RepoError))) =
          outcome.failure := by
        cases outcome.failure <;> rfl
      rw [same]
      exact ⟨done.all, done.some⟩
  | some refusal =>
      have before := refused refusal rfl
      simp only [SortedLines.appendable, List.length_take] at done
      refine ⟨fun none => ?_, fun _ => ?_⟩
      · cases failed : outcome.failure <;> simp at none
      · by_cases clean : outcome.failure = none
        · rw [done.all clean]
          omega
        · have early := done.some clean
          omega

theorem SortedLines.reached_some (sorted : SortedLines) {lineCount : ℕ}
    {pending : Pending} (found : sorted.pending[appended]? = some pending) (error : RepoError) :
    sorted.reached lineCount appended (some error) = pending.line := by
  simp [SortedLines.reached, found]

/-- The lines before the first event that was not appended have their fates. -/
theorem Sorts.fates (sorts : Sorts reader lines sorted) {failure : Option RepoError}
    (all : failure = none → appended = sorted.pending.length)
    (some : failure ≠ none → appended < sorted.pending.length) :
    sorted.reached lines.length appended failure ≤ lines.length ∧
      ∀ index < sorted.reached lines.length appended failure, ∀ aside : Prop,
        index ∈ (sorted.pending.take appended).map Pending.line ∨
        index ∈ sorted.rejectedAt.filter (· < sorted.reached lines.length appended failure) ∨
        index ∈ sorted.probes.filter (· < sorted.reached lines.length appended failure) ∨
        index ∈ sorted.statsLines.filter (· < sorted.reached lines.length appended failure) ∨
        aside := by
  -- Only the converted lines need the order: those before the failed one were appended.
  have reach : sorted.reached lines.length appended failure ≤ lines.length ∧
      ∀ index < sorted.reached lines.length appended failure,
        index ∈ sorted.pending.map Pending.line →
        index ∈ (sorted.pending.take appended).map Pending.line := by
    cases failure with
    | none =>
        rw [all rfl, List.take_length]
        exact ⟨le_rfl, fun _ _ member => member⟩
    | some error =>
        have inside := some (by simp)
        have found := List.getElem?_eq_getElem inside
        have lineFound : (sorted.pending.map Pending.line)[appended]? =
            Option.some sorted.pending[appended].line := by
          rw [List.getElem?_map, found]
          rfl
        rw [sorted.reached_some found error]
        refine ⟨?_, ?_⟩
        · apply Nat.le_of_lt
          exact sorts.inside _ (List.mem_of_getElem? lineFound)
        · intro index before member
          rw [List.map_take]
          exact (mem_take_iff_lt sorts.ordered lineFound member).mpr before
  refine ⟨reach.1, ?_⟩
  intro index before aside
  rcases sorts.each index (Nat.lt_of_lt_of_le before reach.1) with
    rejected | probe | stats | converted
  · exact Or.inr (Or.inl (List.mem_filter.mpr ⟨rejected, decide_eq_true before⟩))
  · exact Or.inr (Or.inr (Or.inl (List.mem_filter.mpr ⟨probe, decide_eq_true before⟩)))
  · exact Or.inr (Or.inr (Or.inr (Or.inl (List.mem_filter.mpr ⟨stats, decide_eq_true before⟩))))
  · exact Or.inl (reach.2 index before converted)

/-- What was appended stands before the line the batch stopped at. -/
theorem Sorts.appended_lt (sorts : Sorts reader lines sorted) {pending : Pending}
    (found : sorted.pending[appended]? = some pending) :
    ∀ index ∈ (sorted.pending.take appended).map Pending.line, index < pending.line := by
  intro index member
  have lineFound : (sorted.pending.map Pending.line)[appended]? = some pending.line := by
    rw [List.getElem?_map, found]
    rfl
  rw [List.map_take] at member
  exact (mem_take_iff_lt sorts.ordered lineFound (List.mem_of_mem_take member)).mp member

theorem exists_related {α β : Type} {relation : α → β → Prop} {left : List α} {right : List β}
    (related : List.Forall₂ relation left right) {first : α} (member : first ∈ left) :
    ∃ second ∈ right, relation first second := by
  induction related with
  | nil => exact absurd member List.not_mem_nil
  | cons here _ ih =>
      rcases List.mem_cons.mp member with rfl | later
      · exact ⟨_, List.mem_cons_self, here⟩
      · rcases ih later with ⟨second, found, holds⟩
        exact ⟨second, List.mem_cons_of_mem _ found, holds⟩

/-- What was appended is in the ledger. -/
theorem Sorts.durable (sorts : Sorts reader lines sorted) {events : List EventInput}
    (leading : events <+: sorted.events)
    (few : appended ≤ events.length)
    (written : ∀ input ∈ events.take appended, normalizeEvent input ∈ rows) :
    ∀ index ∈ (sorted.pending.take appended).map Pending.line, ∃ line input,
      lines[index]? = some line ∧ reader.Converts line input ∧ normalizeEvent input ∈ rows := by
  intro index member
  rcases List.mem_map.mp member with ⟨pending, taken, rfl⟩
  have same : events.take appended = sorted.events.take appended := by
    rcases leading with ⟨others, whole⟩
    rw [← whole, List.take_append_of_le_length few]
  have pairs := List.forall₂_take appended sorts.converted
  rcases exists_related pairs taken with ⟨input, other, line, found, converts⟩
  rw [← same] at other
  exact ⟨line, input, found, converts, written input other⟩

/-- A quarantined line is passed only once its record is written, and nothing else is. -/
inductive Quarantined (hash : Bytes → Digest) (env : PollEnv) (pending : Pending) (line : Bytes)
    (tailer : LogTailer) : IntakeRunner.Quarantining → Prop where
  | passed {place : ℕ × Option Bytes} {moved : LogTailer}
      (located : tailer.uncommittedLine pending.line = some place)
      (commits : tailer.commitBatchThrough hash (pending.line + 1) env.quarantineCommit.look =
        (true, moved)) :
      Quarantined hash env pending line tailer
        ⟨true, moved, some (place.1, place.2.getD line), some moved.persistCursor⟩
  | stayed (record : Option (ℕ × Bytes)) :
      Quarantined hash env pending line tailer ⟨false, tailer, record, none⟩

theorem quarantineLine_quarantined (quarantine : Bool) (pending : Pending) (line : Bytes)
    (tailer : LogTailer) :
    Quarantined hash env pending line tailer
      (IntakeRunner.quarantineLine hash env quarantine pending line tailer) := by
  rw [IntakeRunner.quarantineLine]
  by_cases present : quarantine = true
  · rw [if_pos present]
    cases located : tailer.uncommittedLine pending.line with
    | none => exact .stayed none
    | some place =>
        dsimp only
        by_cases written : env.quarantineWrite = true
        · rw [if_pos written]
          cases commits : tailer.commitBatchThrough hash (pending.line + 1)
              env.quarantineCommit.look with
          | mk accepted moved =>
              cases accepted with
              | true => exact .passed located commits
              | false => exact .stayed _
        · rw [if_neg written]
          exact .stayed none
  · rw [if_neg present]
    exact .stayed none

theorem setAside_quarantined (wedged : Bool) (failed : Pending) :
    Quarantined hash env failed (lines.getD failed.line []) reading.tailer
      (reading.setAside hash env wedged (some failed) lines) := by
  rw [IntakeRunner.setAside]
  split
  · exact quarantineLine_quarantined _ _ _ _
  · exact .stayed none

theorem acceptReached_moved {reached : ℕ} {appended : List ℕ} (tailer : LogTailer)
    (nothing : reached = 0 → appended = []) (inside : reached ≤ lines.length) :
    ∃ passed, (passed = 0 ∨ passed = reached) ∧
      Moved hash env tailer lines.length appended passed
        (IntakeRunner.acceptReached hash env reached tailer) := by
  rw [IntakeRunner.acceptReached]
  by_cases none : reached = 0
  · rw [if_pos none]
    exact ⟨0, Or.inl rfl, .rewound (Or.inl (nothing none))⟩
  · rw [if_neg none]
    cases commits : tailer.commitBatchThrough hash reached env.commit.look with
    | mk accepted moved =>
        cases accepted with
        | true =>
            exact ⟨reached, Or.inr rfl,
              .through (Nat.pos_of_ne_zero none) (Or.inr rfl) commits⟩
        | false =>
            refine ⟨0, Or.inl rfl, .rewound (Or.inr ⟨reached, inside, ?_⟩)⟩
            rw [commits]

/-- What holds of the batch whichever way it ends. -/
structure Counted (reader : LineReader) (lines : List Bytes) (ledger : List EventInput)
    (offered appended : List ℕ) (rows : List EventInput) : Prop where
  offered : ∀ index ∈ offered, index < lines.length
  ordered : appended.Pairwise (· < ·)
  kept : ∀ event ∈ ledger, event ∈ rows
  durable : ∀ index ∈ appended, ∃ line input, lines[index]? = some line ∧
    reader.Converts line input ∧ normalizeEvent input ∈ rows

theorem SortedLines.appendable_prefix (sorted : SortedLines)
    (storeFailure : Option (ℕ × RepoError)) :
    sorted.appendable storeFailure <+: sorted.events := by
  cases storeFailure with
  | none => exact List.prefix_rfl
  | some failure => exact List.take_prefix _ _

theorem Sorts.counted (sorts : Sorts reader lines sorted)
    (storeFailure : Option (ℕ × RepoError))
    (few : appended ≤ (sorted.appendable storeFailure).length)
    (written : rows = ledger ++
      ((sorted.appendable storeFailure).take appended).map normalizeEvent) :
    Counted reader lines ledger
      ((sorted.pending.take (sorted.appendable storeFailure).length).map Pending.line)
      ((sorted.pending.take appended).map Pending.line) rows := by
  refine ⟨?_, ?_, ?_, ?_⟩
  · intro index member
    rw [List.map_take] at member
    exact sorts.inside index (List.mem_of_mem_take member)
  · rw [List.map_take]
    exact sorts.ordered.sublist (List.take_sublist _ _)
  · intro event member
    rw [written]
    exact List.mem_append_left _ member
  · apply sorts.durable (sorted.appendable_prefix storeFailure) few
    intro input member
    rw [written]
    exact List.mem_append_right _ (List.mem_map_of_mem member)

theorem finishBatch_handled (reading : IntakeRunner) (sorts : Sorts reader lines sorted)
    (refused : ∀ failure ∈ storeFailure, failure.1 < sorted.pending.length) (bytesRead : ℕ) :
    ∃ passed, BatchHandled hash reader env reading.tailer lines ledger
      (reading.finishBatch hash env ledger lines sorted storeFailure bytesRead) passed := by
  have done := @appendEventsWith_outcome _ (ledgerAtomic env.faults) ledger
    (sorted.appendable storeFailure)
  have written := @appendEventsWith_ledger env.faults ledger (sorted.appendable storeFailure)
  simp only [IntakeRunner.finishBatch]
  generalize appendEventsWith (ledgerAtomic env.faults) ledger
    (sorted.appendable storeFailure) = outcome at done written
  rcases outcome with ⟨rows, outcome⟩
  have reach := append_reach sorts refused done
  have counted := sorts.counted storeFailure done.le written
  generalize (outcome.failure <|> storeFailure.map Prod.snd) = failure at reach
  rcases sorts.fates reach.1 reach.2 with ⟨inside, fates⟩
  cases failure with
  | none =>
      refine ⟨lines.length, rfl, .committed, le_rfl, ?_, Or.inr ?_, counted.offered,
        counted.ordered, Or.inl rfl, nextBatchSize_pos _ _ _ _, counted.kept, counted.durable⟩
      · exact fun index before => fates index before _
      · intro index member
        have appended : index ∈ (sorted.pending.take outcome.appended).map Pending.line := member
        rw [List.map_take] at appended
        exact sorts.inside index (List.mem_of_mem_take appended)
  | some error =>
      have present : sorted.pending[outcome.appended]?.isSome :=
        by simpa using reach.2 (by simp)
      rcases Option.isSome_iff_exists.mp present with ⟨failed, found⟩
      have before := sorts.appended_lt found
      have last : failed.line < lines.length :=
        sorts.inside _ (List.mem_map_of_mem (List.mem_of_getElem? found))
      have lineFound : lines[failed.line]? = some (lines.getD failed.line []) := by
        simp [List.getElem?_eq_getElem last]
      rw [sorted.reached_some found error] at fates inside
      dsimp only
      rw [sorted.reached_some found error, found]
      have size := nextBatchSize_pos reading.batchSize lines.length bytesRead true
      have setAside := @setAside_quarantined lines hash env reading
        (IntakeRunner.noteFailure error (some failed) reading.wedge).2 failed
      generalize reading.setAside hash env
        (IntakeRunner.noteFailure error (some failed) reading.wedge).2 (some failed) lines = set
        at setAside
      cases setAside with
      | passed located commits =>
          refine ⟨failed.line + 1, rfl, .through (Nat.succ_pos _) (Or.inl rfl) commits, last, ?_,
            Or.inr ?_, counted.offered, counted.ordered, Or.inr rfl, size, counted.kept,
            counted.durable⟩
          · intro index here
            rcases Nat.lt_succ_iff_lt_or_eq.mp here with earlier | rfl
            · exact fates index earlier _
            · exact Or.inr (Or.inr (Or.inr (Or.inr ⟨_, _, located, lineFound, rfl⟩)))
          · intro index member
            exact Nat.lt_succ_of_lt (before index member)
      | stayed record =>
          have nothing : failed.line = 0 →
              (sorted.pending.take outcome.appended).map Pending.line = [] := by
            intro first
            apply List.eq_nil_iff_forall_not_mem.mpr
            intro index member
            have less := before index member
            omega
          rcases acceptReached_moved reading.tailer nothing inside
            with ⟨passed, which, moved⟩
          have few : passed ≤ failed.line := by omega
          refine ⟨passed, rfl, moved, few.trans inside, ?_, ?_, counted.offered, counted.ordered,
            Or.inl rfl, size, counted.kept, counted.durable⟩
          · exact fun index here => fates index (Nat.lt_of_lt_of_le here few) _
          · rcases which with zero | all
            · exact Or.inl zero
            · right
              rw [all]
              exact before

theorem firstRefused_inside (sorts : Sorts reader lines sorted)
    (storeOne : ℕ → Option RepoError) :
    ∀ failure ∈ firstRefused storeOne sorted.replies, failure.1 < sorted.pending.length := by
  intro failure member
  rcases List.exists_of_findSome?_eq_some (Option.mem_def.mp member) with ⟨reply, found, refuses⟩
  rw [Option.map_eq_some_iff] at refuses
  rcases refuses with ⟨error, -, rfl⟩
  exact sorts.replied reply.1 (List.fst_mem_of_mem_zipIdx found)

/-- A batch, from the lines and the tailer its read gave. -/
theorem runBatch_handled (hash : Bytes → Digest) (reader : LineReader) (env : PollEnv)
    (ledger : List EventInput) (runner : IntakeRunner) :
    ∃ passed, BatchHandled hash reader env
      (runner.tailer.readBatchBounded hash runner.batchSize maxBatchBytes env.read.look).2
      (runner.tailer.readBatchBounded hash runner.batchSize maxBatchBytes env.read.look).1
      ledger (runner.runBatch hash reader env ledger) passed := by
  simp only [IntakeRunner.runBatch]
  generalize runner.tailer.readBatchBounded hash runner.batchSize maxBatchBytes env.read.look =
    read
  have sorts := sortLines_sorts reader read.1
  split
  · apply finishBatch_handled { runner with tailer := read.2 } sorts
    intro failure member
    exact absurd member (Option.not_mem_none failure)
  · have inside := firstRefused_inside sorts env.storeOne
    split
    · rename_i failure refused
      apply finishBatch_handled { runner with tailer := read.2 } sorts
      intro other member
      apply inside
      rw [refused, member]
      rfl
    · refine ⟨0, rfl, .rewound (Or.inl rfl), Nat.zero_le _, ?_, Or.inl rfl, ?_, .nil, Or.inl rfl,
        ?_, fun _ => id, ?_⟩
      · intro index impossible
        exact absurd impossible (Nat.not_lt_zero index)
      · exact List.forall_mem_nil _
      · exact nextBatchSize_pos runner.batchSize read.1.length (read.1.map List.length).sum true
      · exact List.forall_mem_nil _

end Handling

end Propolis
