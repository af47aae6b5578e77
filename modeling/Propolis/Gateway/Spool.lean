import Propolis.Lib.Lines

/-!
# The gateway's spool

`SpoolWriter::write_records` appends the records of a batch to a collector's
`events.jsonl`, each followed by a newline.  An attempt that fails, or that a
crash cuts, has appended some beginning of those bytes; `cut` says how many.

A record of a successful attempt stands on a line of its own exactly when the
attempt found the file empty or at the end of a line
(`writeRecords_ownLine_iff`).  Nothing in `write_records` sees to that: a torn
record left by an earlier attempt swallows the first record of the next one.
-/

namespace Propolis

open Bytes

/-- `char::is_control`. -/
def isControl (char : Char) : Bool :=
  char.val < 32 || (127 ≤ char.val && char.val ≤ 159)

def isSafePathComponent (id : String) : Bool :=
  id != "" && id != "." && id != ".." && !id.toList.contains '/' && !id.toList.contains '\\' &&
    !id.toList.any isControl

/-- Whether the call returned `Ok`, and the file afterwards. -/
def writeRecords (collectorId : String) (cut : Option ℕ) (records : List Bytes) (file : Bytes) :
    Bool × Bytes :=
  if isSafePathComponent collectorId then
    match cut with
    | none => (true, file ++ terminated records)
    | some size => (false, file ++ (terminated records).take size)
  else (false, file)

/-- One call of `write_records` on a collector's file. -/
structure SpoolAttempt where
  records : List Bytes
  cut : Option ℕ

section File

variable (collectorId : String)

/-- The file after some attempts, starting from none. -/
def spoolFile (attempts : List SpoolAttempt) : Bytes :=
  attempts.foldl (fun file attempt =>
    (writeRecords collectorId attempt.cut attempt.records file).2) []

def SpoolAttempt.succeeded (attempt : SpoolAttempt) (file : Bytes) : Bool :=
  (writeRecords collectorId attempt.cut attempt.records file).1

variable {collectorId}

theorem writeRecords_prefix (cut : Option ℕ) (records : List Bytes) (file : Bytes) :
    file <+: (writeRecords collectorId cut records file).2 := by
  unfold writeRecords
  split
  · cases cut with
    | none | some => exact List.prefix_append _ _
  · exact List.prefix_rfl

theorem writeRecords_of_succeeded {cut : Option ℕ} {records : List Bytes} {file : Bytes}
    (succeeded : (writeRecords collectorId cut records file).1 = true) :
    (writeRecords collectorId cut records file).2 = file ++ terminated records := by
  unfold writeRecords at succeeded ⊢
  split at succeeded
  · rename_i safe
    cases cut with
    | none => simp [safe]
    | some size => simp at succeeded
  · simp at succeeded

theorem spoolFile_append (earlier later : List SpoolAttempt) :
    spoolFile collectorId earlier <+: spoolFile collectorId (earlier ++ later) := by
  induction later using List.reverseRecOn with
  | nil => simp
  | append_singleton later attempt ih =>
      apply ih.trans
      simp only [spoolFile, List.foldl_append]
      exact writeRecords_prefix _ _ _

/-- Where the bytes of a successful attempt lie in the final file. -/
theorem spoolFile_of_succeeded {earlier : List SpoolAttempt} {attempt : SpoolAttempt}
    (later : List SpoolAttempt)
    (succeeded : attempt.succeeded collectorId (spoolFile collectorId earlier) = true) :
    spoolFile collectorId earlier ++ terminated attempt.records <+:
      spoolFile collectorId (earlier ++ attempt :: later) := by
  have here : spoolFile collectorId (earlier ++ [attempt]) =
      spoolFile collectorId earlier ++ terminated attempt.records := by
    simp only [spoolFile, List.foldl_append]
    exact writeRecords_of_succeeded succeeded
  rw [← here, ← List.singleton_append (l := later), ← List.append_assoc]
  exact spoolFile_append _ _

end File

/-- Every attempt that succeeded with a record found the file at the end of a line. -/
def FoundClean (collectorId : String) (attempts : List SpoolAttempt) : Prop :=
  ∀ earlier attempt later, attempts = earlier ++ attempt :: later →
    attempt.succeeded collectorId (spoolFile collectorId earlier) = true →
    attempt.records ≠ [] → EndsClean (spoolFile collectorId earlier)

/-- Every record that a successful attempt wrote is a line of its own where it was written. -/
def WrittenOnOwnLines (collectorId : String) (attempts : List SpoolAttempt) : Prop :=
  ∀ earlier attempt later, attempts = earlier ++ attempt :: later →
    attempt.succeeded collectorId (spoolFile collectorId earlier) = true →
    ∀ front record back, attempt.records = front ++ record :: back →
      OwnLineAt (spoolFile collectorId attempts)
        (spoolFile collectorId earlier ++ terminated front).length record

theorem FoundClean.writtenOnOwnLines {collectorId : String} {attempts : List SpoolAttempt}
    (clean : FoundClean collectorId attempts) : WrittenOnOwnLines collectorId attempts := by
  intro earlier attempt later split succeeded front record back records
  have found : EndsClean (spoolFile collectorId earlier) := by
    refine clean earlier attempt later split succeeded ?_
    simp [records]
  rcases spoolFile_of_succeeded later succeeded with ⟨after, whole⟩
  rw [split, ← whole, records]
  refine ⟨spoolFile collectorId earlier ++ terminated front, terminated back ++ after, ?_, rfl,
    found.append_terminated front⟩
  simp [terminated_append, terminated_cons]

theorem WrittenOnOwnLines.foundClean {collectorId : String} {attempts : List SpoolAttempt}
    (own : WrittenOnOwnLines collectorId attempts) : FoundClean collectorId attempts := by
  intro earlier attempt later split succeeded nonempty
  rcases List.exists_cons_of_ne_nil nonempty with ⟨record, back, records⟩
  rcases own earlier attempt later split succeeded [] record back records with
    ⟨before, after, whole, lengths, clean⟩
  rcases spoolFile_append earlier (attempt :: later) with ⟨rest, extended⟩
  have sameFile : before ++ (record ++ newline :: after) =
      spoolFile collectorId earlier ++ rest := by
    rw [← whole, extended, split]
  have sameBefore := (List.append_inj sameFile (by simpa using lengths)).1
  rw [← sameBefore]
  exact clean

/--
The records of successful attempts stand on lines of their own where they were
written if and only if each such attempt found the file empty or at the end of a
line; then each of them is a complete line of the file.
-/
theorem writeRecords_ownLine_iff (collectorId : String) (attempts : List SpoolAttempt) :
    (WrittenOnOwnLines collectorId attempts ↔ FoundClean collectorId attempts) ∧
      (FoundClean collectorId attempts →
        ∀ earlier attempt later, attempts = earlier ++ attempt :: later →
          attempt.succeeded collectorId (spoolFile collectorId earlier) = true →
          ∀ record ∈ attempt.records, OwnLine (spoolFile collectorId attempts) record) := by
  refine ⟨⟨WrittenOnOwnLines.foundClean, FoundClean.writtenOnOwnLines⟩, ?_⟩
  intro clean earlier attempt later split succeeded record member
  rcases List.append_of_mem member with ⟨front, back, records⟩
  exact ⟨_, clean.writtenOnOwnLines earlier attempt later split succeeded front record back records⟩

/-- A first batch, and a second one whose first attempt fails before it has written anything. -/
theorem writeRecords_ownLine_two_batches :
    OwnLine (spoolFile "c1" [⟨[ofText "a"], none⟩, ⟨[ofText "b"], some 0⟩, ⟨[ofText "b"], none⟩])
      (ofText "b") := by
  refine (writeRecords_ownLine_iff "c1" _).2 ?_ [⟨[ofText "a"], none⟩, ⟨[ofText "b"], some 0⟩]
    ⟨[ofText "b"], none⟩ [] rfl (by decide +kernel) (ofText "b") (by simp)
  intro earlier attempt later split _ _
  rcases earlier with _ | ⟨first, _ | ⟨second, _ | ⟨third, rest⟩⟩⟩
  · exact Or.inl rfl
  · cases split
    decide +kernel
  · cases split
    decide +kernel
  · simp at split

/--
The gateway answers a failed write with `Retry` and is sent the same batch again.
The first attempt stopped inside the record `ab`; the second one is complete, and
the file reads `aab`.
-/
theorem writeRecords_torn_retry :
    ∃ (collectorId : String) (attempts : List SpoolAttempt) (earlier later : List SpoolAttempt)
      (attempt : SpoolAttempt) (record : Bytes),
      attempts = earlier ++ attempt :: later ∧
        attempt.succeeded collectorId (spoolFile collectorId earlier) = true ∧
        record ∈ attempt.records ∧ ¬OwnLine (spoolFile collectorId attempts) record :=
  ⟨"c1", [⟨[ofText "ab"], some 1⟩, ⟨[ofText "ab"], none⟩], [⟨[ofText "ab"], some 1⟩], [],
    ⟨[ofText "ab"], none⟩, ofText "ab", rfl, by decide +kernel, by simp, by decide +kernel⟩

end Propolis
