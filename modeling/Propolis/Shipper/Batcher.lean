import Propolis.Tailer.AppendOnly
import Propolis.Wire.Frame

/-!
# Batches from a log

`Batcher::next_batch`: up to fifteen lines of a log, without those whose text is
too long for a record, as the batch behind the last confirmed one.

`Covered` is what a position of a log promises: it stands behind complete lines,
and every line before it that fits a record has one of its own among some records.
A read moves the position on, and the lines it passes are in the batch.
-/

namespace Propolis

open Bytes

def maxRecordsFrameSafe : ℕ := 15

/-- The records the next batch carries, and the tailer after reading them. -/
def nextRecords (maxRecords : ℕ) (startsOver : Bool) (content : Bytes) (tailer : Tailer) :
    List Bytes × Tailer :=
  let read := tailer.readBatch (min maxRecords maxRecordsFrameSafe) startsOver content
  (read.1.filter fun line => line.length % 4294967296 ≤ maxRecordLen, read.2)

def nextBatch (hash : Bytes → Digest) (lastSeq : UInt64) (lastHash : Digest) (maxRecords : ℕ)
    (startsOver : Bool) (content : Bytes) (tailer : Tailer) : Option Batch × Tailer :=
  let next := nextRecords maxRecords startsOver content tailer
  (if next.1 = [] then none else Batch.new hash (lastSeq + 1) lastHash next.1, next.2)

/-- A line that can be carried as a record. -/
def Fits (line : Bytes) : Prop :=
  line.length ≤ maxLineBytes ∧ (lossy line).length ≤ maxRecordLen

instance (line : Bytes) : Decidable (Fits line) :=
  inferInstanceAs (Decidable (_ ∧ _))

/-- The records of the lines that fit one. -/
def carried (lines : List Bytes) : List Bytes :=
  (lines.filter (Fits ·)).map lossy

/-- The position stands behind complete lines, and their records are among these. -/
structure Covered (content : Bytes) (position : ℕ) (records : List Bytes) : Prop where
  inside : position ≤ content.length
  clean : EndsClean (content.take position)
  among : (carried (linesOf (content.take position))).Sublist records

namespace Covered

variable {content : Bytes} {position : ℕ} {records : List Bytes}

theorem zero (content : Bytes) (records : List Bytes) : Covered content 0 records :=
  ⟨Nat.zero_le _, Or.inl rfl, List.nil_sublist _⟩

section

variable (covered : Covered content position records)
include covered

theorem mono {further : List Bytes} (more : records.Sublist further) :
    Covered content position further :=
  { covered with among := covered.among.trans more }

theorem append (more : Bytes) : Covered (content ++ more) position records := by
  have same : (content ++ more).take position = content.take position :=
    List.take_append_of_le_length covered.inside
  refine ⟨covered.inside.trans ?_, ?_, ?_⟩
  · simp
  · rw [same]
    exact covered.clean
  · rw [same]
    exact covered.among

/-- Reading on over some of the lines ahead. -/
theorem read {taken more : List Bytes} (ahead : taken <+: linesOf (content.drop position))
    (handled : (carried taken).Sublist more) :
    Covered content (position + (terminated taken).length) (records ++ more) := by
  refine ⟨inside_behind ahead covered.inside, clean_behind ahead covered.clean, ?_⟩
  rw [linesOf_behind ahead covered.clean, carried, List.filter_append, List.map_append]
  exact covered.among.append handled

end

end Covered

/-- What one read takes: complete lines ahead, each in the batch if it fits. -/
theorem nextRecords_spec (maxRecords : ℕ) (startsOver : Bool) (content : Bytes) (tailer : Tailer) :
    ∃ start taken, (start = tailer ∨ start = tailer.startOver) ∧
      taken <+: linesOf (content.drop start.offset) ∧
      (nextRecords maxRecords startsOver content tailer).2.offset =
        start.offset + (terminated taken).length ∧
      (nextRecords maxRecords startsOver content tailer).2.committed = start.committed ∧
      (carried taken).Sublist (nextRecords maxRecords startsOver content tailer).1 := by
  rcases readBatch_spec (min maxRecords maxRecordsFrameSafe) startsOver content tailer with
    ⟨start, taken, began, ahead, returned, offset, committed, -⟩
  refine ⟨start, taken, began, ahead, offset, committed, ?_⟩
  rw [nextRecords, returned, texts, List.filter_map, List.filter_filter, carried]
  apply List.Sublist.map
  apply List.monotone_filter_right
  intro line fits
  rcases of_decide_eq_true fits with ⟨short, small⟩
  simpa [show Short line from short] using (Nat.mod_le _ _).trans small

theorem newline_notMem_of_mem_nextRecords {maxRecords : ℕ} {startsOver : Bool} {content : Bytes}
    {tailer : Tailer} {record : Bytes}
    (member : record ∈ (nextRecords maxRecords startsOver content tailer).1) :
    newline ∉ record := by
  rcases readBatch_spec (min maxRecords maxRecordsFrameSafe) startsOver content tailer with
    ⟨_, taken, -, ahead, returned, -⟩
  rw [nextRecords, returned, texts] at member
  rcases List.mem_map.mp (List.mem_of_mem_filter member) with ⟨line, inside, rfl⟩
  apply notMem_lossyFrom (by decide)
  exact newline_notMem_of_mem_linesOf (ahead.subset (List.mem_of_mem_filter inside))

/-- A batch has few records, and none is long. -/
theorem nextRecords_sizes (maxRecords : ℕ) (startsOver : Bool) (content : Bytes)
    (tailer : Tailer) :
    (nextRecords maxRecords startsOver content tailer).1.length ≤ maxRecordsFrameSafe ∧
      ∀ record ∈ (nextRecords maxRecords startsOver content tailer).1,
        record.length ≤ maxRecordLen := by
  rcases readBatch_spec (min maxRecords maxRecordsFrameSafe) startsOver content tailer with
    ⟨_, taken, -, -, returned, -, -, count⟩
  constructor
  · apply (List.length_filter_le _ _).trans
    rw [returned]
    exact count.trans (Nat.min_le_right _ _)
  · intro record member
    rw [nextRecords, List.mem_filter, returned, texts, List.mem_map] at member
    rcases member with ⟨⟨line, among, rfl⟩, kept⟩
    have size := lossy_length line
    have short : line.length ≤ maxLineBytes := of_decide_eq_true (List.mem_filter.mp among).2
    simp only [decide_eq_true_eq] at kept
    simp only [maxLineBytes] at short
    omega

/-- The batch is the sealed records, if there are any: there are never too many to seal. -/
theorem nextBatch_eq (hash : Bytes → Digest) (lastSeq : UInt64) (lastHash : Digest)
    (maxRecords : ℕ) (startsOver : Bool) (content : Bytes) (tailer : Tailer) :
    nextBatch hash lastSeq lastHash maxRecords startsOver content tailer =
      (if (nextRecords maxRecords startsOver content tailer).1 = [] then none
        else some (sealBatch hash (lastSeq + 1) lastHash
          (nextRecords maxRecords startsOver content tailer).1),
        (nextRecords maxRecords startsOver content tailer).2) := by
  have count := (nextRecords_sizes maxRecords startsOver content tailer).1
  simp only [nextBatch]
  split
  · rfl
  · rename_i some
    rw [Batch.new, if_pos]
    refine ⟨some, ?_⟩
    simp only [maxRecordsFrameSafe, maxRecordsPerBatch] at count ⊢
    omega

end Propolis
