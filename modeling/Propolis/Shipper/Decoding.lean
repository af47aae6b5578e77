import Propolis.Lib.Sha256
import Propolis.Shipper.Batcher

/-!
# What the shipper builds and the gateway decodes

Four bounds have to agree: the tailer's cap on a line, the growth of a line that
is not UTF-8, the batcher's filter and clamp, and the decoder's limits on a
record, a batch and a frame.  They agree on everything but blank lines: the
tailer returns one as an empty line, the batcher keeps it, and the decoder
refuses a record of length zero.

`nextLines` are the lines of the log the next batch is made of.
-/

namespace Propolis

open Bytes

/-- The lines a read of up to `maxRecords` lines takes, over-length ones skipped. -/
def nextLines (maxRecords : ℕ) (ahead : Bytes) : List Bytes :=
  ((linesOf ahead).filter (·.length ≤ maxLineBytes)).take (min maxRecords maxRecordsFrameSafe)

theorem nextRecords_eq (maxRecords : ℕ) (startsOver : Bool) (content : Bytes) (tailer : Tailer) :
    (nextRecords maxRecords startsOver content tailer).1 =
      ((nextLines maxRecords (content.drop (tailer.handleRotation startsOver).offset)).map
        lossy).filter fun line => line.length % 4294967296 ≤ maxRecordLen := by
  simp only [nextRecords, Tailer.readBatch]
  split
  · rename_i none
    simp [nextLines, none]
  · have few : min maxRecords maxRecordsFrameSafe ≤ 15 := Nat.min_le_right _ _
    rw [readLinesFrom, readLinesLoop_texts _ (Nat.zero_add _).symm, nextLines, texts,
      ← List.map_take]
    · rfl
    · simp only [maxLineBytes]
      omega

theorem nil_mem_nextRecords_iff (maxRecords : ℕ) (startsOver : Bool) (content : Bytes)
    (tailer : Tailer) :
    [] ∈ (nextRecords maxRecords startsOver content tailer).1 ↔
      [] ∈ nextLines maxRecords (content.drop (tailer.handleRotation startsOver).offset) := by
  rw [nextRecords_eq, List.mem_filter, List.mem_map]
  constructor
  · rintro ⟨⟨line, taken, empty⟩, -⟩
    rwa [lossy_eq_nil.mp empty] at taken
  · intro taken
    exact ⟨⟨[], taken, lossy_eq_nil.mpr rfl⟩, by decide⟩

/-- Fifteen records of the largest size fit a frame. -/
theorem sealBatch_frame_fits (hash : Bytes → Digest) (seq : UInt64) (prev : Digest)
    {records : List Bytes} (count : records.length ≤ maxRecordsFrameSafe)
    (sizes : ∀ record ∈ records, record.length ≤ maxRecordLen) :
    (encodeFrame (sealBatch hash seq prev records)).length ≤ maxFrameLen := by
  have body := encodeRecords_length_le sizes
  have worst : records.length * (maxRecordLen + 4) ≤ maxRecordsFrameSafe * (maxRecordLen + 4) :=
    Nat.mul_le_mul_right _ count
  rw [encodeFrame, List.length_append, encodePrefix_length,
    (sealBatch hash seq prev records).batchHash.property]
  simp only [sealBatch, headerLen, maxRecordsFrameSafe, maxRecordLen, maxFrameLen] at body worst ⊢
  omega

/-- A batch comes back from the decoder as it was built, exactly when no line it is made of is
blank. -/
theorem nextBatch_decodes_iff (hash : Bytes → Digest) (lastSeq : UInt64) (lastHash : Digest)
    (maxRecords : ℕ) (startsOver : Bool) (content : Bytes) (tailer : Tailer) :
    (∀ batch, (nextBatch hash lastSeq lastHash maxRecords startsOver content tailer).1 =
        some batch → decodeFrame hash (encodeFrame batch) = .ok batch) ↔
      [] ∉ nextLines maxRecords (content.drop (tailer.handleRotation startsOver).offset) := by
  rcases nextRecords_sizes maxRecords startsOver content tailer with ⟨count, sizes⟩
  rw [← nil_mem_nextRecords_iff, nextBatch_eq]
  constructor
  · intro decodes blank
    have built : (nextRecords maxRecords startsOver content tailer).1 ≠ [] :=
      List.ne_nil_of_mem blank
    have accepted := decodes _ (if_neg built)
    apply nil_notMem_of_decodeFrame _ accepted
    · exact blank
    · simp only [sealBatch, maxRecordsFrameSafe] at count ⊢
      omega
  · intro noBlank batch built
    split at built
    · cases built
    · rename_i nonempty
      rw [← Option.some.inj built]
      apply decodeFrame_of_wellFormed
      · rfl
      · exact nonempty
      · simp only [sealBatch, maxRecordsFrameSafe, maxRecordsPerBatch] at count ⊢
        omega
      · intro record member
        refine ⟨?_, sizes record member, newline_notMem_of_mem_nextRecords member⟩
        rintro rfl
        exact noBlank member
      · exact sealBatch_frame_fits _ _ _ count sizes

/-- A log that holds one blank line is shipped as a batch the gateway refuses. -/
theorem blank_line_not_decoded :
    ∃ batch, (nextBatch sha256 0 zeroHash 1 false [newline] (Tailer.resume 0)).1 = some batch ∧
      decodeFrame sha256 (encodeFrame batch) = .error .recordTooLarge := by
  refine ⟨sealBatch sha256 1 zeroHash [[]], ?_, ?_⟩ <;> decide +kernel

end Propolis
