import Propolis.Lib.Lines

/-!
# The collector wire format

Batches as frames (`frame.rs`) and their answers (`ack.rs`).  A frame is a header
with the sequence number and the hash of the batch before, the records behind
their lengths, and the hash of everything before it.  `decodeFrame` makes the
source's checks in the source's order; what it accepts of an encoded batch is
that batch (`decodeFrame_encodeFrame`).  The hash function is a parameter.
-/

namespace Propolis

open Bytes

def frameMagic : Bytes := ofText "PBW1"

def frameVersion : UInt8 := 1

def maxRecordsPerBatch : ℕ := 1024

def maxRecordLen : ℕ := 1048576

def maxFrameLen : ℕ := 16 * 1024 * 1024

def headerLen : ℕ := 49

def trailerLen : ℕ := 32

def zeroHash : Digest := ⟨List.replicate 32 0, List.length_replicate⟩

/-- The first 32 bytes, the way a fixed-size array is read off a checked buffer. -/
def digestOf (bytes : Bytes) : Digest :=
  ⟨(bytes ++ List.replicate 32 0).take 32, by simp⟩

theorem digestOf_append (digest : Digest) (rest : Bytes) :
    digestOf (digest.val ++ rest) = digest := by
  apply Subtype.ext
  simp only [digestOf, List.append_assoc]
  exact List.take_left' digest.property

structure Batch where
  seq : UInt64
  prevBatchHash : Digest
  records : List Bytes
  batchHash : Digest
  deriving DecidableEq

inductive FrameError where
  | badMagic | badVersion | truncated | tooManyRecords | recordTooLarge | emptyBatch
  | recordNewline | frameTooLarge | hashMismatch
  deriving DecidableEq, Repr

def encodeRecords (records : List Bytes) : Bytes :=
  records.flatMap fun record => bigEndian 4 record.length ++ record

/-- Everything except the trailing hash. -/
def encodePrefix (batch : Batch) : Bytes :=
  frameMagic ++ (frameVersion :: (bigEndian 8 batch.seq.toNat ++ (batch.prevBatchHash.val ++
    (bigEndian 4 batch.records.length ++ encodeRecords batch.records))))

def encodeFrame (batch : Batch) : Bytes :=
  encodePrefix batch ++ batch.batchHash.val

/-- A batch with the hash of its own encoding. -/
def sealBatch (hash : Bytes → Digest) (seq : UInt64) (prevBatchHash : Digest)
    (records : List Bytes) : Batch :=
  let unsealed : Batch := ⟨seq, prevBatchHash, records, zeroHash⟩
  { unsealed with batchHash := hash (encodePrefix unsealed) }

/-- `Batch::new`; `none` where its assertion fails. -/
def Batch.new (hash : Bytes → Digest) (seq : UInt64) (prevBatchHash : Digest)
    (records : List Bytes) : Option Batch :=
  if records ≠ [] ∧ records.length % 4294967296 ≤ maxRecordsPerBatch then
    some (sealBatch hash seq prevBatchHash records)
  else none

/-- The record loop, over the bytes between the header and the trailer. -/
def decodeRecords : ℕ → Bytes → Except FrameError (List Bytes × Bytes)
  | 0, body => .ok ([], body)
  | count + 1, body =>
      let size := ofBigEndian (body.take 4)
      let rest := body.drop 4
      if body.length < 4 then .error .truncated
      else if size = 0 ∨ maxRecordLen < size then .error .recordTooLarge
      else if rest.length < size then .error .truncated
      else if newline ∈ rest.take size then .error .recordNewline
      else
        match decodeRecords count (rest.drop size) with
        | .error error => .error error
        | .ok (records, tail) => .ok (rest.take size :: records, tail)

def decodeFrame (hash : Bytes → Digest) (bytes : Bytes) : Except FrameError Batch :=
  let hashed := bytes.take (bytes.length - trailerLen)
  let claimed := digestOf (bytes.drop (bytes.length - trailerLen))
  let recordCount := ofBigEndian ((bytes.drop 45).take 4)
  if maxFrameLen < bytes.length then .error .frameTooLarge
  else if bytes.length < headerLen then .error .truncated
  else if bytes.take 4 ≠ frameMagic then .error .badMagic
  else if (bytes.drop 4).head? ≠ some frameVersion then .error .badVersion
  else if recordCount = 0 then .error .emptyBatch
  else if maxRecordsPerBatch < recordCount then .error .tooManyRecords
  else if bytes.length < headerLen + trailerLen then .error .truncated
  else
    match decodeRecords recordCount (hashed.drop headerLen) with
    | .error error => .error error
    | .ok (records, tail) =>
        if tail ≠ [] then .error .truncated
        else if hash hashed ≠ claimed then .error .hashMismatch
        else .ok
          { seq := UInt64.ofNat (ofBigEndian ((bytes.drop 5).take 8))
            prevBatchHash := digestOf (bytes.drop 13)
            records := records
            batchHash := claimed }

section RoundTrip

variable {records : List Bytes} {batch : Batch} {hash : Bytes → Digest}

/-- A check that was passed. -/
theorem ite_error_eq_ok {Error Value : Type} {failed : Prop} [Decidable failed] {error : Error}
    {rest : Except Error Value} {value : Value} :
    (if failed then .error error else rest) = .ok value ↔ ¬failed ∧ rest = .ok value := by
  split <;> simp [*]

theorem encodeRecords_cons (record : Bytes) (records : List Bytes) :
    encodeRecords (record :: records) =
      bigEndian 4 record.length ++ (record ++ encodeRecords records) := by
  simp [encodeRecords]

/-- What the record loop returns for encoded records is those records. -/
theorem decodeRecords_encodeRecords {rest : Bytes}
    (sizes : ∀ record ∈ records, record.length < 256 ^ 4) {decoded : List Bytes} {tail : Bytes}
    (accepted : decodeRecords records.length (encodeRecords records ++ rest) =
      .ok (decoded, tail)) :
    decoded = records ∧ tail = rest := by
  induction records generalizing decoded tail with
  | nil =>
      simp only [encodeRecords, List.length_nil, List.flatMap_nil, decodeRecords, Except.ok.injEq,
        Prod.mk.injEq] at accepted
      exact ⟨accepted.1.symm, accepted.2.symm⟩
  | cons record records ih =>
      have body : encodeRecords (record :: records) ++ rest =
          bigEndian 4 record.length ++ (record ++ (encodeRecords records ++ rest)) := by
        simp [encodeRecords_cons]
      have size : ofBigEndian (bigEndian 4 record.length) = record.length := by
        rw [ofBigEndian_bigEndian, Nat.mod_eq_of_lt (sizes record (by simp))]
      rw [List.length_cons, body, decodeRecords, List.take_left' (bigEndian_length 4 _),
        List.drop_left' (bigEndian_length 4 _), size, List.take_left' rfl,
        List.drop_left' rfl] at accepted
      simp only [ite_error_eq_ok] at accepted
      rcases accepted with ⟨-, -, -, -, accepted⟩
      split at accepted
      · cases accepted
      · rename_i later laterTail looped
        have inner := ih (fun other member => sizes other (List.mem_cons_of_mem _ member)) looped
        simp only [Except.ok.injEq, Prod.mk.injEq] at accepted
        rw [← accepted.1, inner.1, ← accepted.2]
        exact ⟨rfl, inner.2⟩

theorem encodePrefix_length (batch : Batch) :
    (encodePrefix batch).length = headerLen + (encodeRecords batch.records).length := by
  have magic : frameMagic.length = 4 := by decide +kernel
  have digest := batch.prevBatchHash.property
  simp only [encodePrefix, List.length_append, List.length_cons, bigEndian_length, headerLen]
  omega

theorem drop_append_append {first second rest : Bytes} {size : ℕ}
    (sizes : first.length + second.length = size) :
    (first ++ (second ++ rest)).drop size = rest := by
  rw [← List.append_assoc]
  exact List.drop_left' (by simpa using sizes)

/-- The parts of a frame at the offsets they are read from. -/
theorem encodeFrame_parts (batch : Batch) :
    ∃ rest, (encodeFrame batch).drop 5 = bigEndian 8 batch.seq.toNat ++ rest ∧
      (encodeFrame batch).drop 13 = batch.prevBatchHash.val ++ rest.drop 32 ∧
      (encodeFrame batch).drop 45 = bigEndian 4 batch.records.length ++ rest.drop 36 ∧
      (encodeFrame batch).drop headerLen = encodeRecords batch.records ++ batch.batchHash.val := by
  have magic : (frameMagic ++ [frameVersion]).length = 5 := by decide +kernel
  have digest := batch.prevBatchHash.property
  have whole : encodeFrame batch = (frameMagic ++ [frameVersion]) ++
      (bigEndian 8 batch.seq.toNat ++ (batch.prevBatchHash.val ++
        (bigEndian 4 batch.records.length ++
          (encodeRecords batch.records ++ batch.batchHash.val)))) := by
    simp [encodeFrame, encodePrefix]
  have at13 : (encodeFrame batch).drop 13 = batch.prevBatchHash.val ++
      (bigEndian 4 batch.records.length ++
        (encodeRecords batch.records ++ batch.batchHash.val)) := by
    rw [whole, drop_append_append (by simp [magic])]
  have at45 : (encodeFrame batch).drop 45 = bigEndian 4 batch.records.length ++
      (encodeRecords batch.records ++ batch.batchHash.val) := by
    rw [show 45 = 13 + 32 from rfl, ← List.drop_drop, at13, List.drop_left' digest]
  refine ⟨_, by rw [whole, List.drop_left' magic], ?_, ?_, ?_⟩
  · rw [at13, List.drop_left' digest]
  · rw [at45, drop_append_append (by simp [digest])]
  · rw [show headerLen = 45 + 4 from rfl, ← List.drop_drop, at45,
      List.drop_left' (bigEndian_length 4 _)]

theorem encodeFrame_length_sub (batch : Batch) :
    (encodeFrame batch).length - trailerLen = (encodePrefix batch).length := by
  simp [encodeFrame, trailerLen, batch.batchHash.property]

theorem encodeFrame_hashed (batch : Batch) :
    (encodeFrame batch).take ((encodeFrame batch).length - trailerLen) = encodePrefix batch := by
  rw [encodeFrame_length_sub]
  exact List.take_left' rfl

theorem encodeFrame_claimed (batch : Batch) :
    digestOf ((encodeFrame batch).drop ((encodeFrame batch).length - trailerLen)) =
      batch.batchHash := by
  rw [encodeFrame_length_sub, encodeFrame, List.drop_left' rfl,
    ← List.append_nil batch.batchHash.val]
  exact digestOf_append _ _

/-- The checks that are left for the frame of a batch: its header and its hash stand where they
are read. -/
theorem decodeFrame_encodeFrame_eq (hash : Bytes → Digest)
    (count : batch.records.length < 256 ^ 4) :
    decodeFrame hash (encodeFrame batch) =
      if maxFrameLen < (encodeFrame batch).length then .error .frameTooLarge
      else if batch.records.length = 0 then .error .emptyBatch
      else if maxRecordsPerBatch < batch.records.length then .error .tooManyRecords
      else
        match decodeRecords batch.records.length (encodeRecords batch.records) with
        | .error error => .error error
        | .ok (records, tail) =>
            if tail ≠ [] then .error .truncated
            else if hash (encodePrefix batch) ≠ batch.batchHash then .error .hashMismatch
            else .ok { batch with records } := by
  rcases encodeFrame_parts batch with ⟨rest, at5, at13, at45, at49⟩
  have hashed := encodeFrame_hashed batch
  have claimed := encodeFrame_claimed batch
  have size : (encodeFrame batch).length =
      headerLen + (encodeRecords batch.records).length + trailerLen := by
    rw [encodeFrame, List.length_append, encodePrefix_length, batch.batchHash.property, trailerLen]
  have recordCount : ofBigEndian (((encodeFrame batch).drop 45).take 4) =
      batch.records.length := by
    rw [at45, List.take_left' (bigEndian_length 4 _), ofBigEndian_bigEndian,
      Nat.mod_eq_of_lt count]
  have magic : (encodeFrame batch).take 4 = frameMagic := by
    rw [encodeFrame, encodePrefix, List.append_assoc]
    exact List.take_left' (by decide +kernel)
  have version : ((encodeFrame batch).drop 4).head? = some frameVersion := by
    rfl
  have seq : UInt64.ofNat (ofBigEndian (((encodeFrame batch).drop 5).take 8)) = batch.seq := by
    rw [at5, List.take_left' (bigEndian_length 8 _), ofBigEndian_bigEndian,
      Nat.mod_eq_of_lt (show _ < 256 ^ 8 from UInt64.toNat_lt _), UInt64.ofNat_toNat]
  have prev : digestOf ((encodeFrame batch).drop 13) = batch.prevBatchHash := by
    rw [at13]
    exact digestOf_append _ _
  have body : (encodePrefix batch).drop headerLen = encodeRecords batch.records := by
    rw [encodeFrame, List.drop_append_of_le_length (by simp [encodePrefix_length])] at at49
    exact List.append_cancel_right at49
  have header : ¬(encodeFrame batch).length < headerLen := by omega
  have trailer : ¬(encodeFrame batch).length < headerLen + trailerLen := by omega
  simp [decodeFrame, hashed, claimed, recordCount, magic, version, seq, prev, body, header, trailer]

/-- A frame that decodes is the frame of the batch it decodes to, for lengths that fit. -/
theorem decodeFrame_encodeFrame {decoded : Batch} (count : batch.records.length < 256 ^ 4)
    (sizes : ∀ record ∈ batch.records, record.length < 256 ^ 4)
    (accepted : decodeFrame hash (encodeFrame batch) = .ok decoded) : decoded = batch := by
  rw [decodeFrame_encodeFrame_eq hash count] at accepted
  cases looped : decodeRecords batch.records.length (encodeRecords batch.records) with
  | error error =>
      simp only [looped, ite_error_eq_ok] at accepted
      simp at accepted
  | ok result =>
      simp only [looped, ite_error_eq_ok] at accepted
      rcases accepted with ⟨-, -, -, -, -, accepted⟩
      have same := (@decodeRecords_encodeRecords batch.records [] sizes result.1 result.2
        (by simpa using looped)).1
      rw [← Except.ok.inj accepted, same]

/-- A check that was passed, seen from an error other than its own. -/
theorem ite_error_eq_error {Error Value : Type} {failed : Prop} [Decidable failed]
    {error target : Error} (different : error ≠ target) {rest : Except Error Value} :
    (if failed then .error error else rest) = .error target ↔ ¬failed ∧ rest = .error target := by
  split <;> simp [*]

theorem decodeRecords_ne_hashMismatch (count : ℕ) (body : Bytes) :
    decodeRecords count body ≠ .error .hashMismatch := by
  induction count generalizing body with
  | zero => simp [decodeRecords]
  | succ count ih =>
      intro failed
      simp only [decodeRecords, ite_error_eq_error, ne_eq, reduceCtorEq, not_false_eq_true]
        at failed
      rcases failed with ⟨-, -, -, -, failed⟩
      split at failed
      · rename_i error looped
        rw [Except.error.inj failed] at looped
        exact ih _ looped
      · cases failed

/-- A batch that carries its own hash is never refused for it. -/
theorem decodeFrame_ne_hashMismatch (own : batch.batchHash = hash (encodePrefix batch)) :
    decodeFrame hash (encodeFrame batch) ≠ .error .hashMismatch := by
  intro failed
  simp only [decodeFrame, encodeFrame_hashed, encodeFrame_claimed, ite_error_eq_error, ne_eq,
    reduceCtorEq, not_false_eq_true] at failed
  rcases failed with ⟨-, -, -, -, -, -, -, failed⟩
  split at failed
  · rename_i error looped
    rw [Except.error.inj failed] at looped
    exact decodeRecords_ne_hashMismatch _ _ looped
  · simp only [ite_error_eq_error, ne_eq, reduceCtorEq, not_false_eq_true, own]
      at failed
    cases failed.2

/-- A record as the decoder wants it: not empty, not too long, on one line. -/
def WellFormedRecord (record : Bytes) : Prop :=
  record ≠ [] ∧ record.length ≤ maxRecordLen ∧ newline ∉ record

theorem encodeRecords_length_le (sizes : ∀ record ∈ records, record.length ≤ maxRecordLen) :
    (encodeRecords records).length ≤ records.length * (maxRecordLen + 4) := by
  induction records with
  | nil => simp [encodeRecords]
  | cons record records ih =>
      have first := sizes record (by simp)
      have later := ih fun other member => sizes other (List.mem_cons_of_mem _ member)
      simp only [encodeRecords_cons, List.length_append, bigEndian_length, List.length_cons,
        Nat.add_mul]
      omega

theorem decodeRecords_of_wellFormed (rest : Bytes)
    (wellFormed : ∀ record ∈ records, WellFormedRecord record) :
    decodeRecords records.length (encodeRecords records ++ rest) = .ok (records, rest) := by
  induction records with
  | nil => simp [encodeRecords, decodeRecords]
  | cons record records ih =>
      rcases wellFormed record (by simp) with ⟨nonempty, short, oneLine⟩
      have later := ih fun other member => wellFormed other (List.mem_cons_of_mem _ member)
      have body : encodeRecords (record :: records) ++ rest =
          bigEndian 4 record.length ++ (record ++ (encodeRecords records ++ rest)) := by
        simp [encodeRecords_cons]
      have size : ofBigEndian (bigEndian 4 record.length) = record.length := by
        rw [ofBigEndian_bigEndian]
        apply Nat.mod_eq_of_lt
        simp only [maxRecordLen] at short
        omega
      have counted : 0 < record.length := List.length_pos_iff.mpr nonempty
      rw [List.length_cons, body, decodeRecords, List.take_left' (bigEndian_length 4 _),
        List.drop_left' (bigEndian_length 4 _), size, List.take_left' rfl, List.drop_left' rfl,
        later]
      rw [if_neg (by simp), if_neg (by omega), if_neg (by simp), if_neg oneLine]

/-- No record that comes out of the loop is empty. -/
theorem nil_notMem_of_decodeRecords {count : ℕ} {body tail : Bytes}
    (accepted : decodeRecords count body = .ok (records, tail)) : [] ∉ records := by
  induction count generalizing body records tail with
  | zero =>
      simp only [decodeRecords, Except.ok.injEq, Prod.mk.injEq] at accepted
      simp [← accepted.1]
  | succ count ih =>
      simp only [decodeRecords, ite_error_eq_ok] at accepted
      rcases accepted with ⟨-, sized, enough, -, accepted⟩
      split at accepted
      · cases accepted
      · rename_i later laterTail looped
        simp only [Except.ok.injEq, Prod.mk.injEq] at accepted
        rw [← accepted.1, List.mem_cons, not_or]
        refine ⟨?_, ih looped⟩
        intro empty
        have size := congrArg List.length empty
        rw [List.length_take, List.length_nil] at size
        omega

/-- A sealed batch of well-formed records that fits a frame comes back as it was. -/
theorem decodeFrame_of_wellFormed
    (own : batch.batchHash = hash (encodePrefix batch)) (nonempty : batch.records ≠ [])
    (count : batch.records.length ≤ maxRecordsPerBatch)
    (wellFormed : ∀ record ∈ batch.records, WellFormedRecord record)
    (fits : (encodeFrame batch).length ≤ maxFrameLen) :
    decodeFrame hash (encodeFrame batch) = .ok batch := by
  have looped : decodeRecords batch.records.length (encodeRecords batch.records) =
      .ok (batch.records, []) := by
    simpa using decodeRecords_of_wellFormed [] wellFormed
  have counted : batch.records.length ≠ 0 := by simpa using nonempty
  have small : batch.records.length < 256 ^ 4 := by
    simp only [maxRecordsPerBatch] at count
    omega
  rw [decodeFrame_encodeFrame_eq hash small, if_neg (by omega), if_neg counted,
    if_neg (by omega), looped]
  simp [ne_eq, not_true_eq_false, ← own]

/-- A frame with an empty record is not accepted as the batch it was made from. -/
theorem nil_notMem_of_decodeFrame (count : batch.records.length < 256 ^ 4)
    (accepted : decodeFrame hash (encodeFrame batch) = .ok batch) : [] ∉ batch.records := by
  rw [decodeFrame_encodeFrame_eq hash count] at accepted
  simp only [ite_error_eq_ok] at accepted
  rcases accepted with ⟨-, -, -, accepted⟩
  split at accepted
  · cases accepted
  · rename_i records tail looped
    simp only [ite_error_eq_ok, Except.ok.injEq] at accepted
    rw [← accepted.2.2]
    exact nil_notMem_of_decodeRecords looped

end RoundTrip

end Propolis
