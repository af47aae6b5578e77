import Propolis.Lib.Slices
import Propolis.Wire.Frame

/-!
# The frame codec, byte for byte

`decode_frame` (`collector-wire/frame.rs`) as the source indexes its buffer, where a range out of
bounds or a length below zero panics.  It never does, and it computes `decodeFrame`
(`decodeFrameAt_eq`).  What it accepts is the encoding of a batch within the limits and of no
other, and the encoding of such a batch is accepted.
-/

namespace Propolis

open Bytes Slices

variable {bytes : Bytes}

section Indexing

/-- The record loop, from an offset on. -/
def decodeRecordsAt (bytes : Bytes) : ℕ → ℕ → Option (Except FrameError (List Bytes × ℕ))
  | 0, off => some (.ok ([], off))
  | count + 1, off =>
      (Slices.minus bytes.length trailerLen).bind fun trailer =>
      if trailer < off + 4 then some (.error .truncated)
      else
        (range bytes off (off + 4)).bind fun field =>
        let size := ofBigEndian field
        if size = 0 ∨ maxRecordLen < size then some (.error .recordTooLarge)
        else
          (Slices.minus bytes.length trailerLen).bind fun trailer =>
          if trailer < off + 4 + size then some (.error .truncated)
          else
            (range bytes (off + 4) (off + 4 + size)).bind fun record =>
            if newline ∈ record then some (.error .recordNewline)
            else
              (decodeRecordsAt bytes count (off + 4 + size)).map fun
                | .error error => .error error
                | .ok (records, stop) => .ok (record :: records, stop)

/-- `decode_frame`; `none` where it panics. -/
def decodeFrameAt (hash : Bytes → Digest) (bytes : Bytes) : Option (Except FrameError Batch) :=
  if maxFrameLen < bytes.length then some (.error .frameTooLarge)
  else if bytes.length < headerLen then some (.error .truncated)
  else
    (range bytes 0 4).bind fun magic =>
    if magic ≠ frameMagic then some (.error .badMagic)
    else
      bytes[4]?.bind fun version =>
      if version ≠ frameVersion then some (.error .badVersion)
      else
        (range bytes 5 13).bind fun seq =>
        ((range bytes 13 45).bind (array 32)).bind fun prevBatchHash =>
        (range bytes 45 49).bind fun count =>
        let recordCount := ofBigEndian count
        if recordCount = 0 then some (.error .emptyBatch)
        else if maxRecordsPerBatch < recordCount then some (.error .tooManyRecords)
        else if bytes.length < headerLen + trailerLen then some (.error .truncated)
        else
          (decodeRecordsAt bytes recordCount headerLen).bind fun
            | .error error => some (.error error)
            | .ok (records, off) =>
                (Slices.minus bytes.length trailerLen).bind fun trailer =>
                if off ≠ trailer then some (.error .truncated)
                else
                  ((from_ bytes off).bind (array 32)).bind fun claimed =>
                  (range bytes 0 off).bind fun hashed =>
                  if hash hashed ≠ claimed then some (.error .hashMismatch)
                  else some (.ok ⟨.ofNat (ofBigEndian seq), prevBatchHash, records, claimed⟩)

/-- A range that ends before the trailer, seen in the bytes before the trailer. -/
theorem range_eq_take {off size : ℕ} (inside : off + size ≤ bytes.length - trailerLen) :
    range bytes off (off + size) =
      some (((bytes.take (bytes.length - trailerLen)).drop off).take size) := by
  have enough : size ≤ bytes.length - trailerLen - off := by omega
  rw [range_eq (by omega) (by omega), List.drop_take, List.take_take, min_eq_left enough,
    Nat.add_sub_cancel_left]

/-- The loop stays before the trailer, and does what it does to the bytes between. -/
theorem decodeRecordsAt_eq (room : trailerLen ≤ bytes.length) {count off : ℕ}
    (inside : off ≤ bytes.length - trailerLen) :
    decodeRecordsAt bytes count off =
      some (match decodeRecords count ((bytes.take (bytes.length - trailerLen)).drop off) with
        | .error error => .error error
        | .ok (records, tail) => .ok (records, bytes.length - trailerLen - tail.length)) := by
  induction count generalizing off with
  | zero =>
    have stop : bytes.length - trailerLen - (bytes.length - trailerLen - off) = off := by omega
    simp [decodeRecordsAt, decodeRecords, stop]
  | succ count ih =>
    have left_ : ((bytes.take (bytes.length - trailerLen)).drop off).length =
        bytes.length - trailerLen - off := by
      simp
    rw [decodeRecordsAt, decodeRecords, minus_eq room]
    simp only [Option.bind_some, List.length_drop, left_]
    by_cases short : bytes.length - trailerLen - off < 4
    · rw [if_pos (by omega), if_pos short]
    · rw [if_neg (by omega), if_neg short, range_eq_take (by omega), Option.bind_some]
      generalize ofBigEndian (((bytes.take (bytes.length - trailerLen)).drop off).take 4) = size
      by_cases wrong : size = 0 ∨ maxRecordLen < size
      · rw [if_pos wrong, if_pos wrong]
      rw [if_neg wrong, if_neg wrong]
      by_cases cut : bytes.length - trailerLen - off - 4 < size
      · rw [if_pos (by omega), if_pos cut]
      rw [if_neg (by omega), range_eq_take (by omega), Option.bind_some, List.drop_drop]
      split
      case isTrue => rfl
      case isFalse =>
        rw [ih (by omega), List.drop_drop]
        cases decodeRecords count
          ((bytes.take (bytes.length - trailerLen)).drop (off + 4 + size)) <;> rfl

/-- The first bytes as a digest, where there are enough. -/
theorem array_eq_digestOf (enough : 32 ≤ bytes.length) :
    array 32 (bytes.take 32) = some (digestOf bytes) := by
  rw [array_eq (by simpa using enough)]
  congr 1
  apply Subtype.ext
  exact (List.take_append_of_le_length enough).symm

/-- Whatever the bytes are, the decoder does not panic, and reads them as `decodeFrame` does. -/
theorem decodeFrameAt_eq (hash : Bytes → Digest) (bytes : Bytes) :
    decodeFrameAt hash bytes = some (decodeFrame hash bytes) := by
  simp only [decodeFrameAt, decodeFrame]
  by_cases long : maxFrameLen < bytes.length
  · rw [if_pos long, if_pos long]
  rw [if_neg long, if_neg long]
  by_cases short : bytes.length < headerLen
  · rw [if_pos short, if_pos short]
  rw [if_neg short, if_neg short]
  have header : 49 ≤ bytes.length := by simpa [headerLen] using short
  rw [range_eq (by omega) (by omega), Option.bind_some, List.drop_zero, List.head?_drop]
  by_cases magic : bytes.take 4 ≠ frameMagic
  · rw [if_pos magic, if_pos magic]
  rw [if_neg magic, if_neg magic]
  rw [List.getElem?_eq_getElem (by omega), Option.bind_some]
  generalize bytes[4] = version
  by_cases wrong : version ≠ frameVersion
  · rw [if_pos wrong, if_pos (by simpa using wrong)]
  rw [if_neg wrong, if_neg (by simpa using wrong), range_eq (by omega) (by omega),
    range_eq (by omega) (by omega), range_eq (by omega) (by omega)]
  simp only [Option.bind_some]
  rw [array_eq_digestOf (by simp; omega)]
  generalize counted : ofBigEndian ((bytes.drop 45).take 4) = recordCount
  simp only [Option.bind_some]
  by_cases none_ : recordCount = 0
  · rw [if_pos none_, if_pos none_]
  rw [if_neg none_, if_neg none_]
  by_cases many : maxRecordsPerBatch < recordCount
  · rw [if_pos many, if_pos many]
  rw [if_neg many, if_neg many]
  by_cases cut : bytes.length < headerLen + trailerLen
  · rw [if_pos cut, if_pos cut]
  have room : trailerLen ≤ bytes.length := by omega
  rw [if_neg cut, if_neg cut, decodeRecordsAt_eq room (by omega)]
  cases looped : decodeRecords recordCount
      ((bytes.take (bytes.length - trailerLen)).drop headerLen) with
  | error error => rfl
  | ok result =>
    rcases result with ⟨records, tail⟩
    have start : 0 < bytes.length - trailerLen := by
      simp only [headerLen] at cut
      omega
    simp only [minus_eq room, Option.bind_some]
    by_cases slack : tail = []
    · have rest : (bytes.drop (bytes.length - trailerLen)).length = 32 := by
        rw [List.length_drop]
        exact Nat.sub_sub_self room
      have claimed := @array_eq_digestOf (bytes.drop (bytes.length - trailerLen)) rest.ge
      rw [List.take_of_length_le rest.le] at claimed
      subst slack
      rw [List.length_nil, Nat.sub_zero, if_neg (by simp), from_eq (Nat.sub_le _ _),
        Option.bind_some, claimed, range_eq (Nat.zero_le _) (Nat.sub_le _ _)]
      simp only [Option.bind_some, List.drop_zero, Nat.sub_zero]
      split <;> rfl
    · have longer : 0 < tail.length := List.length_pos_iff.mpr slack
      rw [if_pos (by omega), if_pos slack]

end Indexing

section Exact

/-- What the record loop accepts is the encoding of the records it returns. -/
theorem decodeRecords_exact {count : ℕ} {body tail : Bytes} {records : List Bytes}
    (accepted : decodeRecords count body = .ok (records, tail)) :
    records.length = count ∧ (∀ record ∈ records, WellFormedRecord record) ∧
      body = encodeRecords records ++ tail := by
  induction count generalizing body records with
  | zero =>
    rcases accepted with ⟨rfl, rfl⟩
    simp [encodeRecords]
  | succ count ih =>
    simp only [decodeRecords, ite_error_eq_ok] at accepted
    rcases accepted with ⟨header, sized, enough, oneLine, accepted⟩
    split at accepted
    case h_1 => cases accepted
    case h_2 later laterTail looped =>
      rcases accepted with ⟨rfl, rfl⟩
      rcases ih looped with ⟨counted, wellFormed, rest⟩
      have size : (body.take 4).length = 4 := by simpa using header
      generalize named : ofBigEndian (body.take 4) = length at *
      have taken : ((body.drop 4).take length).length = length := by
        simpa using enough
      refine ⟨by simp [counted], ?_, ?_⟩
      · intro record member
        rcases List.mem_cons.mp member with rfl | member
        · refine ⟨?_, by omega, oneLine⟩
          intro empty
          rw [empty] at taken
          simp at taken
          omega
        · exact wellFormed record member
      · rw [encodeRecords_cons, taken, ← named, bigEndian_ofBigEndian size, named,
          List.append_assoc, List.append_assoc, ← rest, List.take_append_drop,
          List.take_append_drop]

/-- The batches that have an encoding: those within the limits, under their own hash. -/
structure Encodable (hash : Bytes → Digest) (batch : Batch) : Prop where
  nonempty : batch.records ≠ []
  count : batch.records.length ≤ maxRecordsPerBatch
  wellFormed : ∀ record ∈ batch.records, WellFormedRecord record
  fits : (encodeFrame batch).length ≤ maxFrameLen
  own : batch.batchHash = hash (encodePrefix batch)

/-- The header of a frame, field by field. -/
theorem take_header (magic : bytes.take 4 = frameMagic)
    (version : (bytes.drop 4).head? = some frameVersion) :
    bytes.take 49 = frameMagic ++ (frameVersion :: ((bytes.drop 5).take 8 ++
      ((bytes.drop 13).take 32 ++ (bytes.drop 45).take 4))) := by
  have one : (bytes.drop 4).take 1 = [frameVersion] := by
    rcases List.head?_eq_some_iff.mp version with ⟨rest, split⟩
    simp [split]
  rw [show 49 = 4 + 1 + 8 + 32 + 4 from rfl, List.take_add, List.take_add, List.take_add,
    List.take_add, magic, one]
  simp

theorem decodeFrame_exact {hash : Bytes → Digest} {batch : Batch}
    (accepted : decodeFrame hash bytes = .ok batch) :
    Encodable hash batch ∧ encodeFrame batch = bytes := by
  simp only [decodeFrame, ite_error_eq_ok] at accepted
  rcases accepted with ⟨fits, header, magic, version, some_, few, room, accepted⟩
  rw [not_not] at magic version
  have sizes : 49 + 32 ≤ bytes.length := by simpa [headerLen, trailerLen] using room
  split at accepted
  case h_1 => cases accepted
  case h_2 records tail looped =>
    simp only [ite_error_eq_ok, not_not, Except.ok.injEq] at accepted
    rcases accepted with ⟨rfl, own, rfl⟩
    rcases decodeRecords_exact looped with ⟨counted, wellFormed, body⟩
    rw [List.append_nil] at body
    have seq : bigEndian 8 (UInt64.ofNat (ofBigEndian ((bytes.drop 5).take 8))).toNat =
        (bytes.drop 5).take 8 := by
      have width : ((bytes.drop 5).take 8).length = 8 := by simp; omega
      rw [UInt64.toNat_ofNat_of_lt' (ofBigEndian_lt width), bigEndian_ofBigEndian width]
    have prev : (digestOf (bytes.drop 13)).val = (bytes.drop 13).take 32 :=
      List.take_append_of_le_length (by simp; omega)
    have count : bigEndian 4 records.length = (bytes.drop 45).take 4 := by
      rw [counted, bigEndian_ofBigEndian (by simp; omega)]
    have claimed : (digestOf (bytes.drop (bytes.length - trailerLen))).val =
        bytes.drop (bytes.length - trailerLen) := by
      have size : (bytes.drop (bytes.length - trailerLen)).length = 32 := by
        simp only [List.length_drop, trailerLen]
        omega
      exact List.take_left' size
    have hashed : encodePrefix ⟨.ofNat (ofBigEndian ((bytes.drop 5).take 8)),
        digestOf (bytes.drop 13), records, digestOf (bytes.drop (bytes.length - trailerLen))⟩ =
        bytes.take (bytes.length - trailerLen) := by
      have front : (bytes.take (bytes.length - trailerLen)).take headerLen = bytes.take 49 := by
        rw [List.take_take]
        congr 1
        simp only [headerLen, trailerLen]
        omega
      rw [← List.take_append_drop headerLen (bytes.take (bytes.length - trailerLen)), front, body,
        take_header magic version]
      simp only [encodePrefix, seq, prev, count, List.append_assoc, List.cons_append]
    have whole : encodeFrame ⟨.ofNat (ofBigEndian ((bytes.drop 5).take 8)),
        digestOf (bytes.drop 13), records, digestOf (bytes.drop (bytes.length - trailerLen))⟩ =
        bytes := by
      rw [encodeFrame, hashed, claimed, List.take_append_drop]
    refine ⟨⟨?_, ?_, wellFormed, ?_, by rw [hashed, own]⟩, whole⟩
    · rintro rfl
      exact some_ counted.symm
    · rw [counted]
      exact Nat.not_lt.mp few
    · rw [whole]
      exact Nat.not_lt.mp fits

/-- The codec is a bijection between the batches within the limits and the frames it accepts, and
there is nothing it panics on. -/
theorem frame_codec_exact (hash : Bytes → Digest) :
    (∀ batch, Encodable hash batch → decodeFrameAt hash (encodeFrame batch) = some (.ok batch)) ∧
      ∀ bytes, (decodeFrameAt hash bytes).isSome = true ∧
        ∀ batch, decodeFrameAt hash bytes = some (.ok batch) →
          Encodable hash batch ∧ encodeFrame batch = bytes := by
  refine ⟨?_, ?_⟩
  · intro batch encodable
    rw [decodeFrameAt_eq, decodeFrame_of_wellFormed encodable.own encodable.nonempty
      encodable.count encodable.wellFormed encodable.fits]
  · intro bytes
    rw [decodeFrameAt_eq]
    refine ⟨rfl, ?_⟩
    intro batch accepted
    exact decodeFrame_exact (Option.some.inj accepted)

end Exact

end Propolis
