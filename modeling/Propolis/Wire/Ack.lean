import Propolis.Wire.Frame

/-!
# The gateway's answers

The fixed 14-byte ack (`ack.rs`): a magic, a status, a reason and the sequence
number the gateway expects next.  An ack that is sent is the ack that is read
(`decodeAck_encodeAck`).
-/

namespace Propolis

open Bytes

inductive AckStatus where
  | accepted | duplicate | retry | reject
  deriving DecidableEq, Repr

inductive AckReason where
  | none | seqGap | hashMismatch | oversize | malformed | badRecordNewline | spoolWriteFailed
  | busy
  deriving DecidableEq, Repr

structure Ack where
  status : AckStatus
  reason : AckReason
  nextExpectedSeq : UInt64
  deriving DecidableEq

def ackMagic : Bytes := ofText "PBA1"

def ackLen : ℕ := 14

def AckStatus.toU8 : AckStatus → UInt8
  | .accepted => 0
  | .duplicate => 1
  | .retry => 2
  | .reject => 3

def AckStatus.fromU8 (byte : UInt8) : Option AckStatus :=
  match byte.toNat with
  | 0 => some .accepted
  | 1 => some .duplicate
  | 2 => some .retry
  | 3 => some .reject
  | _ => none

def AckReason.toU8 : AckReason → UInt8
  | .none => 0
  | .seqGap => 1
  | .hashMismatch => 2
  | .oversize => 3
  | .malformed => 4
  | .badRecordNewline => 5
  | .spoolWriteFailed => 6
  | .busy => 7

def AckReason.fromU8 (byte : UInt8) : Option AckReason :=
  match byte.toNat with
  | 0 => some .none
  | 1 => some .seqGap
  | 2 => some .hashMismatch
  | 3 => some .oversize
  | 4 => some .malformed
  | 5 => some .badRecordNewline
  | 6 => some .spoolWriteFailed
  | 7 => some .busy
  | _ => Option.none

def encodeAck (ack : Ack) : Bytes :=
  ackMagic ++ (ack.status.toU8 :: ack.reason.toU8 :: bigEndian 8 ack.nextExpectedSeq.toNat)

/-- `none` is the source's `AckError::Bad`. -/
def decodeAck (bytes : Bytes) : Option Ack :=
  if bytes.length ≠ ackLen ∨ bytes.take 4 ≠ ackMagic then none
  else do
    let status ← AckStatus.fromU8 (bytes.getD 4 0)
    let reason ← AckReason.fromU8 (bytes.getD 5 0)
    some ⟨status, reason, UInt64.ofNat (ofBigEndian ((bytes.drop 6).take 8))⟩

@[simp]
theorem AckStatus.fromU8_toU8 (status : AckStatus) : fromU8 status.toU8 = some status := by
  cases status <;> rfl

@[simp]
theorem AckReason.fromU8_toU8 (reason : AckReason) : fromU8 reason.toU8 = some reason := by
  cases reason <;> rfl

theorem decodeAck_encodeAck (ack : Ack) : decodeAck (encodeAck ack) = some ack := by
  have magic : ackMagic = [80, 66, 65, 49] := by decide +kernel
  have size : (encodeAck ack).length = ackLen := by simp [encodeAck, magic, ackLen]
  have seq : UInt64.ofNat (ofBigEndian (((encodeAck ack).drop 6).take 8)) =
      ack.nextExpectedSeq := by
    have tail : (encodeAck ack).drop 6 = bigEndian 8 ack.nextExpectedSeq.toNat := by
      simp [encodeAck, magic]
    rw [tail, List.take_of_length_le (by simp), ofBigEndian_bigEndian,
      Nat.mod_eq_of_lt (show _ < 256 ^ 8 from UInt64.toNat_lt _), UInt64.ofNat_toNat]
  simp only [decodeAck, size, seq]
  simp [encodeAck, magic]

end Propolis
