import Mathlib.Data.List.Basic
import Mathlib.Tactic.Ring

/-!
# Byte strings and their framing

Encodings that writers of binary formats share: fixed-width integers in either
byte order, and fields preceded by their own length.  Each encoding comes with
the two facts a format proof needs, how many bytes it takes and that it can be
read back, the second in the form used to peel one field off the front of two
equal encodings (`lengthPrefixed_append_inj`).
-/

abbrev Bytes := List UInt8

/-- A 32-byte digest. -/
abbrev Digest := {bytes : Bytes // bytes.length = 32}

namespace Bytes

/-- The UTF-8 bytes of a text. -/
def ofText (text : String) : Bytes :=
  text.toByteArray.data.toList

theorem ofText_injective : Function.Injective ofText := by
  intro first second same
  apply String.toByteArray_inj.mp
  apply ByteArray.ext
  exact Array.toList_inj.mp same

/-- The `width` low bytes of `value`, least significant first. -/
def littleEndian : ℕ → ℕ → Bytes
  | 0, _ => []
  | width + 1, value => UInt8.ofNat value :: littleEndian width (value / 256)

/-- The number a least-significant-first byte string denotes. -/
def ofLittleEndian : Bytes → ℕ
  | [] => 0
  | byte :: rest => byte.toNat + 256 * ofLittleEndian rest

@[simp]
theorem littleEndian_length (width value : ℕ) : (littleEndian width value).length = width := by
  induction width generalizing value with
  | zero => rfl
  | succ width ih => simp [littleEndian, ih]

@[simp]
theorem ofLittleEndian_littleEndian (width value : ℕ) :
    ofLittleEndian (littleEndian width value) = value % 256 ^ width := by
  induction width generalizing value with
  | zero => simp [littleEndian, ofLittleEndian, Nat.mod_one]
  | succ width ih =>
      have low : (UInt8.ofNat value).toNat = value % 256 := by simp
      rw [littleEndian, ofLittleEndian, ih, low, pow_succ', Nat.mod_mul]

theorem littleEndian_inj {width first second : ℕ} (firstLt : first < 256 ^ width)
    (secondLt : second < 256 ^ width)
    (same : littleEndian width first = littleEndian width second) : first = second := by
  have values := congrArg ofLittleEndian same
  rwa [ofLittleEndian_littleEndian, ofLittleEndian_littleEndian, Nat.mod_eq_of_lt firstLt,
    Nat.mod_eq_of_lt secondLt] at values

/-- The bytes past a value's own size are zero. -/
theorem littleEndian_eq_zeros {width value size : ℕ} (small : value < 256 ^ size) :
    littleEndian (size + width) value = littleEndian size value ++ List.replicate width 0 := by
  induction size generalizing value with
  | zero =>
      have zero : value = 0 := by simpa using small
      subst zero
      induction width with
      | zero => rfl
      | succ width ih =>
          simp only [Nat.zero_add] at ih
          simp [littleEndian, ih, List.replicate_succ]
  | succ size ih =>
      have quotient : value / 256 < 256 ^ size := by
        rw [Nat.div_lt_iff_lt_mul (by norm_num)]
        rwa [pow_succ] at small
      rw [Nat.succ_add]
      simp [littleEndian, ih quotient]

/-- The `width` low bytes of `value`, most significant first. -/
def bigEndian (width value : ℕ) : Bytes :=
  (littleEndian width value).reverse

def ofBigEndian (bytes : Bytes) : ℕ :=
  ofLittleEndian bytes.reverse

@[simp]
theorem bigEndian_length (width value : ℕ) : (bigEndian width value).length = width := by
  simp [bigEndian]

@[simp]
theorem ofBigEndian_bigEndian (width value : ℕ) :
    ofBigEndian (bigEndian width value) = value % 256 ^ width := by
  simp [ofBigEndian, bigEndian]

theorem littleEndian_ofLittleEndian (bytes : Bytes) :
    littleEndian bytes.length (ofLittleEndian bytes) = bytes := by
  induction bytes with
  | nil => rfl
  | cons byte rest ih =>
      have low : UInt8.ofNat (byte.toNat + 256 * ofLittleEndian rest) = byte := by
        apply UInt8.toNat_inj.mp
        have small := byte.toNat_lt
        rw [UInt8.toNat_ofNat']
        omega
      have high : (byte.toNat + 256 * ofLittleEndian rest) / 256 = ofLittleEndian rest := by
        have small := byte.toNat_lt
        omega
      rw [List.length_cons, littleEndian, ofLittleEndian, low, high, ih]

theorem bigEndian_ofBigEndian {bytes : Bytes} {width : ℕ} (size : bytes.length = width) :
    bigEndian width (ofBigEndian bytes) = bytes := by
  have reversed := littleEndian_ofLittleEndian bytes.reverse
  rw [List.length_reverse, size] at reversed
  rw [bigEndian, ofBigEndian, reversed, List.reverse_reverse]

theorem ofBigEndian_lt {bytes : Bytes} {width : ℕ} (size : bytes.length = width) :
    ofBigEndian bytes < 256 ^ width := by
  have value := ofBigEndian_bigEndian width (ofBigEndian bytes)
  rw [bigEndian_ofBigEndian size] at value
  rw [value]
  exact Nat.mod_lt _ (Nat.pow_pos (by decide))

/-- A field preceded by its length as a 64-bit little-endian integer. -/
def lengthPrefixed (field : Bytes) : Bytes :=
  littleEndian 8 field.length ++ field

theorem lengthPrefixed_append_inj {first second firstRest secondRest : Bytes}
    (firstLt : first.length < 256 ^ 8) (secondLt : second.length < 256 ^ 8)
    (same : lengthPrefixed first ++ firstRest = lengthPrefixed second ++ secondRest) :
    first = second ∧ firstRest = secondRest := by
  unfold lengthPrefixed at same
  rw [List.append_assoc, List.append_assoc] at same
  rcases List.append_inj same (by simp) with ⟨prefixes, fields⟩
  exact List.append_inj fields (littleEndian_inj firstLt secondLt prefixes)

/-- A short field's prefix is its length in one byte and seven zeros. -/
theorem lengthPrefixed_of_short {field : Bytes} (short : field.length < 256) :
    lengthPrefixed field = UInt8.ofNat field.length :: (List.replicate 7 0 ++ field) := by
  unfold lengthPrefixed
  rw [show 8 = 1 + 7 from rfl, littleEndian_eq_zeros (by simpa using short)]
  simp [littleEndian]

end Bytes
