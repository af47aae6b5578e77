import Propolis.Lib.Bytes

/-!
# Numbers as text

The text of a natural number in a base up to sixteen, as a formatter writes it:
no leading zeros, lower-case letters, `0` for zero.  `joinWith` puts a separator
between fields; when no field contains the separator the fields can be recovered.
-/

namespace Bytes

/-- The digits of `value` in `base`, as ASCII. -/
def digitText (base value : ℕ) : Bytes :=
  (Nat.toDigits base value).map fun digit => UInt8.ofNat digit.toNat

/-- The ASCII code of one digit. -/
def digitByte (digit : ℕ) : UInt8 :=
  UInt8.ofNat digit.digitChar.toNat

variable {base : ℕ} {separator : UInt8} {fields : List Bytes}

theorem digitText_eq (baseGt : 1 < base) (value : ℕ) :
    digitText base value =
      if value < base then [digitByte value]
      else digitText base (value / base) ++ [digitByte (value % base)] := by
  unfold digitText
  rw [Nat.toDigits_eq_if baseGt]
  split <;> simp [digitByte]

theorem digitText_ne_nil (base value : ℕ) : digitText base value ≠ [] := by
  simp [digitText]

theorem digitText_length_le {value width : ℕ} (baseGt : 1 < base) (widthPos : 0 < width)
    (small : value < base ^ width) : (digitText base value).length ≤ width := by
  rw [digitText, List.length_map, Nat.length_toDigits_le_iff baseGt widthPos]
  exact small

theorem digitByte_inj {first second : ℕ} (firstLt : first < 16) (secondLt : second < 16)
    (same : digitByte first = digitByte second) : first = second := by
  have table : ∀ first < 16, ∀ second < 16, digitByte first = digitByte second →
      first = second := by decide
  exact table first firstLt second secondLt same

/-- Digits are the ASCII digits and the letters `a` to `f`. -/
theorem digitByte_range {digit : ℕ} (digitLt : digit < 16) :
    (48 ≤ digitByte digit ∧ digitByte digit ≤ 57) ∨
      (97 ≤ digitByte digit ∧ digitByte digit ≤ 102) := by
  have table : ∀ digit < 16, (48 ≤ digitByte digit ∧ digitByte digit ≤ 57) ∨
      (97 ≤ digitByte digit ∧ digitByte digit ≤ 102) := by decide
  exact table digit digitLt

theorem digitText_range (baseGt : 1 < base) (baseLe : base ≤ 16) {value : ℕ}
    {byte : UInt8} (member : byte ∈ digitText base value) :
    (48 ≤ byte ∧ byte ≤ 57) ∨ (97 ≤ byte ∧ byte ≤ 102) := by
  induction value using Nat.strong_induction_on with
  | h value ih =>
      rw [digitText_eq baseGt] at member
      split at member
      · rw [List.mem_singleton] at member
        subst member
        exact digitByte_range (by omega)
      · rename_i large
        rcases List.mem_append.mp member with front | last
        · exact ih (value / base) (Nat.div_lt_self (by omega) baseGt) front
        · rw [List.mem_singleton] at last
          subst last
          have remainderLt := Nat.mod_lt value (show base > 0 by omega)
          exact digitByte_range (by omega)

theorem digitText_injective (baseGt : 1 < base) (baseLe : base ≤ 16) :
    Function.Injective (digitText base) := by
  intro first
  induction first using Nat.strong_induction_on with
  | h first ih =>
      intro second same
      rw [digitText_eq baseGt first, digitText_eq baseGt second] at same
      have firstMod := Nat.mod_lt first (show base > 0 by omega)
      have secondMod := Nat.mod_lt second (show base > 0 by omega)
      split_ifs at same with firstSmall secondSmall secondSmall
      · simp only [List.cons.injEq, and_true] at same
        exact digitByte_inj (by omega) (by omega) same
      · rw [← List.nil_append [digitByte first]] at same
        exact absurd (List.append_inj' same rfl).1.symm (digitText_ne_nil _ _)
      · rw [← List.nil_append [digitByte second]] at same
        exact absurd (List.append_inj' same rfl).1 (digitText_ne_nil _ _)
      · rcases List.append_inj' same rfl with ⟨fronts, lasts⟩
        have quotients := ih (first / base) (Nat.div_lt_self (by omega) baseGt) fronts
        simp only [List.cons.injEq, and_true] at lasts
        have remainders := digitByte_inj (by omega) (by omega) lasts
        rw [← Nat.div_add_mod first base, quotients, remainders, Nat.div_add_mod]

/-- The last `width` digits of `value`, with leading zeros. -/
def fixedDigits (base : ℕ) : ℕ → ℕ → Bytes
  | 0, _ => []
  | width + 1, value => fixedDigits base width (value / base) ++ [digitByte (value % base)]

@[simp]
theorem fixedDigits_length (base width value : ℕ) :
    (fixedDigits base width value).length = width := by
  induction width generalizing value with
  | zero => rfl
  | succ width ih => simp [fixedDigits, ih]

theorem fixedDigits_range (basePos : 0 < base) (baseLe : base ≤ 16) {width value : ℕ}
    {byte : UInt8} (member : byte ∈ fixedDigits base width value) :
    (48 ≤ byte ∧ byte ≤ 57) ∨ (97 ≤ byte ∧ byte ≤ 102) := by
  induction width generalizing value with
  | zero => cases member
  | succ width ih =>
      rcases List.mem_append.mp member with front | last
      · exact ih front
      · rw [List.mem_singleton] at last
        subst last
        have remainderLt := Nat.mod_lt value basePos
        exact digitByte_range (by omega)

theorem fixedDigits_inj (basePos : 0 < base) (baseLe : base ≤ 16) {width : ℕ}
    {first second : ℕ} (firstLt : first < base ^ width) (secondLt : second < base ^ width)
    (same : fixedDigits base width first = fixedDigits base width second) : first = second := by
  induction width generalizing first second with
  | zero =>
      rw [pow_zero] at firstLt secondLt
      omega
  | succ width ih =>
      rcases List.append_inj' same rfl with ⟨fronts, lasts⟩
      have firstMod := Nat.mod_lt first basePos
      have secondMod := Nat.mod_lt second basePos
      have quotients := ih (Nat.div_lt_of_lt_mul (by rwa [pow_succ'] at firstLt))
        (Nat.div_lt_of_lt_mul (by rwa [pow_succ'] at secondLt)) fronts
      have remainders := digitByte_inj (by omega) (by omega) (List.cons.inj lasts).1
      rw [← Nat.div_add_mod first base, quotients, remainders, Nat.div_add_mod]

/-- The fields with `separator` between them. -/
def joinWith (separator : UInt8) (fields : List Bytes) : Bytes :=
  [separator].intercalate fields

theorem joinWith_cons (field : Bytes) (nonempty : fields ≠ []) :
    joinWith separator (field :: fields) = field ++ separator :: joinWith separator fields := by
  rw [joinWith, List.intercalate_cons_of_ne_nil nonempty]
  simp [joinWith]

theorem joinWith_append {first second : List Bytes}
    (firstNe : first ≠ []) (secondNe : second ≠ []) :
    joinWith separator (first ++ second) =
      joinWith separator first ++ separator :: joinWith separator second := by
  induction first with
  | nil => exact absurd rfl firstNe
  | cons field fields ih =>
      by_cases last : fields = []
      · subst last
        rw [List.singleton_append, joinWith_cons field secondNe]
        simp [joinWith]
      · rw [List.cons_append, joinWith_cons field (by simp [last]), ih last,
          joinWith_cons field last, List.append_assoc, List.cons_append]

theorem mem_joinWith {byte : UInt8} (member : byte ∈ joinWith separator fields) :
    byte = separator ∨ ∃ field ∈ fields, byte ∈ field := by
  induction fields with
  | nil => simp [joinWith] at member
  | cons field fields ih =>
      by_cases last : fields = []
      · subst last
        exact Or.inr ⟨field, by simp, by simpa [joinWith] using member⟩
      · rw [joinWith_cons field last, List.mem_append, List.mem_cons] at member
        rcases member with here | isSeparator | later
        · exact Or.inr ⟨field, by simp, here⟩
        · exact Or.inl isSeparator
        · rcases ih later with isSeparator | ⟨other, otherMem, inside⟩
          · exact Or.inl isSeparator
          · exact Or.inr ⟨other, List.mem_cons_of_mem _ otherMem, inside⟩

/-- Fields of at most `width` bytes join to at most `width + 1` bytes each. -/
theorem joinWith_length_le (separator : UInt8) {width : ℕ}
    (bounded : ∀ field ∈ fields, field.length ≤ width) :
    (joinWith separator fields).length ≤ (width + 1) * fields.length := by
  induction fields with
  | nil => simp [joinWith]
  | cons field fields ih =>
      have fieldLe := bounded field (by simp)
      have restLe := ih fun other member => bounded other (List.mem_cons_of_mem _ member)
      by_cases last : fields = []
      · subst last
        simp only [joinWith, List.intercalate_singleton, List.length_singleton]
        omega
      · rw [joinWith_cons field last, List.length_append, List.length_cons, List.length_cons,
          Nat.mul_succ]
        omega

theorem joinWith_length_ge (separator : UInt8) (fields : List Bytes) :
    fields.length ≤ (joinWith separator fields).length + 1 := by
  induction fields with
  | nil => simp
  | cons field fields ih =>
      by_cases last : fields = []
      · subst last
        simp
      · rw [joinWith_cons field last, List.length_append, List.length_cons, List.length_cons]
        omega

theorem joinWith_inj {first second : List Bytes} (firstNe : first ≠ []) (secondNe : second ≠ [])
    (firstFree : ∀ field ∈ first, separator ∉ field)
    (secondFree : ∀ field ∈ second, separator ∉ field)
    (same : joinWith separator first = joinWith separator second) : first = second := by
  have splits := congrArg (List.splitOn separator) same
  rwa [joinWith, joinWith, List.splitOn_intercalate separator firstFree firstNe,
    List.splitOn_intercalate separator secondFree secondNe] at splits

section Reading

/-- One more digit of a number below `limit`, in a base of at most ten. -/
def readDigit (base limit value : ℕ) (byte : UInt8) : Option ℕ :=
  if 48 ≤ byte.toNat ∧ byte.toNat < 48 + base ∧ value * base + (byte.toNat - 48) < limit then
    some (value * base + (byte.toNat - 48))
  else none

/-- A number below `limit` in a base of at most ten, with or without a plus sign. -/
def readDigits (base limit : ℕ) (text : Bytes) : Option ℕ :=
  let digits := if text.head? = some 43 then text.tail else text
  if digits.isEmpty then none else digits.foldlM (readDigit base limit) 0

end Reading

end Bytes
