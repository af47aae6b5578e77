import Propolis.Lib.Bytes

/-!
# Lossy UTF-8

A byte string read as text in which what is not UTF-8 is replaced.  `sequenceAt`
looks at the first sequence of a string: how many bytes it takes and whether it
is well formed.  An ill-formed sequence ends before the first byte that cannot
continue it, and `lossy` writes one replacement character for it.  The bytes of
a text come out unchanged (`lossy_ofText`).
-/

namespace Bytes

/-- The length a first byte announces; zero for a byte that starts nothing. -/
def sequenceWidth (first : ℕ) : ℕ :=
  if first < 128 then 1
  else if 194 ≤ first ∧ first ≤ 223 then 2
  else if 224 ≤ first ∧ first ≤ 239 then 3
  else if 240 ≤ first ∧ first ≤ 244 then 4
  else 0

def isContinuation (byte : UInt8) : Bool :=
  128 ≤ byte.toNat && byte.toNat ≤ 191

/-- Second bytes leave out overlong forms, surrogates and values past the last character. -/
def allowsSecond (first : ℕ) (second : UInt8) : Bool :=
  isContinuation second &&
    if first = 224 then 160 ≤ second.toNat
    else if first = 237 then second.toNat ≤ 159
    else if first = 240 then 144 ≤ second.toNat
    else if first = 244 then second.toNat ≤ 143
    else true

/-- How many bytes at the front of `rest` can continue a sequence. -/
def continuations (first : ℕ) : Bytes → ℕ
  | [] => 0
  | second :: more =>
      if allowsSecond first second then 1 + ((more.take 2).takeWhile isContinuation).length else 0

/-- The size of the first sequence, and whether it is well formed. -/
def sequenceAt (first : UInt8) (rest : Bytes) : ℕ × Bool :=
  let width := sequenceWidth first.toNat
  let found := continuations first.toNat rest
  (1 + min (width - 1) found, 0 < width && width - 1 ≤ found)

/-- U+FFFD. -/
def replacement : Bytes := [239, 191, 189]

def lossyFrom : ℕ → Bytes → Bytes
  | 0, _ => []
  | _, [] => []
  | fuel + 1, first :: rest =>
      let sequence := sequenceAt first rest
      (if sequence.2 then (first :: rest).take sequence.1 else replacement) ++
        lossyFrom fuel ((first :: rest).drop sequence.1)

def lossy (bytes : Bytes) : Bytes :=
  lossyFrom bytes.length bytes

theorem lossyFrom_length (fuel : ℕ) (bytes : Bytes) :
    (lossyFrom fuel bytes).length ≤ 3 * bytes.length := by
  induction fuel generalizing bytes with
  | zero => simp [lossyFrom]
  | succ fuel ih =>
      cases bytes with
      | nil => simp [lossyFrom]
      | cons first rest =>
          have later := ih ((first :: rest).drop (sequenceAt first rest).1)
          have size : 1 ≤ (sequenceAt first rest).1 := by simp [sequenceAt]
          simp only [lossyFrom, List.length_append]
          rw [List.length_drop] at later
          split
          · rw [List.length_take]
            omega
          · simp only [replacement, List.length_cons, List.length_nil] at later ⊢
            omega

theorem lossy_length (bytes : Bytes) : (lossy bytes).length ≤ 3 * bytes.length :=
  lossyFrom_length _ _

theorem notMem_lossyFrom {byte : UInt8} (ascii : byte ∉ replacement) (fuel : ℕ) {bytes : Bytes}
    (absent : byte ∉ bytes) : byte ∉ lossyFrom fuel bytes := by
  induction fuel generalizing bytes with
  | zero => simp [lossyFrom]
  | succ fuel ih =>
      cases bytes with
      | nil => simp [lossyFrom]
      | cons first rest =>
          have later := ih (fun member => absent (List.mem_of_mem_drop
            (i := (sequenceAt first rest).1) member))
          simp only [lossyFrom, List.mem_append, not_or]
          refine ⟨?_, later⟩
          split
          · intro member
            exact absent (List.mem_of_mem_take member)
          · exact ascii

theorem lossy_eq_nil {bytes : Bytes} : lossy bytes = [] ↔ bytes = [] := by
  cases bytes with
  | nil => simp [lossy, lossyFrom]
  | cons first rest =>
      have size : 1 ≤ (sequenceAt first rest).1 := by simp [sequenceAt]
      simp only [lossy, List.length_cons, lossyFrom, List.append_eq_nil_iff, reduceCtorEq,
        iff_false]
      intro empty
      split at empty
      · rw [List.take_eq_nil_iff] at empty
        simp only [reduceCtorEq, or_false] at empty
        omega
      · simp [replacement] at empty

section Text

/-- A string whose first sequence is `bytes`, and well formed. -/
def Leads (bytes : Bytes) : Prop :=
  ∀ more, ∃ first rest, bytes ++ more = first :: rest ∧
    sequenceAt first rest = (bytes.length, true)

theorem lossyFrom_leads {bytes : Bytes} (leads : Leads bytes) (fuel : ℕ) (more : Bytes) :
    lossyFrom (fuel + 1) (bytes ++ more) = bytes ++ lossyFrom fuel more := by
  rcases leads more with ⟨first, rest, split, sequence⟩
  rw [split, lossyFrom, sequence, ← split, List.drop_left' rfl, if_pos rfl, List.take_left' rfl]

theorem toNat_ofNat_of_lt {value : ℕ} (small : value < 256) :
    (UInt8.ofNat value).toNat = value := by
  exact Nat.mod_eq_of_lt small

theorem leads_one {first : UInt8} (ascii : first.toNat < 128) : Leads [first] := by
  intro more
  refine ⟨first, more, rfl, ?_⟩
  simp [sequenceAt, sequenceWidth, ascii]

theorem leads_more {first second : UInt8} {conts : Bytes} (short : conts.length ≤ 2)
    (width : sequenceWidth first.toNat = 2 + conts.length)
    (allowed : allowsSecond first.toNat second = true)
    (continuing : ∀ byte ∈ conts, isContinuation byte = true) :
    Leads (first :: second :: conts) := by
  intro more
  refine ⟨first, second :: (conts ++ more), rfl, ?_⟩
  -- The bytes behind the second one count as far as they continue the sequence.
  have found : conts.length ≤ (((conts ++ more).take 2).takeWhile isContinuation).length := by
    rw [List.take_append, List.take_of_length_le short, List.takeWhile_append_of_pos continuing,
      List.length_append]
    exact Nat.le_add_right _ _
  simp only [sequenceAt, continuations, allowed, if_true, List.length_cons]
  simp only [Prod.mk.injEq, Bool.and_eq_true, decide_eq_true_eq]
  omega

theorem isContinuation_ofNat (value : ℕ) :
    isContinuation (UInt8.ofNat (value % 64 + 128)) = true := by
  rw [isContinuation, toNat_ofNat_of_lt (by omega)]
  simp only [Bool.and_eq_true, decide_eq_true_eq]
  omega

theorem leads_utf8EncodeChar (char : Char) : Leads (String.utf8EncodeChar char) := by
  have scalar := char.valid
  rw [String.utf8EncodeChar]
  split
  · apply leads_one
    rw [toNat_ofNat_of_lt (by omega)]
    omega
  split
  · apply leads_more (by simp)
    · rw [toNat_ofNat_of_lt (by omega), sequenceWidth]
      repeat rw [if_neg (by omega)]
      rw [if_pos (by omega)]
      rfl
    · simp only [allowsSecond, isContinuation_ofNat, Bool.true_and]
      rw [toNat_ofNat_of_lt (by omega)]
      repeat rw [if_neg (by omega)]
    · simp
  split
  all_goals
    apply leads_more (by simp)
    · rw [toNat_ofNat_of_lt (by omega), sequenceWidth]
      repeat rw [if_neg (by omega)]
      rw [if_pos (by omega)]
      rfl
    · simp only [allowsSecond, isContinuation_ofNat]
      rw [toNat_ofNat_of_lt (by omega), toNat_ofNat_of_lt (by omega)]
      grind
    · simp only [List.mem_cons, List.not_mem_nil, or_false, forall_eq_or_imp, forall_eq,
        isContinuation_ofNat, and_self]

theorem lossyFrom_chars (chars : List Char) {fuel : ℕ} (enough : chars.length ≤ fuel) :
    lossyFrom fuel (chars.flatMap String.utf8EncodeChar) = chars.flatMap String.utf8EncodeChar := by
  induction chars generalizing fuel with
  | nil => cases fuel <;> rfl
  | cons char chars ih =>
      cases fuel with
      | zero => simp at enough
      | succ fuel =>
          rw [List.flatMap_cons, lossyFrom_leads (leads_utf8EncodeChar char),
            ih (Nat.le_of_succ_le_succ enough)]

theorem ofText_eq_flatMap (text : String) :
    ofText text = text.toList.flatMap String.utf8EncodeChar := by
  rw [ofText, ← String.utf8Encode_toList, List.utf8Encode]
  simp

theorem length_le_flatMap (chars : List Char) :
    chars.length ≤ (chars.flatMap String.utf8EncodeChar).length := by
  induction chars with
  | nil => simp
  | cons char chars ih =>
      have size := char.utf8Size_pos
      simp only [List.flatMap_cons, List.length_append, List.length_cons,
        String.length_utf8EncodeChar]
      omega

theorem lossy_ofText (text : String) : lossy (ofText text) = ofText text := by
  rw [ofText_eq_flatMap]
  exact lossyFrom_chars _ (length_le_flatMap _)

end Text

end Bytes
