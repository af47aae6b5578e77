import Propolis.Lib.Digits

/-!
# The name of a DNS question

`presentation` (`sensor-dns/protocol.rs`), the text under which a queried name is logged.
Every byte of a label is written as itself or behind a backslash, and a dot closes the
label.  No dot of a label stands without its backslash, so a name is read back from its
text.
-/

namespace Propolis.Dns

open Bytes

def dot : UInt8 := 46

def backslash : UInt8 := 92

/-- The text of one byte of a label. -/
def escaped (byte : UInt8) : Bytes :=
  if byte = dot then [backslash, dot]
  else if byte = backslash then [backslash, backslash]
  else if 0x21 ≤ byte ∧ byte ≤ 0x7E then [byte]
  else backslash :: fixedDigits 10 3 byte.toNat

def presentation (labels : List Bytes) : Bytes :=
  if labels.isEmpty then [dot]
  else labels.flatMap fun label => label.flatMap escaped ++ [dot]

/-- A label that `parse_question` reads. -/
abbrev Label := {bytes : Bytes // 1 ≤ bytes.length ∧ bytes.length ≤ 63}

variable {byte other : UInt8} {label rest others : Bytes}

theorem escaped_cases (byte : UInt8) :
    (escaped byte = [byte] ∧ byte ≠ dot ∧ byte ≠ backslash ∧ 0x21 ≤ byte ∧ byte ≤ 0x7E) ∨
      (escaped byte = [backslash, byte] ∧ (byte = dot ∨ byte = backslash)) ∨
      escaped byte = backslash :: fixedDigits 10 3 byte.toNat := by
  grind [escaped]

/-- A digit is none of the two bytes that are escaped by themselves. -/
theorem digits_ne (byte : UInt8) : ∃ first second third, fixedDigits 10 3 byte.toNat =
    [first, second, third] ∧ first ≠ dot ∧ first ≠ backslash := by
  refine ⟨_, _, _, rfl, ?_, ?_⟩
  all_goals
    rcases digitByte_range (show byte.toNat / 10 / 10 % 10 < 16 by omega) with range | range
    all_goals
      intro same
      rw [same] at range
      revert range
      decide

theorem escaped_append_inj (same : escaped byte ++ rest = escaped other ++ others) :
    byte = other ∧ rest = others := by
  obtain ⟨_, _, _, digits, _, _⟩ := digits_ne byte
  obtain ⟨_, _, _, otherDigits, _, _⟩ := digits_ne other
  have numbers : fixedDigits 10 3 byte.toNat = fixedDigits 10 3 other.toNat → byte = other := by
    intro equal
    have := byte.toNat_lt
    have := other.toNat_lt
    exact UInt8.toNat_inj.mp (fixedDigits_inj (by decide) (by decide) (by omega) (by omega) equal)
  rcases escaped_cases byte with one | one | one
  all_goals
    rcases escaped_cases other with two | two | two
    all_goals grind

theorem escaped_ne_dot (byte : UInt8) (rest : Bytes) : escaped byte ++ rest ≠ dot :: others := by
  rcases escaped_cases byte with shown | shown | shown <;> grind [dot, backslash]

/-- A label is read back up to the dot that closes it. -/
theorem label_append_inj {other : Bytes}
    (same : label.flatMap escaped ++ dot :: rest = other.flatMap escaped ++ dot :: others) :
    label = other ∧ rest = others := by
  induction label generalizing other with
  | nil =>
      cases other with
      | nil => simpa using same
      | cons byte later =>
          rw [List.flatMap_cons, List.append_assoc] at same
          exact absurd same.symm (escaped_ne_dot byte _)
  | cons byte later ih =>
      rw [List.flatMap_cons, List.append_assoc] at same
      cases other with
      | nil => exact absurd same (escaped_ne_dot byte _)
      | cons first others =>
          rw [List.flatMap_cons, List.append_assoc] at same
          obtain ⟨rfl, behind⟩ := escaped_append_inj same
          obtain ⟨rfl, equal⟩ := ih behind
          exact ⟨rfl, equal⟩

/-- The labels of a name that is not the root. -/
theorem labels_inj {first second : List Bytes}
    (same : first.flatMap (fun label => label.flatMap escaped ++ [dot]) =
      second.flatMap fun label => label.flatMap escaped ++ [dot]) : first = second := by
  induction first generalizing second with
  | nil =>
      cases second with
      | nil => rfl
      | cons => simp at same
  | cons label later ih =>
      cases second with
      | nil => simp at same
      | cons other behind =>
          simp only [List.flatMap_cons, List.append_assoc] at same
          obtain ⟨rfl, equal⟩ := label_append_inj same
          rw [ih equal]

/-- The text of a name that is not the root does not start with a dot. -/
theorem dot_ne (label : Label) (labels : List Label) :
    presentation ((label :: labels).map Subtype.val) ≠ [dot] := by
  obtain ⟨bytes, some_, -⟩ := label
  cases bytes with
  | nil => simp at some_
  | cons byte later =>
      simp only [presentation, List.map_cons, List.flatMap_cons, List.append_assoc]
      exact escaped_ne_dot byte _

theorem presentation_inj {first second : List Label}
    (same : presentation (first.map Subtype.val) = presentation (second.map Subtype.val)) :
    first = second := by
  cases first with
  | nil =>
      cases second with
      | nil => rfl
      | cons label later => exact absurd same.symm (dot_ne label later)
  | cons label later =>
      cases second with
      | nil => exact absurd same (dot_ne label later)
      | cons other behind =>
          exact List.map_injective_iff.mpr Subtype.val_injective (labels_inj same)

theorem escaped_printable (byte : UInt8) : ∀ char ∈ escaped byte, 0x21 ≤ char ∧ char ≤ 0x7E := by
  intro char member
  rcases escaped_cases byte with shown | shown | shown
  · grind
  · grind [dot, backslash]
  · rw [shown] at member
    rcases List.mem_cons.mp member with rfl | digit
    · decide
    · have range := fixedDigits_range (by decide) (by decide) digit
      simp only [UInt8.le_iff_toNat_le] at range ⊢
      simp at range ⊢
      omega

/-- Different names are logged under different texts, of printable ASCII without spaces. -/
theorem presentation_identifies_name :
    Function.Injective (fun labels : List Label => presentation (labels.map Subtype.val)) ∧
      ∀ labels, (presentation labels).all (fun char => 0x21 ≤ char && char ≤ 0x7E) = true := by
  refine ⟨fun _ _ => presentation_inj, fun labels => ?_⟩
  rw [List.all_eq_true, presentation]
  intro char member
  rw [Bool.and_eq_true, decide_eq_true_eq, decide_eq_true_eq]
  split at member
  case isTrue =>
    rw [List.mem_singleton.mp member]
    decide
  case isFalse =>
    obtain ⟨label, -, inside⟩ := List.mem_flatMap.mp member
    rcases List.mem_append.mp inside with shown | closing
    · obtain ⟨byte, -, shown⟩ := List.mem_flatMap.mp shown
      exact escaped_printable byte char shown
    · rw [List.mem_singleton.mp closing]
      decide

end Propolis.Dns
