import Propolis.Ledger.AddressText
import Propolis.Ledger.Tables

/-!
# The frozen event encoding

`canonical_bytes` and `chain_hash` (`hashing.rs`).  The encoding is unambiguous
in two senses the chain needs.  Two events with the same bytes agree on every
hashed field (`canonicalBytes_inj`): each field is framed, so the fields can be
peeled off from the front.  And no encoding is another one behind a 32-byte hash
(`canonicalBytes_ne_shifted`): what is hashed for the first row of a chain is
never what is hashed for a later one.  The second fact comes from the first bytes
of an encoding, a small length, seven zeros and a character of an address, which
occur at no offset of 32 or less that is not the start of the encoding.

The texts of timestamps and of JSON values are those of the formatting libraries,
which enter as parameters.
-/

namespace Propolis

open Bytes

/-- The formatters of the libraries. -/
structure TextForms where
  rfc3339 : ℤ → Bytes
  json : Json → Bytes

def signalLabel : SignalType → String
  | .honeypotConnection => "\"HoneypotConnection\""
  | .honeypotLoginAttempt => "\"HoneypotLoginAttempt\""
  | .honeypotCommandExec => "\"HoneypotCommandExec\""
  | .honeypotMalwareUpload => "\"HoneypotMalwareUpload\""
  | .honeypotFileDownload => "\"HoneypotFileDownload\""
  | .suricataSev1 => "\"SuricataSev1\""
  | .suricataSev2 => "\"SuricataSev2\""
  | .suricataSev3 => "\"SuricataSev3\""
  | .portScan => "\"PortScan\""
  | .synFlood => "\"SynFlood\""
  | .blockedConnection => "\"BlockedConnection\""
  | .wafSqliXss => "\"WafSqliXss\""
  | .wafGenericBlock => "\"WafGenericBlock\""
  | .sshBruteForce => "\"SshBruteForce\""
  | .catchallProbe => "\"CatchallProbe\""
  | .remoteAuthFailure => "\"RemoteAuthFailure\""
  | .honeypotSessionEnd => "\"HoneypotSessionEnd\""

def protocolLabel : Protocol → String
  | .tcp => "\"Tcp\""
  | .udp => "\"Udp\""
  | .icmp => "\"Icmp\""

def categoryLabel : Category → String
  | .honeypot => "\"Honeypot\""
  | .ids => "\"Ids\""
  | .network => "\"Network\""
  | .waf => "\"Waf\""
  | .auth => "\"Auth\""

def minus : UInt8 := 45

def magnitudeText (magnitude scale : ℕ) : Bytes :=
  digitText 10 (magnitude / 10 ^ scale) ++
    if scale = 0 then [] else dot :: fixedDigits 10 scale (magnitude % 10 ^ scale)

/-- `Decimal::to_string`: all decimal places, and a digit before the point. -/
def decimalText (decimal : Decimal) : Bytes :=
  (if decimal.mantissa < 0 then [minus] else []) ++
    magnitudeText decimal.mantissa.natAbs decimal.scale

example : decimalText ⟨900, 3⟩ = ofText "0.900" := by decide +kernel

section Encoding

variable (forms : TextForms)

def flagByte (flag : Bool) : UInt8 :=
  if flag then 1 else 0

def wanBytes : Option IpAddr → Bytes
  | some wan => 1 :: lengthPrefixed (ipText wan)
  | none => [0]

/-- The fields after the signal. -/
def tailBytes (event : EventInput) : Bytes :=
  lengthPrefixed (ofText (protocolLabel event.protocol)) ++
    (flagByte event.authenticated ::
      (lengthPrefixed (ofText (categoryLabel event.category)) ++
        (littleEndian 4 event.weight ++
          (lengthPrefixed (decimalText event.confidence) ++
            (lengthPrefixed (forms.rfc3339 event.observedAt) ++
              lengthPrefixed (forms.json event.metadata))))))

/-- The fields after the addresses. -/
def sensorBytes (event : EventInput) : Bytes :=
  lengthPrefixed (ofText event.sensor) ++
    (lengthPrefixed (ofText (signalLabel event.signalType)) ++ tailBytes forms event)

/-- The frozen encoding, field by field. -/
def canonicalBytes (event : EventInput) : Bytes :=
  lengthPrefixed (ipText event.sourceIp) ++ (wanBytes event.wanIp ++ sensorBytes forms event)

/-- The bytes hashed for an event behind the previous hash. -/
def chainBytes (prev : Option Digest) (event : EventInput) : Bytes :=
  (prev.elim [] (·.val)) ++ canonicalBytes forms event

def chainHash (sha256 : Bytes → Digest) (prev : Option Digest) (event : EventInput) : Digest :=
  sha256 (chainBytes forms prev event)

end Encoding

variable {first second : EventInput} {rest gap code field : Bytes} {index : ℕ} {signal : SignalType}

section Peeling

theorem magnitudeText_inj {first second scale : ℕ}
    (same : magnitudeText first scale = magnitudeText second scale) : first = second := by
  have parts := List.append_inj' same (by split_ifs <;> simp)
  have wholes := digitText_injective (by decide) (by decide) parts.1
  have fractions : first % 10 ^ scale = second % 10 ^ scale := by
    by_cases whole : scale = 0
    · subst whole
      rw [pow_zero, Nat.mod_one, Nat.mod_one]
    · rw [if_neg whole, if_neg whole] at parts
      have positive : 0 < 10 ^ scale := Nat.pow_pos (by decide)
      exact fixedDigits_inj (by decide) (by decide) (Nat.mod_lt _ positive)
        (Nat.mod_lt _ positive) (List.cons.inj parts.2).2
  rw [← Nat.div_add_mod first (10 ^ scale), wholes, fractions, Nat.div_add_mod]

theorem magnitudeText_ne_minus_cons (magnitude scale : ℕ) (rest : Bytes) :
    magnitudeText magnitude scale ≠ minus :: rest := by
  intro same
  have starts := congrArg List.head? same
  rw [magnitudeText, List.head?_append_of_ne_nil _ (digitText_ne_nil _ _)] at starts
  rcases digitText_range (by decide) (by decide) (List.mem_of_head? starts) with
    ⟨lower, -⟩ | ⟨lower, -⟩
  · exact absurd lower (by decide)
  · exact absurd lower (by decide)

theorem decimalText_inj {first second : Decimal} (sameScale : first.scale = second.scale)
    (same : decimalText first = decimalText second) : first = second := by
  have mantissas : first.mantissa = second.mantissa := by
    unfold decimalText at same
    rw [← sameScale] at same
    split_ifs at same with firstNegative secondNegative secondNegative
    · have magnitudes := magnitudeText_inj (List.cons.inj same).2
      omega
    · exact absurd same.symm (magnitudeText_ne_minus_cons _ _ _)
    · exact absurd same (magnitudeText_ne_minus_cons _ _ _)
    · have magnitudes := magnitudeText_inj same
      omega
  cases first
  simp_all

/-- What stands before the point of a decimal. -/
def wholeText (decimal : Decimal) : Bytes :=
  (if decimal.mantissa < 0 then [minus] else []) ++
    digitText 10 (decimal.mantissa.natAbs / 10 ^ decimal.scale)

theorem decimalText_eq (decimal : Decimal) :
    decimalText decimal = wholeText decimal ++
      if decimal.scale = 0 then []
      else dot :: fixedDigits 10 decimal.scale
        (decimal.mantissa.natAbs % 10 ^ decimal.scale) := by
  rw [decimalText, magnitudeText, wholeText, List.append_assoc]

theorem dot_notMem_of_range {text : Bytes}
    (range : ∀ byte ∈ text, (48 ≤ byte ∧ byte ≤ 57) ∨ (97 ≤ byte ∧ byte ≤ 102)) :
    dot ∉ text := by
  intro member
  rcases range dot member with ⟨lower, -⟩ | ⟨lower, -⟩ <;> exact absurd lower (by decide)

theorem dot_notMem_wholeText (decimal : Decimal) : dot ∉ wholeText decimal := by
  have digits : dot ∉ digitText 10 (decimal.mantissa.natAbs / 10 ^ decimal.scale) :=
    dot_notMem_of_range fun _ => digitText_range (by decide) (by decide)
  rw [wholeText, List.mem_append, not_or]
  refine ⟨?_, digits⟩
  split
  · decide
  · exact List.not_mem_nil

theorem dot_notMem_fixedDigits (width value : ℕ) : dot ∉ fixedDigits 10 width value :=
  dot_notMem_of_range fun _ => fixedDigits_range (by decide) (by decide)

/-- The text of a decimal tells its scale, by the digits behind the point. -/
theorem scale_eq_of_decimalText {first second : Decimal}
    (same : decimalText first = decimalText second) : first.scale = second.scale := by
  rw [decimalText_eq, decimalText_eq] at same
  by_cases firstWhole : first.scale = 0
  · by_cases secondWhole : second.scale = 0
    · rw [firstWhole, secondWhole]
    · rw [if_pos firstWhole, if_neg secondWhole, List.append_nil] at same
      exact absurd (same ▸ by simp) (dot_notMem_wholeText first)
  · by_cases secondWhole : second.scale = 0
    · rw [if_neg firstWhole, if_pos secondWhole, List.append_nil] at same
      exact absurd (same ▸ by simp) (dot_notMem_wholeText second)
    · rw [if_neg firstWhole, if_neg secondWhole] at same
      have parts := (List.append_cons_inj_of_notMem (dot_notMem_wholeText first)
        (dot_notMem_fixedDigits _ _)).mp same
      simpa using congrArg List.length parts.2.2

theorem decimalText_injective : Function.Injective decimalText := by
  intro first second same
  exact decimalText_inj (scale_eq_of_decimalText same) same

theorem signalLabel_injective {first second : SignalType}
    (same : ofText (signalLabel first) = ofText (signalLabel second)) : first = second := by
  have labels := ofText_injective same
  cases first <;> cases second <;> first | rfl | exact absurd labels (by decide)

theorem protocolLabel_injective {first second : Protocol}
    (same : ofText (protocolLabel first) = ofText (protocolLabel second)) : first = second := by
  have labels := ofText_injective same
  cases first <;> cases second <;> first | rfl | exact absurd labels (by decide)

theorem categoryLabel_injective {first second : Category}
    (same : ofText (categoryLabel first) = ofText (categoryLabel second)) : first = second := by
  have labels := ofText_injective same
  cases first <;> cases second <;> first | rfl | exact absurd labels (by decide)

theorem flagByte_injective : Function.Injective flagByte := by
  decide

theorem protocolLabel_length_lt (protocol : Protocol) :
    (ofText (protocolLabel protocol)).length < 256 ^ 8 := by
  cases protocol <;> decide +kernel

theorem categoryLabel_length_lt (category : Category) :
    (ofText (categoryLabel category)).length < 256 ^ 8 := by
  cases category <;> decide +kernel

/-- What the shift argument reads of a signal's label: a quote, then ten bytes that are not zero. -/
theorem signalLabel_shape (signal : SignalType) :
    10 ≤ (ofText (signalLabel signal)).length ∧ (ofText (signalLabel signal)).length < 256 ∧
      (ofText (signalLabel signal)).head? = some 34 ∧ 0 ∉ ofText (signalLabel signal) := by
  cases signal <;> decide +kernel

theorem ipText_length_lt (address : IpAddr) : (ipText address).length < 256 ^ 8 := by
  have := ipText_length address
  omega

/-- Every length prefix of the event's encoding holds the length it stands for. -/
structure FieldsFit (forms : TextForms) (event : EventInput) : Prop where
  sensor : (ofText event.sensor).length < 256 ^ 8
  weight : event.weight < 256 ^ 4
  confidence : (decimalText event.confidence).length < 256 ^ 8
  observedAt : (forms.rfc3339 event.observedAt).length < 256 ^ 8
  metadata : (forms.json event.metadata).length < 256 ^ 8

theorem wanBytes_append_inj {first second : Option IpAddr} {firstRest secondRest : Bytes}
    (same : wanBytes first ++ firstRest = wanBytes second ++ secondRest) :
    first = second ∧ firstRest = secondRest := by
  cases first with
  | none =>
      cases second with
      | none => exact ⟨rfl, (List.cons.inj same).2⟩
      | some wan => exact absurd (List.cons.inj same).1 (by decide)
  | some wan =>
      cases second with
      | none => exact absurd (List.cons.inj same).1 (by decide)
      | some other =>
          rcases lengthPrefixed_append_inj (ipText_length_lt _) (ipText_length_lt _)
            (List.cons.inj same).2 with ⟨addresses, rests⟩
          exact ⟨congrArg some (ipText_injective addresses), rests⟩

/-- Events with the same encoding agree on every hashed field. -/
theorem canonicalBytes_inj {forms : TextForms} (firstFit : FieldsFit forms first)
    (secondFit : FieldsFit forms second)
    (rfc3339 : forms.rfc3339 first.observedAt = forms.rfc3339 second.observedAt →
      first.observedAt = second.observedAt)
    (json : forms.json first.metadata = forms.json second.metadata →
      first.metadata = second.metadata)
    (same : canonicalBytes forms first = canonicalBytes forms second) :
    { first with sessionId := none } = { second with sessionId := none } := by
  rcases lengthPrefixed_append_inj (ipText_length_lt _) (ipText_length_lt _) same with
    ⟨sourceIp, same⟩
  rcases wanBytes_append_inj same with ⟨wanIp, same⟩
  rcases lengthPrefixed_append_inj firstFit.sensor secondFit.sensor same with ⟨sensor, same⟩
  have firstShape := signalLabel_shape first.signalType
  have secondShape := signalLabel_shape second.signalType
  rcases lengthPrefixed_append_inj (by omega) (by omega) same with ⟨signalType, same⟩
  rcases lengthPrefixed_append_inj (protocolLabel_length_lt _) (protocolLabel_length_lt _) same
    with ⟨protocol, same⟩
  rcases List.cons.inj same with ⟨authenticated, same⟩
  rcases lengthPrefixed_append_inj (categoryLabel_length_lt _) (categoryLabel_length_lt _) same
    with ⟨category, same⟩
  rcases List.append_inj same (by simp) with ⟨weight, same⟩
  rcases lengthPrefixed_append_inj firstFit.confidence secondFit.confidence same with
    ⟨confidence, same⟩
  rcases lengthPrefixed_append_inj firstFit.observedAt secondFit.observedAt same with
    ⟨observedAt, same⟩
  rw [← List.append_nil (lengthPrefixed (forms.json first.metadata)),
    ← List.append_nil (lengthPrefixed (forms.json second.metadata))] at same
  have metadata := (lengthPrefixed_append_inj firstFit.metadata secondFit.metadata same).1
  simp only [EventInput.mk.injEq, and_true]
  exact ⟨ipText_injective sourceIp, wanIp, ofText_injective sensor,
    signalLabel_injective signalType, protocolLabel_injective protocol,
    flagByte_injective authenticated, categoryLabel_injective category,
    littleEndian_inj firstFit.weight secondFit.weight weight, decimalText_injective confidence,
    rfc3339 observedAt, json metadata⟩

/-- An event as the program holds it: its weight is of 32 bits, and each of its texts fits in
memory. -/
structure HeldEvent (forms : TextForms) extends EventInput where
  fits : FieldsFit forms toEventInput

/-- The encoding is unambiguous: it determines every field but the session, for formatters that
tell the two timestamps and the two JSON values apart. -/
theorem canonicalBytes_unambiguous {forms : TextForms} (first second : HeldEvent forms)
    (rfc3339 : forms.rfc3339 first.observedAt = forms.rfc3339 second.observedAt →
      first.observedAt = second.observedAt)
    (json : forms.json first.metadata = forms.json second.metadata →
      first.metadata = second.metadata)
    (same : canonicalBytes forms first.toEventInput =
      canonicalBytes forms second.toEventInput) :
    { first.toEventInput with sessionId := none } =
      { second.toEventInput with sessionId := none } :=
  canonicalBytes_inj first.fits second.fits rfc3339 json same

/-- The texts of the event below. -/
def sampleForms : TextForms :=
  ⟨fun _ => ofText "2026-07-20T14:03:11+00:00", fun _ => ofText "\x7b\x7d"⟩

/-- A connection, in one session or another. -/
def sampleHeldEvent (sessionId : Option (BitVec 128)) : HeldEvent sampleForms where
  sourceIp := .v4 203 0 113 7
  wanIp := none
  sensor := "ssh"
  signalType := .honeypotConnection
  protocol := .tcp
  authenticated := false
  category := .honeypot
  weight := 25
  confidence := ⟨900, 3⟩
  observedAt := 1784556191000000000
  metadata := .object []
  sessionId := sessionId
  fits :=
    ⟨(by decide +kernel : (ofText "ssh").length < 256 ^ 8), (by decide : 25 < 256 ^ 4),
      (by decide +kernel : (decimalText ⟨900, 3⟩).length < 256 ^ 8),
      (by decide +kernel : (sampleForms.rfc3339 0).length < 256 ^ 8),
      (by decide +kernel : (sampleForms.json .null).length < 256 ^ 8)⟩

theorem canonicalBytes_unambiguous_session :
    (sampleHeldEvent (some 1)).sessionId ≠ (sampleHeldEvent none).sessionId ∧
      { (sampleHeldEvent (some 1)).toEventInput with sessionId := none } =
        { (sampleHeldEvent none).toEventInput with sessionId := none } :=
  ⟨by decide, canonicalBytes_unambiguous (sampleHeldEvent (some 1)) (sampleHeldEvent none)
    (fun _ => rfl) (fun _ => rfl) rfl⟩

end Peeling

section Shift

/-- What a stored sensor name is: not empty, without a NUL, and far below the size a length
prefix can express. -/
structure PlainSensor (sensor : String) : Prop where
  nonempty : ofText sensor ≠ []
  noNul : 0 ∉ ofText sensor
  size : (ofText sensor).length < 256 ^ 7

variable {forms : TextForms} {event : EventInput}

theorem getElem?_of_eq_append {whole : Bytes} (same : whole = gap ++ code) (index : ℕ) :
    code[index]? = whole[gap.length + index]? := by
  rw [same, List.getElem?_append_right (Nat.le_add_right _ _), Nat.add_sub_cancel_left]

theorem lengthPrefixed_getElem? (field rest : Bytes) (index : ℕ) :
    (lengthPrefixed field ++ rest)[8 + index]? = (field ++ rest)[index]? := by
  have parts : lengthPrefixed field ++ rest = littleEndian 8 field.length ++ (field ++ rest) := by
    rw [lengthPrefixed, List.append_assoc]
  rw [getElem?_of_eq_append parts, littleEndian_length]

theorem lengthPrefixed_getElem?_zero (rest : Bytes) (short : field.length < 256) :
    (lengthPrefixed field ++ rest)[0]? = some (UInt8.ofNat field.length) := by
  rw [lengthPrefixed_of_short short]
  rfl

theorem lengthPrefixed_getElem?_pad (rest : Bytes) (short : field.length < 256)
    (positive : 0 < index) (inside : index < 8) :
    (lengthPrefixed field ++ rest)[index]? = some 0 := by
  obtain ⟨offset, rfl⟩ : ∃ offset, index = offset + 1 := ⟨index - 1, by omega⟩
  rw [lengthPrefixed_of_short short, List.cons_append, List.getElem?_cons_succ, List.append_assoc,
    List.getElem?_append_left (by rw [List.length_replicate]; omega),
    List.getElem?_replicate_of_lt (by omega)]

theorem canonicalBytes_size (forms : TextForms) (event : EventInput) :
    ∃ size : UInt8, (canonicalBytes forms event)[0]? = some size ∧ 2 ≤ size ∧ size ≤ 40 := by
  have bounds := ipText_length event.sourceIp
  refine ⟨_, lengthPrefixed_getElem?_zero _ (by omega), ?_, ?_⟩
  · rw [UInt8.le_iff_toNat_le, UInt8.toNat_ofNat_of_lt' (show _ < 256 by omega)]
    exact bounds.1
  · rw [UInt8.le_iff_toNat_le, UInt8.toNat_ofNat_of_lt' (show _ < 256 by omega)]
    exact bounds.2

theorem canonicalBytes_pad (forms : TextForms) (event : EventInput) (positive : 0 < index)
    (inside : index < 8) : (canonicalBytes forms event)[index]? = some 0 := by
  have bounds := ipText_length event.sourceIp
  exact lengthPrefixed_getElem?_pad _ (by omega) positive inside

/-- What starts behind a framed field lies in what follows the field. -/
theorem beyond_field (same : lengthPrefixed field ++ rest = gap ++ code)
    (far : 8 + field.length ≤ gap.length) :
    ∃ later, rest = later ++ code ∧ gap.length = 8 + field.length + later.length := by
  have fieldLength : (lengthPrefixed field).length = 8 + field.length := by
    simp [lengthPrefixed]
  obtain ⟨later, rfl⟩ := List.prefix_of_prefix_length_le (List.prefix_append _ _)
    (same ▸ List.prefix_append gap code) (fieldLength.trans_le far)
  rw [List.append_assoc, List.append_cancel_left_eq] at same
  exact ⟨later, same, by rw [List.length_append, fieldLength]⟩

/-- An encoding behind a framed field starts at the field's prefix or after the field. -/
theorem skip_field (same : lengthPrefixed field ++ rest = gap ++ canonicalBytes forms event)
    (short : field.length < 256) (outside : ∀ index < field.length, gap.length ≠ 8 + index) :
    gap = [] ∨ ∃ later, rest = later ++ canonicalBytes forms event ∧
      gap.length = 8 + field.length + later.length := by
  rcases canonicalBytes_size forms event with ⟨size, first, sizeGe, -⟩
  by_cases far : 8 + field.length ≤ gap.length
  · exact .inr (beyond_field same far)
  · left
    by_contra nonempty
    have positive := List.length_pos_iff.mpr nonempty
    have inPad : gap.length < 8 := by
      by_contra beyond
      exact outside (gap.length - 8) (by omega) (by omega)
    rw [getElem?_of_eq_append same, Nat.add_zero,
      lengthPrefixed_getElem?_pad _ short positive inPad] at first
    cases first
    exact absurd sizeGe (by decide)

theorem outside_address {address : IpAddr}
    (same : lengthPrefixed (ipText address) ++ rest = gap ++ canonicalBytes forms event) :
    ∀ index < (ipText address).length, gap.length ≠ 8 + index := by
  intro index inside isGap
  rcases canonicalBytes_size forms event with ⟨size, first, -, sizeLe⟩
  rw [getElem?_of_eq_append same, Nat.add_zero, isGap, lengthPrefixed_getElem?,
    List.getElem?_append_left inside] at first
  have textByte := dot_le_of_mem_ipText (List.mem_of_getElem? first)
  exact absurd (UInt8.le_trans textByte sizeLe) (by decide)

theorem outside_label (near : gap.length ≤ 12)
    (same : lengthPrefixed (ofText (signalLabel signal)) ++ rest =
      gap ++ canonicalBytes forms event) :
    ∀ index < (ofText (signalLabel signal)).length, gap.length ≠ 8 + index := by
  intro index inside isGap
  rcases signalLabel_shape signal with ⟨long, -, -, noNul⟩
  have pad := canonicalBytes_pad forms event one_pos (by decide)
  rw [getElem?_of_eq_append same, isGap, Nat.add_assoc, lengthPrefixed_getElem?,
    List.getElem?_append_left (by omega)] at pad
  exact noNul (List.mem_of_getElem? pad)

theorem labelBytes_ne_shifted (near : gap.length ≤ 12) :
    lengthPrefixed (ofText (signalLabel signal)) ++ rest ≠ gap ++ canonicalBytes forms event := by
  intro same
  rcases signalLabel_shape signal with ⟨long, short, quote, -⟩
  rcases skip_field same short (outside_label near same) with empty | ⟨later, -, lengths⟩
  · subst empty
    have texts := (lengthPrefixed_append_inj (by omega) (ipText_length_lt _) same).1
    rw [texts] at quote
    exact absurd (dot_le_of_mem_ipText (List.mem_of_head? quote)) (by decide)
  · omega

/-- The byte after an address in an encoding is a presence flag. -/
theorem wanBytes_flag (wan : Option IpAddr) (rest : Bytes) :
    ∃ flag : UInt8, (wanBytes wan ++ rest)[0]? = some flag ∧ flag < 2 := by
  cases wan with
  | none => exact ⟨0, rfl, by decide⟩
  | some wan => exact ⟨1, rfl, by decide⟩

/-- Nine bytes after an address an encoding has the last byte of a length. -/
theorem wanBytes_pad (plain : PlainSensor event.sensor) (wan : Option IpAddr) :
    (wanBytes wan ++ sensorBytes forms event)[8]? = some 0 := by
  cases wan with
  | none =>
      have top : lengthPrefixed (ofText event.sensor) =
          littleEndian 7 (ofText event.sensor).length ++ (0 :: ofText event.sensor) := by
        rw [lengthPrefixed, show 8 = 7 + 1 from rfl, littleEndian_eq_zeros plain.size]
        simp
      rw [wanBytes, List.singleton_append, sensorBytes, top]
      simp
  | some wan =>
      have bounds := ipText_length wan
      exact lengthPrefixed_getElem?_pad _ (by omega) (by decide) (by decide)

theorem sensorBytes_head (forms : TextForms)
    (plain : PlainSensor first.sensor) :
    ∃ byte : UInt8, (sensorBytes forms first)[8]? = some byte ∧ byte ≠ 0 := by
  rcases List.exists_cons_of_ne_nil plain.nonempty with ⟨byte, rest, shape⟩
  refine ⟨byte, ?_, ?_⟩
  · rw [sensorBytes, shape]
    rfl
  · rintro rfl
    exact plain.noNul (by rw [shape]; exact List.mem_cons_self)

theorem sensorBytes_ne_shifted (plain : PlainSensor first.sensor) (near : gap.length ≤ 21) :
    sensorBytes forms first ≠ gap ++ canonicalBytes forms event := by
  intro same
  have sensorPos := List.length_pos_iff.mpr plain.nonempty
  have labelShape := signalLabel_shape first.signalType
  have pad {index : ℕ} (positive : 0 < index) (inside : index < 8) :
      (sensorBytes forms first)[gap.length + index]? = some 0 := by
    rw [← getElem?_of_eq_append same]
    exact canonicalBytes_pad forms event positive inside
  rcases Nat.eq_zero_or_pos gap.length with isZero | positive
  · rw [List.length_eq_zero_iff.mp isZero] at same
    have rests := (lengthPrefixed_append_inj (plain.size.trans (by decide))
      (ipText_length_lt _) same).2
    rcases wanBytes_flag event.wanIp (sensorBytes forms event) with ⟨flag, isFlag, small⟩
    rw [← rests, lengthPrefixed_getElem?_zero _ labelShape.2.1, Option.some.injEq] at isFlag
    rw [← isFlag, UInt8.lt_iff_toNat_lt] at small
    exact absurd small (by simp; omega)
  · by_cases inPad : gap.length < 8
    · rcases sensorBytes_head forms plain with ⟨byte, isByte, nonzero⟩
      have zero := @pad (8 - gap.length) (by omega) (by omega)
      rw [Nat.add_sub_cancel' (by omega), isByte, Option.some.injEq] at zero
      exact nonzero zero
    · by_cases inside : gap.length < 8 + (ofText first.sensor).length
      · have zero := pad one_pos (by decide)
        rw [show gap.length + 1 = 8 + (gap.length - 7) by omega, sensorBytes,
          lengthPrefixed_getElem?] at zero
        by_cases last : gap.length - 7 < (ofText first.sensor).length
        · rw [List.getElem?_append_left last] at zero
          exact plain.noNul (List.mem_of_getElem? zero)
        · rw [List.getElem?_append_right (by omega),
            show gap.length - 7 - (ofText first.sensor).length = 0 by omega,
            lengthPrefixed_getElem?_zero _ labelShape.2.1, Option.some.injEq] at zero
          have value := congrArg UInt8.toNat zero
          rw [UInt8.toNat_ofNat_of_lt' (show _ < 256 from labelShape.2.1)] at value
          rw [show (0 : UInt8).toNat = 0 from rfl] at value
          omega
      · rcases beyond_field same (Nat.not_lt.mp inside) with ⟨later, rest, lengths⟩
        exact labelBytes_ne_shifted (by omega) rest

/-- No encoding is another one behind a hash. -/
theorem canonicalBytes_ne_shifted (firstPlain : PlainSensor first.sensor)
    (plain : PlainSensor event.sensor) (prev : Digest) :
    canonicalBytes forms first ≠ prev.val ++ canonicalBytes forms event := by
  intro same
  have bounds := ipText_length first.sourceIp
  have digestLength := prev.property
  rcases canonicalBytes_size forms event with ⟨size, isSize, sizeGe, -⟩
  rcases skip_field same (by omega) (outside_address same) with empty | ⟨later, wanEq, lengths⟩
  · rw [empty] at digestLength
    exact absurd digestLength (by decide)
  · cases later with
    | nil =>
        rcases wanBytes_flag first.wanIp (sensorBytes forms first) with ⟨flag, isFlag, small⟩
        rw [wanEq, List.nil_append, isSize, Option.some.injEq] at isFlag
        subst isFlag
        exact absurd (UInt8.lt_of_lt_of_le small sizeGe) (by simp)
    | cons flag later =>
        rw [List.length_cons] at lengths
        cases wanShape : first.wanIp with
        | none =>
            rw [wanShape] at wanEq
            exact sensorBytes_ne_shifted firstPlain (by omega) (List.cons.inj wanEq).2
        | some wan =>
            rw [wanShape] at wanEq
            have inner : lengthPrefixed (ipText wan) ++ sensorBytes forms first =
                later ++ canonicalBytes forms event := (List.cons.inj wanEq).2
            have wanBounds := ipText_length wan
            rcases skip_field inner (by omega) (outside_address inner) with
              empty | ⟨gap, rest, shorter⟩
            · rw [empty] at inner
              have rests := (lengthPrefixed_append_inj (ipText_length_lt _) (ipText_length_lt _)
                inner).2
              rcases sensorBytes_head forms firstPlain with ⟨byte, isByte, nonzero⟩
              rw [rests, wanBytes_pad plain, Option.some.injEq] at isByte
              exact nonzero isByte.symm
            · exact sensorBytes_ne_shifted firstPlain (by omega) rest

/-- The string hashed for a row tells the previous hash and the encoding apart. -/
theorem chainBytes_inj (firstPlain : PlainSensor first.sensor)
    (secondPlain : PlainSensor second.sensor) {firstPrev secondPrev : Option Digest}
    (same : chainBytes forms firstPrev first = chainBytes forms secondPrev second) :
    firstPrev = secondPrev ∧ canonicalBytes forms first = canonicalBytes forms second := by
  cases firstPrev with
  | none =>
      cases secondPrev with
      | none => exact ⟨rfl, same⟩
      | some prev => exact absurd same (canonicalBytes_ne_shifted firstPlain secondPlain prev)
  | some prev =>
      cases secondPrev with
      | none => exact absurd same.symm (canonicalBytes_ne_shifted secondPlain firstPlain prev)
      | some other =>
          rcases List.append_inj same (by simp [prev.property, other.property]) with
            ⟨hashes, codes⟩
          exact ⟨congrArg some (Subtype.ext hashes), codes⟩

end Shift

end Propolis
