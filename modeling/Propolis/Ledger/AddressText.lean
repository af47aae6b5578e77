import Propolis.Lib.Digits
import Propolis.Scoring.Domain

/-!
# The text of an address

`IpAddr::to_string`, which the ledger hashes and stores: dotted decimal for
IPv4; for IPv6 lower-case hexadecimal groups with the first longest run of at
least two zero groups written `::`, and an IPv4-mapped address as `::ffff:`
before its dotted decimal.  The text names the address (`ipText_injective`).
The argument for IPv6 is that the text splits at its colons into groups, that
the groups before and after the run can be told from the empty ones between, and
that the run's length is what is missing to eight.
-/

namespace Propolis

open Bytes

variable {byte : UInt8} {chunk : List UInt16}

def colon : UInt8 := 58

def dot : UInt8 := 46

def ipv4Text (a b c d : UInt8) : Bytes :=
  joinWith dot (([a, b, c, d] : List UInt8).map fun octet => digitText 10 octet.toNat)

/-- A run of consecutive segments. -/
structure Span where
  start : ℕ
  len : ℕ

/-- The loop of the formatter: the first longest run of zero segments. -/
def longestZeroSpan (index : ℕ) (longest current : Span) : List UInt16 → Span
  | [] => longest
  | segment :: rest =>
      if segment = 0 then
        let current : Span :=
          { start := if current.len = 0 then index else current.start
            len := current.len + 1 }
        longestZeroSpan (index + 1) (if longest.len < current.len then current else longest)
          current rest
      else
        longestZeroSpan (index + 1) longest ⟨0, 0⟩ rest

def zeroes (segments : List UInt16) : Span :=
  longestZeroSpan 0 ⟨0, 0⟩ ⟨0, 0⟩ segments

/-- A colon-separated part of an address. -/
def fmtSubslice (chunk : List UInt16) : Bytes :=
  joinWith colon (chunk.map fun segment => digitText 16 segment.toNat)

def segmentsText (segments : List UInt16) : Bytes :=
  let span := zeroes segments
  if 1 < span.len then
    fmtSubslice (segments.take span.start) ++ [colon, colon] ++
      fmtSubslice (segments.drop (span.start + span.len))
  else
    fmtSubslice segments

/-- The octets of the IPv4 address an IPv6 address maps, if it maps one. -/
def toIpv4Mapped : List UInt16 → Option (UInt8 × UInt8 × UInt8 × UInt8)
  | [0, 0, 0, 0, 0, 0xffff, ab, cd] =>
      some ((ab >>> 8).toUInt8, ab.toUInt8, (cd >>> 8).toUInt8, cd.toUInt8)
  | _ => none

def ipv6Text (segments : List UInt16) : Bytes :=
  match toIpv4Mapped segments with
  | some (a, b, c, d) => ofText "::ffff:" ++ ipv4Text a b c d
  | none => segmentsText segments

def ipText : IpAddr → Bytes
  | .v4 a b c d => ipv4Text a b c d
  | .v6 s0 s1 s2 s3 s4 s5 s6 s7 => ipv6Text [s0, s1, s2, s3, s4, s5, s6, s7]

example : ipText (.v6 0x2001 0xdb8 0 0 1 0 0 1) = ofText "2001:db8::1:0:0:1" := by
  decide +kernel

example : ipText (.v6 0 0 0 0 0 0xffff 0xc000 0x0201) = ofText "::ffff:192.0.2.1" := by
  decide +kernel

section Span

/-- The span lies inside the segments and covers only zeros. -/
structure CoversZeros (segments : List UInt16) (span : Span) : Prop where
  inside : span.start + span.len ≤ segments.length
  zero : ∀ position, span.start ≤ position → position < span.start + span.len →
    segments[position]? = some 0

theorem coversZeros_empty (segments : List UInt16) : CoversZeros segments ⟨0, 0⟩ :=
  ⟨by simp, fun _ _ inside => absurd inside (by simp)⟩

theorem CoversZeros.append {segments : List UInt16} {span : Span}
    (covers : CoversZeros segments span) (more : List UInt16) :
    CoversZeros (segments ++ more) span := by
  refine ⟨?_, ?_⟩
  · rw [List.length_append]
    exact covers.inside.trans (Nat.le_add_right _ _)
  · intro position lower upper
    rw [List.getElem?_append_left (upper.trans_le covers.inside)]
    exact covers.zero position lower upper

/-- A zero extends the current run, which ends at the segment just read. -/
theorem CoversZeros.extend {seen : List UInt16} {current : Span} (covers : CoversZeros seen current)
    (ends : current.len = 0 ∨ current.start + current.len = seen.length) :
    CoversZeros (seen ++ [0])
      { start := if current.len = 0 then seen.length else current.start
        len := current.len + 1 } := by
  by_cases fresh : current.len = 0
  · refine ⟨by simp [fresh], ?_⟩
    intro position lower upper
    simp only [fresh, if_true] at lower upper
    have here : position = seen.length := by omega
    simp [here]
  · refine ⟨?_, ?_⟩
    · simp only [fresh, if_false, List.length_append, List.length_singleton]
      omega
    · intro position lower upper
      simp only [fresh, if_false] at lower upper
      by_cases last : position = seen.length
      · simp [last]
      · rw [List.getElem?_append_left (by omega)]
        exact covers.zero position lower (by omega)

/-- The loop's result covers zeros whatever runs it has already seen. -/
theorem longestZeroSpan_covers (rest : List UInt16) {seen : List UInt16} {longest current : Span}
    (longestCovers : CoversZeros seen longest) (currentCovers : CoversZeros seen current)
    (ends : current.len = 0 ∨ current.start + current.len = seen.length) :
    CoversZeros (seen ++ rest) (longestZeroSpan seen.length longest current rest) := by
  induction rest generalizing seen longest current with
  | nil => simpa [longestZeroSpan] using longestCovers
  | cons segment rest ih =>
      have step : seen ++ segment :: rest = (seen ++ [segment]) ++ rest := by simp
      have index : seen.length + 1 = (seen ++ [segment]).length := by simp
      unfold longestZeroSpan
      by_cases zero : segment = 0
      · subst zero
        have extended := currentCovers.extend ends
        rw [step, index]
        refine ih ?_ extended (Or.inr ?_)
        · by_cases longer : longest.len < current.len + 1
          · simpa only [longer, if_true] using extended
          · simpa only [longer, if_false] using longestCovers.append [0]
        · by_cases fresh : current.len = 0
          · simp [fresh]
          · simp only [fresh, if_false, List.length_append, List.length_singleton]
            omega
      · rw [if_neg zero, step, index]
        exact ih (longestCovers.append [segment]) (coversZeros_empty _) (Or.inl rfl)

theorem zeroes_covers (segments : List UInt16) : CoversZeros segments (zeroes segments) := by
  have covers := longestZeroSpan_covers segments (coversZeros_empty []) (coversZeros_empty [])
    (Or.inl rfl)
  simpa [zeroes] using covers

/-- A list is its part before a covered span, the zeros, and its part after it. -/
theorem CoversZeros.split {segments : List UInt16} {span : Span}
    (covers : CoversZeros segments span) :
    segments = segments.take span.start ++ List.replicate span.len 0 ++
      segments.drop (span.start + span.len) := by
  have inside := covers.inside
  apply List.ext_getElem?
  intro position
  have beforeLength : (segments.take span.start).length = span.start := by
    rw [List.length_take]
    omega
  rw [List.append_assoc]
  by_cases before : position < span.start
  · rw [List.getElem?_append_left (by omega), List.getElem?_take_of_lt before]
  · rw [List.getElem?_append_right (by omega)]
    by_cases within : position < span.start + span.len
    · rw [covers.zero position (by omega) within,
        List.getElem?_append_left (by rw [List.length_replicate]; omega),
        List.getElem?_replicate_of_lt (by omega)]
    · rw [List.getElem?_append_right (by rw [List.length_replicate]; omega),
        List.length_replicate, List.getElem?_drop]
      congr 1
      omega

end Span

section Groups

variable {segments : List UInt16}

theorem hexGroup_ne_nil (segment : UInt16) : digitText 16 segment.toNat ≠ [] :=
  digitText_ne_nil _ _

theorem hexGroup_injective :
    Function.Injective fun segment : UInt16 => digitText 16 segment.toNat := by
  intro first second same
  exact UInt16.toNat_inj.mp (digitText_injective (by decide) (by decide) same)

theorem hexGroup_range {segment : UInt16} (member : byte ∈ digitText 16 segment.toNat) :
    (48 ≤ byte ∧ byte ≤ 57) ∨ (97 ≤ byte ∧ byte ≤ 102) :=
  digitText_range (by decide) (by decide) member

theorem colon_notMem_hexGroup (segment : UInt16) : colon ∉ digitText 16 segment.toNat := by
  intro member
  rcases hexGroup_range member with ⟨-, upper⟩ | ⟨lower, -⟩
  · exact absurd upper (by decide)
  · exact absurd lower (by decide)

/-- The groups of a part of an address; an empty part leaves one empty group. -/
def hexGroups (chunk : List UInt16) : List Bytes :=
  chunk.map fun segment => digitText 16 segment.toNat

def paddedGroups (chunk : List UInt16) : List Bytes :=
  if chunk = [] then [[]] else hexGroups chunk

theorem paddedGroups_ne_nil (chunk : List UInt16) : paddedGroups chunk ≠ [] := by
  unfold paddedGroups hexGroups
  split
  · simp
  · simpa

theorem joinWith_paddedGroups (chunk : List UInt16) :
    joinWith colon (paddedGroups chunk) = fmtSubslice chunk := by
  unfold paddedGroups fmtSubslice
  split
  · rename_i empty
    simp [empty, joinWith]
  · rfl

/-- What the colons of an address's text separate. -/
def textGroups (segments : List UInt16) : List Bytes :=
  let span := zeroes segments
  if 1 < span.len then
    paddedGroups (segments.take span.start) ++
      [] :: paddedGroups (segments.drop (span.start + span.len))
  else
    hexGroups segments

theorem segmentsText_eq_joinWith (segments : List UInt16) :
    segmentsText segments = joinWith colon (textGroups segments) := by
  unfold segmentsText textGroups
  dsimp only
  split
  · rw [joinWith_append (paddedGroups_ne_nil _) (by simp),
      joinWith_cons [] (paddedGroups_ne_nil _), joinWith_paddedGroups, joinWith_paddedGroups]
    simp
  · rfl

theorem colon_notMem_paddedGroups {group : Bytes}
    (member : group ∈ paddedGroups chunk) : colon ∉ group := by
  unfold paddedGroups hexGroups at member
  split at member
  · rw [List.mem_singleton.mp member]
    simp
  · rcases List.mem_map.mp member with ⟨segment, -, rfl⟩
    exact colon_notMem_hexGroup segment

theorem colon_notMem_textGroups {group : Bytes} (member : group ∈ textGroups segments) :
    colon ∉ group := by
  unfold textGroups at member
  dsimp only at member
  split at member
  · rcases List.mem_append.mp member with before | after
    · exact colon_notMem_paddedGroups before
    · rcases List.mem_cons.mp after with rfl | after
      · simp
      · exact colon_notMem_paddedGroups after
  · rcases List.mem_map.mp member with ⟨segment, -, rfl⟩
    exact colon_notMem_hexGroup segment

theorem textGroups_ne_nil (nonempty : segments ≠ []) : textGroups segments ≠ [] := by
  unfold textGroups hexGroups
  dsimp only
  split
  · simp
  · simpa

theorem takeWhile_hexGroups (chunk : List UInt16) (rest : List Bytes) :
    (hexGroups chunk ++ [] :: rest).takeWhile (· ≠ []) = hexGroups chunk := by
  have nonempty : ∀ group ∈ hexGroups chunk, decide (group ≠ []) = true := by
    intro group member
    rcases List.mem_map.mp member with ⟨segment, -, rfl⟩
    simpa using hexGroup_ne_nil segment
  rw [List.takeWhile_append_of_pos nonempty]
  simp

/-- The groups before the run are those before the first empty group. -/
theorem takeWhile_paddedGroups (chunk : List UInt16) (rest : List Bytes) :
    (paddedGroups chunk ++ [] :: rest).takeWhile (· ≠ []) = hexGroups chunk := by
  unfold paddedGroups
  split
  · rename_i empty
    simp [empty, hexGroups]
  · exact takeWhile_hexGroups chunk rest

theorem reverse_paddedGroups (chunk : List UInt16) :
    (paddedGroups chunk).reverse = paddedGroups chunk.reverse := by
  unfold paddedGroups hexGroups
  simp only [List.reverse_eq_nil_iff]
  split <;> simp

end Groups

section Injective

variable {first second : List UInt16} {segments : List UInt16}

theorem hexGroups_injective : Function.Injective hexGroups :=
  List.map_injective_iff.mpr hexGroup_injective

theorem nil_notMem_hexGroups (chunk : List UInt16) : [] ∉ hexGroups chunk := by
  intro member
  rcases List.mem_map.mp member with ⟨segment, -, empty⟩
  exact hexGroup_ne_nil segment empty

/-- The groups on both sides of the run are read off the text. -/
theorem parts_eq_of_groups_eq {before after otherBefore otherAfter : List UInt16}
    (same : paddedGroups before ++ [] :: paddedGroups after =
      paddedGroups otherBefore ++ [] :: paddedGroups otherAfter) :
    before = otherBefore ∧ after = otherAfter := by
  have fronts := congrArg (List.takeWhile (· ≠ [])) same
  rw [takeWhile_paddedGroups, takeWhile_paddedGroups] at fronts
  have backs := congrArg (fun groups => (List.reverse groups).takeWhile (· ≠ [])) same
  simp only [List.reverse_append, List.reverse_cons, List.append_assoc, List.singleton_append,
    reverse_paddedGroups, takeWhile_paddedGroups] at backs
  exact ⟨hexGroups_injective fronts, List.reverse_injective (hexGroups_injective backs)⟩

theorem textGroups_inj (sameLength : first.length = second.length)
    (same : textGroups first = textGroups second) : first = second := by
  have firstCovers := zeroes_covers first
  have secondCovers := zeroes_covers second
  unfold textGroups at same
  dsimp only at same
  split_ifs at same with firstRun secondRun secondRun
  · rcases parts_eq_of_groups_eq same with ⟨befores, afters⟩
    have firstSplit := firstCovers.split
    have secondSplit := secondCovers.split
    rw [befores, afters] at firstSplit
    have lengths := congrArg List.length firstSplit
    have otherLengths := congrArg List.length secondSplit
    simp only [List.length_append, List.length_replicate] at lengths otherLengths
    have runs : (zeroes first).len = (zeroes second).len := by omega
    rw [runs] at firstSplit
    exact firstSplit.trans secondSplit.symm
  · have empty : [] ∈ hexGroups second := by
      rw [← same]
      simp
    exact absurd empty (nil_notMem_hexGroups second)
  · have empty : [] ∈ hexGroups first := by
      rw [same]
      simp
    exact absurd empty (nil_notMem_hexGroups first)
  · exact hexGroups_injective same

theorem segmentsText_inj (sameLength : first.length = second.length)
    (nonempty : first ≠ []) (same : segmentsText first = segmentsText second) :
    first = second := by
  have secondNe : second ≠ [] := by
    intro empty
    rw [empty, List.length_nil, List.length_eq_zero_iff] at sameLength
    exact nonempty sameLength
  rw [segmentsText_eq_joinWith, segmentsText_eq_joinWith] at same
  exact textGroups_inj sameLength
    (joinWith_inj (textGroups_ne_nil nonempty) (textGroups_ne_nil secondNe)
      (fun _ member => colon_notMem_textGroups member)
      (fun _ member => colon_notMem_textGroups member) same)

theorem octet_range {octet : UInt8} (member : byte ∈ digitText 10 octet.toNat) :
    48 ≤ byte ∧ byte ≤ 57 ∨ 97 ≤ byte ∧ byte ≤ 102 :=
  digitText_range (by decide) (by decide) member

theorem ipv4Text_inj {a b c d a' b' c' d' : UInt8}
    (same : ipv4Text a b c d = ipv4Text a' b' c' d') :
    a = a' ∧ b = b' ∧ c = c' ∧ d = d' := by
  have dotFree : ∀ octets : List UInt8,
      ∀ field ∈ octets.map (fun octet => digitText 10 octet.toNat), dot ∉ field := by
    intro octets field member inside
    rcases List.mem_map.mp member with ⟨octet, -, rfl⟩
    rcases octet_range inside with ⟨lower, -⟩ | ⟨lower, -⟩ <;> exact absurd lower (by decide)
  have octets := joinWith_inj (by simp) (by simp) (dotFree _) (dotFree _) same
  have injective : Function.Injective fun octet : UInt8 => digitText 10 octet.toNat := by
    intro first second equal
    exact UInt8.toNat_inj.mp (digitText_injective (by decide) (by decide) equal)
  simpa using List.map_injective_iff.mpr injective octets

theorem dot_mem_ipv4Text (a b c d : UInt8) : dot ∈ ipv4Text a b c d := by
  unfold ipv4Text
  rw [List.map_cons, joinWith_cons _ (by simp)]
  simp

theorem colon_notMem_ipv4Text (a b c d : UInt8) : colon ∉ ipv4Text a b c d := by
  intro member
  rcases mem_joinWith member with isDot | ⟨field, fieldMem, inside⟩
  · exact absurd isDot (by decide)
  · rcases List.mem_map.mp fieldMem with ⟨octet, -, rfl⟩
    rcases octet_range inside with ⟨-, upper⟩ | ⟨lower, -⟩
    · exact absurd upper (by decide)
    · exact absurd lower (by decide)

theorem fmtSubslice_range (member : byte ∈ fmtSubslice chunk) :
    byte = colon ∨ (48 ≤ byte ∧ byte ≤ 57) ∨ (97 ≤ byte ∧ byte ≤ 102) := by
  rcases mem_joinWith member with isColon | ⟨field, fieldMem, inside⟩
  · exact Or.inl isColon
  · rcases List.mem_map.mp fieldMem with ⟨segment, -, rfl⟩
    exact Or.inr (hexGroup_range inside)

theorem segmentsText_range (member : byte ∈ segmentsText segments) :
    byte = colon ∨ (48 ≤ byte ∧ byte ≤ 57) ∨ (97 ≤ byte ∧ byte ≤ 102) := by
  unfold segmentsText at member
  dsimp only at member
  split at member
  · simp only [List.mem_append, List.mem_cons, List.not_mem_nil, or_false] at member
    rcases member with (before | isColon | isColon) | after
    · exact fmtSubslice_range before
    · exact Or.inl isColon
    · exact Or.inl isColon
    · exact fmtSubslice_range after
  · exact fmtSubslice_range member

theorem dot_notMem_segmentsText (segments : List UInt16) : dot ∉ segmentsText segments := by
  intro member
  rcases segmentsText_range member with isColon | ⟨lower, -⟩ | ⟨lower, -⟩
  · exact absurd isColon (by decide)
  · exact absurd lower (by decide)
  · exact absurd lower (by decide)

/-- The segment whose two bytes are `high` and `low`. -/
def segmentOf (high low : UInt8) : UInt16 :=
  UInt16.ofNat (high.toNat * 256 + low.toNat)

theorem segmentOf_halves (segment : UInt16) :
    segmentOf (segment >>> 8).toUInt8 segment.toUInt8 = segment := by
  apply UInt16.toNat_inj.mp
  have bound := segment.toNat_lt
  have shifted : (segment >>> 8).toNat = segment.toNat / 256 := by
    simp [Nat.shiftRight_eq_div_pow]
  simp only [segmentOf, UInt16.toNat_ofNat', UInt16.toNat_toUInt8]
  omega

/-- An IPv4-mapped address is named by the address it maps. -/
theorem toIpv4Mapped_eq_some {a b c d : UInt8}
    (mapped : toIpv4Mapped segments = some (a, b, c, d)) :
    segments = [0, 0, 0, 0, 0, 0xffff, segmentOf a b, segmentOf c d] := by
  unfold toIpv4Mapped at mapped
  split at mapped
  · rcases mapped with ⟨rfl, rfl, rfl, rfl⟩
    rw [segmentOf_halves, segmentOf_halves]
  · exact absurd mapped (by simp)

theorem dot_mem_ipv6Text_iff (segments : List UInt16) :
    dot ∈ ipv6Text segments ↔ (toIpv4Mapped segments).isSome := by
  unfold ipv6Text
  split
  · rename_i mapped
    simp [mapped, dot_mem_ipv4Text]
  · rename_i mapped
    simp [mapped, dot_notMem_segmentsText]

theorem ipv6Text_inj (sameLength : first.length = second.length)
    (nonempty : first ≠ []) (same : ipv6Text first = ipv6Text second) : first = second := by
  have mappedAlike : (toIpv4Mapped first).isSome ↔ (toIpv4Mapped second).isSome := by
    rw [← dot_mem_ipv6Text_iff, ← dot_mem_ipv6Text_iff, same]
  unfold ipv6Text at same
  split at same
  · rename_i a b c d firstMapped
    rw [firstMapped] at mappedAlike
    split at same
    · rename_i a' b' c' d' secondMapped
      rcases ipv4Text_inj (List.append_cancel_left same) with ⟨rfl, rfl, rfl, rfl⟩
      rw [toIpv4Mapped_eq_some firstMapped, toIpv4Mapped_eq_some secondMapped]
    · rename_i secondMapped
      simp [secondMapped] at mappedAlike
  · rename_i firstMapped
    rw [firstMapped] at mappedAlike
    split at same
    · rename_i secondMapped
      simp [secondMapped] at mappedAlike
    · exact segmentsText_inj sameLength nonempty same

theorem colon_mem_fmtSubslice (long : 1 < chunk.length) :
    colon ∈ fmtSubslice chunk := by
  rcases chunk with _ | ⟨first, _ | ⟨second, rest⟩⟩
  · simp at long
  · simp at long
  · unfold fmtSubslice
    rw [List.map_cons, joinWith_cons _ (by simp)]
    simp

theorem colon_mem_ipv6Text (long : 1 < segments.length) : colon ∈ ipv6Text segments := by
  unfold ipv6Text
  split
  · rw [List.mem_append]
    exact Or.inl (by decide +kernel)
  · unfold segmentsText
    dsimp only
    split
    · simp
    · exact colon_mem_fmtSubslice long

theorem ipText_injective : Function.Injective ipText := by
  intro first second same
  cases first with
  | v4 a b c d =>
      cases second with
      | v4 =>
          rcases ipv4Text_inj same with ⟨rfl, rfl, rfl, rfl⟩
          rfl
      | v6 =>
          refine absurd ?_ (colon_notMem_ipv4Text a b c d)
          rw [show ipv4Text a b c d = _ from same]
          exact colon_mem_ipv6Text (by simp)
  | v6 =>
      cases second with
      | v4 a b c d =>
          refine absurd ?_ (colon_notMem_ipv4Text a b c d)
          rw [← show _ = ipv4Text a b c d from same]
          exact colon_mem_ipv6Text (by simp)
      | v6 =>
          have segments := ipv6Text_inj (by simp) (by simp) same
          simpa using segments

/-- Every byte of an address's text is a digit, a letter, a dot or a colon. -/
theorem dot_le_of_mem_ipText {address : IpAddr} (member : byte ∈ ipText address) :
    46 ≤ byte := by
  have v4 : ∀ a b c d, byte ∈ ipv4Text a b c d → 46 ≤ byte := by
    intro a b c d inside
    rcases mem_joinWith inside with rfl | ⟨field, fieldMem, within⟩
    · decide
    · rcases List.mem_map.mp fieldMem with ⟨octet, -, rfl⟩
      rcases octet_range within with ⟨lower, -⟩ | ⟨lower, -⟩
      · exact UInt8.le_trans (show 46 ≤ 48 by decide) lower
      · exact UInt8.le_trans (show 46 ≤ 97 by decide) lower
  cases address with
  | v4 a b c d => exact v4 a b c d member
  | v6 =>
      simp only [ipText, ipv6Text] at member
      split at member
      · rcases List.mem_append.mp member with lead | inside
        · have leading : ∀ byte ∈ ofText "::ffff:", 46 ≤ byte := by decide +kernel
          exact leading byte lead
        · exact v4 _ _ _ _ inside
      · rcases segmentsText_range member with rfl | ⟨lower, -⟩ | ⟨lower, -⟩
        · decide
        · exact UInt8.le_trans (show 46 ≤ 48 by decide) lower
        · exact UInt8.le_trans (show 46 ≤ 97 by decide) lower

theorem ipv4Text_length (a b c d : UInt8) :
    3 ≤ (ipv4Text a b c d).length ∧ (ipv4Text a b c d).length ≤ 16 := by
  have bounded : ∀ field ∈ ([a, b, c, d] : List UInt8).map (fun octet => digitText 10 octet.toNat),
      field.length ≤ 3 := by
    intro field member
    rcases List.mem_map.mp member with ⟨octet, -, rfl⟩
    have octetLt := octet.toNat_lt
    exact digitText_length_le (by decide) (by decide) (by omega)
  have upper := joinWith_length_le dot bounded
  have lower := joinWith_length_ge dot
    (([a, b, c, d] : List UInt8).map fun octet => digitText 10 octet.toNat)
  simp only [List.length_map, List.length_cons, List.length_nil] at upper lower
  unfold ipv4Text
  omega

theorem fmtSubslice_length (chunk : List UInt16) :
    chunk.length ≤ (fmtSubslice chunk).length + 1 ∧
      (fmtSubslice chunk).length ≤ 5 * chunk.length := by
  have bounded : ∀ field ∈ chunk.map (fun segment => digitText 16 segment.toNat),
      field.length ≤ 4 := by
    intro field member
    rcases List.mem_map.mp member with ⟨segment, -, rfl⟩
    exact digitText_length_le (by decide) (by decide) (by simpa using segment.toNat_lt)
  have upper := joinWith_length_le colon bounded
  have lower := joinWith_length_ge colon
    (chunk.map fun segment => digitText 16 segment.toNat)
  rw [List.length_map] at upper lower
  exact ⟨lower, upper⟩

theorem segmentsText_length (eight : segments.length = 8) :
    2 ≤ (segmentsText segments).length ∧ (segmentsText segments).length ≤ 40 := by
  have inside := (zeroes_covers segments).inside
  unfold segmentsText
  dsimp only
  split
  · have before := (fmtSubslice_length (segments.take (zeroes segments).start)).2
    have after := (fmtSubslice_length
      (segments.drop ((zeroes segments).start + (zeroes segments).len))).2
    rw [List.length_take] at before
    rw [List.length_drop] at after
    simp only [List.length_append, List.length_cons, List.length_nil]
    omega
  · have whole := fmtSubslice_length segments
    omega

theorem ipText_length (address : IpAddr) :
    2 ≤ (ipText address).length ∧ (ipText address).length ≤ 40 := by
  cases address with
  | v4 a b c d =>
      have bounds := ipv4Text_length a b c d
      simp only [ipText]
      omega
  | v6 =>
      simp only [ipText, ipv6Text]
      split
      · rename_i a b c d _
        have bounds := ipv4Text_length a b c d
        have lead : (ofText "::ffff:").length = 7 := by decide +kernel
        rw [List.length_append]
        omega
      · exact segmentsText_length (by simp)

end Injective

end Propolis
