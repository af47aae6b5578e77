import Propolis.Lib.Sha256
import Propolis.Ledger.Chain

/-!
# The ledger is tamper-evident

What an intact verification says about the rows.  The last hash of an intact
ledger commits to every hashed column of every row; a ledger with a changed,
a swapped or a deleted row is broken at the first row that was touched or behind
it.  The facts are those of any hash chain (`HashChain`); what this file adds is
that the encoding of stored rows separates the previous hash and the columns, as
far as the hash and the formatters separate the values at hand (`Separates`).
-/

namespace Propolis

open HashChain

/-- The columns the hash of a row covers, besides the hash of the row before. -/
structure HashedColumns where
  sourceIp : IpAddr
  wanIp : Option IpAddr
  sensor : String
  signalType : SignalType
  protocol : Protocol
  authenticated : Bool
  category : Category
  weight : ℤ
  confidence : ℤ
  observedAt : ℤ
  metadata : Json

def EventRow.hashedColumns (row : EventRow) : HashedColumns :=
  { sourceIp := row.sourceIp, wanIp := row.wanIp, sensor := row.sensor,
    signalType := row.signalType, protocol := row.protocol, authenticated := row.authenticated,
    category := row.category, weight := row.weight, confidence := row.confidence,
    observedAt := row.observedAt, metadata := row.metadata }

/-- What the table's types and `CHECK` constraints admit, and the size limits of the store. -/
structure EventRow.Admissible (forms : TextForms) (row : EventRow) : Prop where
  sensor : PlainSensor row.sensor
  weight : 0 ≤ row.weight ∧ row.weight < 2147483648
  confidence : 0 ≤ row.confidence ∧ row.confidence ≤ 1000
  observedAt : (forms.rfc3339 row.observed).length < 256 ^ 8
  metadata : (forms.json row.metadata).length < 256 ^ 8

structure Auditable (forms : TextForms) (rows : List EventRow) : Prop where
  inOrder : InIdOrder rows
  admissible : ∀ row ∈ rows, row.Admissible forms

/-- The string hashed for a row that names the hash of the row before it. -/
def EventRow.hashedBytes (forms : TextForms) (row : EventRow) : Bytes :=
  chainBytes forms row.prevHash (reconstructEvent row)

/-- The hash and the formatters are injective on what `rows` give them. -/
structure Separates (forms : TextForms) (sha256 : Bytes → Digest) (rows : List EventRow) :
    Prop where
  hash : ∀ row ∈ rows, ∀ other ∈ rows,
    sha256 (row.hashedBytes forms) = sha256 (other.hashedBytes forms) →
      row.hashedBytes forms = other.hashedBytes forms
  rfc3339 : ∀ row ∈ rows, ∀ other ∈ rows,
    forms.rfc3339 row.observed = forms.rfc3339 other.observed → row.observed = other.observed
  json : ∀ row ∈ rows, ∀ other ∈ rows,
    forms.json row.metadata = forms.json other.metadata → row.metadata = other.metadata

theorem Separates.subset {forms : TextForms} {sha256 : Bytes → Digest}
    {rows fewer : List EventRow} (separates : Separates forms sha256 rows)
    (subset : fewer ⊆ rows) : Separates forms sha256 fewer where
  hash row member other otherMember :=
    separates.hash row (subset member) other (subset otherMember)
  rfc3339 row member other otherMember :=
    separates.rfc3339 row (subset member) other (subset otherMember)
  json row member other otherMember :=
    separates.json row (subset member) other (subset otherMember)

section Columns

variable {forms : TextForms} {sha256 : Bytes → Digest} {row other : EventRow}

theorem EventRow.Admissible.fieldsFit (admissible : row.Admissible forms) :
    FieldsFit forms (reconstructEvent row) := by
  have confidence := admissible.confidence
  refine ⟨admissible.sensor.size.trans (by decide), ?_, ?_, admissible.observedAt,
    admissible.metadata⟩
  · simp only [reconstructEvent, asU32]
    omega
  · have magnitude : row.confidence.natAbs / 10 ^ 3 < 10 ^ 1 := by omega
    have whole := Bytes.digitText_length_le (by decide) one_pos magnitude
    simp only [reconstructEvent, decodeConfidence_rescale, decimalText, magnitudeText,
      if_neg confidence.1.not_gt, List.nil_append, List.length_append,
      if_neg (show 3 ≠ 0 by decide), List.length_cons, Bytes.fixedDigits_length]
    omega

theorem hashedColumns_eq_of_reconstructEvent (admissible : row.Admissible forms)
    (otherAdmissible : other.Admissible forms)
    (same : reconstructEvent row = reconstructEvent other) :
    row.hashedColumns = other.hashedColumns := by
  have weight := admissible.weight
  have otherWeight := otherAdmissible.weight
  simp only [reconstructEvent, EventInput.mk.injEq, decodeConfidence_rescale, Decimal.mk.injEq,
    EventRow.observed, asU32, and_true] at same
  rcases same with ⟨sourceIp, wanIp, sensor, signalType, protocol, authenticated, category,
    weights, confidence, observedAt, metadata⟩
  simp only [EventRow.hashedColumns, HashedColumns.mk.injEq]
  exact ⟨sourceIp, wanIp, sensor, signalType, protocol, authenticated, category, by omega,
    confidence, by omega, metadata⟩

/-- On admissible rows the link determines the previous hash and the hashed columns. -/
theorem Separates.binds {rows : List EventRow} (separates : Separates forms sha256 rows)
    (admissible : ∀ row ∈ rows, row.Admissible forms) (member : row ∈ rows)
    (otherMember : other ∈ rows)
    (same : (chainView forms sha256).link row.prevHash row =
      (chainView forms sha256).link other.prevHash other) :
    row.prevHash = other.prevHash ∧ row.hashedColumns = other.hashedColumns := by
  have rowAdmissible := admissible row member
  have otherAdmissible := admissible other otherMember
  rcases chainBytes_inj rowAdmissible.sensor otherAdmissible.sensor
    (separates.hash row member other otherMember same) with ⟨prevs, codes⟩
  refine ⟨prevs, hashedColumns_eq_of_reconstructEvent rowAdmissible otherAdmissible ?_⟩
  exact canonicalBytes_inj rowAdmissible.fieldsFit otherAdmissible.fieldsFit
    (separates.rfc3339 row member other otherMember) (separates.json row member other otherMember)
    codes

end Columns

section Evidence

variable {forms : TextForms} {sha256 : Bytes → Digest} {rows : List EventRow} {index : ℕ}
  {row changed : EventRow}

theorem InIdOrder.sublist {fewer : List EventRow} (inOrder : InIdOrder rows)
    (sublist : fewer.Sublist rows) : InIdOrder fewer :=
  ⟨inOrder.ordered.sublist sublist, fun row member => inOrder.positive row (sublist.subset member)⟩

theorem InIdOrder.of_ids {other : List EventRow} (inOrder : InIdOrder rows)
    (sameIds : other.map (·.id) = rows.map (·.id)) : InIdOrder other := by
  constructor
  · have ordered := List.pairwise_map.mpr inOrder.ordered
    rw [← sameIds] at ordered
    exact List.pairwise_map.mp ordered
  · intro row member
    have isId : row.id ∈ rows.map (·.id) := sameIds ▸ List.mem_map_of_mem member
    rcases List.mem_map.mp isId with ⟨original, originalMember, same⟩
    rw [← same]
    exact inOrder.positive original originalMember

theorem map_id_set (here : rows[index]? = some row)
    (sameId : changed.id = row.id) : (rows.set index changed).map (·.id) = rows.map (·.id) := by
  rcases List.getElem?_eq_some_iff.mp here with ⟨inside, isRow⟩
  simp only [List.map_set, sameId, ← isRow]
  rw [← List.getElem_map (fun row : EventRow => row.id) (h := by simpa using inside)]
  exact List.set_getElem_self _

/-- A broken ledger that starts as an intact one did is reported from the first changed row on. -/
theorem broken_from {front back : List EventRow} {first : EventRow} (batch : ℤ)
    (inOrder : InIdOrder (front ++ first :: back))
    (linked : Linked (chainView forms sha256) none front)
    (broken : ¬Linked (chainView forms sha256) none (front ++ first :: back)) :
    ∃ bad, first.id ≤ bad ∧
      verifyChainInBatches forms sha256 (front ++ first :: back) batch = .broken bad := by
  rcases firstBad_of_not_linked linked broken with ⟨bad, member, found⟩
  refine ⟨bad.id, ?_, ?_⟩
  · rcases List.mem_cons.mp member with rfl | later
    · exact le_refl _
    · have ordered := (List.pairwise_append.mp inOrder.ordered).2.1
      exact ((List.pairwise_cons.mp ordered).1 bad later).le
  · rw [verifyChainInBatches_eq inOrder, found]
    rfl

theorem eq_split (here : rows[index]? = some row) :
    rows = rows.take index ++ row :: rows.drop (index + 1) := by
  rcases List.getElem?_eq_some_iff.mp here with ⟨inside, isRow⟩
  rw [← isRow, List.cons_getElem_drop_succ, List.take_append_drop]

theorem set_eq_split (here : rows[index]? = some row) (changed : EventRow) :
    rows.set index changed = rows.take index ++ changed :: rows.drop (index + 1) := by
  rcases List.getElem?_eq_some_iff.mp here with ⟨inside, -⟩
  rw [List.set_eq_take_append_cons_drop, if_pos inside]

theorem linked_take (linked : Linked (chainView forms sha256) none rows) (index : ℕ) :
    Linked (chainView forms sha256) none (rows.take index) := by
  rw [← List.take_append_drop index rows, linked_append] at linked
  exact linked.1

theorem rows_agree_of_same_last {first second : List EventRow}
    (firstAuditable : Auditable forms first) (secondAuditable : Auditable forms second)
    (separates : Separates forms sha256 (first ++ second))
    (firstLinked : Linked (chainView forms sha256) none first)
    (secondLinked : Linked (chainView forms sha256) none second)
    (sameLength : first.length = second.length)
    (sameLast : tip (chainView forms sha256) none first =
      tip (chainView forms sha256) none second) :
    List.Forall₂ (fun row other => row.prevHash = other.prevHash ∧ row.hash = other.hash ∧
      row.hashedColumns = other.hashedColumns) first second := by
  have admissible : ∀ row ∈ first ++ second, row.Admissible forms := by
    exact List.forall_mem_append.mpr ⟨firstAuditable.admissible, secondAuditable.admissible⟩
  refine firstLinked.forall₂ secondLinked (fun row member other otherMember same => ?_)
    sameLength sameLast
  exact separates.binds admissible (List.mem_append_left _ member)
    (List.mem_append_right _ otherMember) same

/-- The last hash of a changed ledger is the old one unless it was changed itself. -/
theorem tip_set (here : rows[index]? = some row)
    (kept : index + 1 < rows.length ∨ changed.hash = row.hash) :
    tip (chainView forms sha256) none (rows.set index changed) =
      tip (chainView forms sha256) none rows := by
  have sameTail : tip (chainView forms sha256) (some changed.hash) (rows.drop (index + 1)) =
      tip (chainView forms sha256) (some row.hash) (rows.drop (index + 1)) := by
    rcases kept with notLast | sameHash
    · rw [← List.cons_getElem_drop_succ (h := notLast)]
      rfl
    · rw [sameHash]
  rw [set_eq_split here, tip_append]
  conv_rhs => rw [eq_split here, tip_append]
  exact sameTail

theorem changed_broken (batch : ℤ)
    (auditable : Auditable forms rows) (changedAdmissible : changed.Admissible forms)
    (separates : Separates forms sha256 (rows ++ rows.set index changed))
    (linked : Linked (chainView forms sha256) none rows) (here : rows[index]? = some row)
    (sameId : changed.id = row.id) (kept : index + 1 < rows.length ∨ changed.hash = row.hash)
    (differs : changed.hashedColumns ≠ row.hashedColumns) :
    ∃ bad, row.id ≤ bad ∧
      verifyChainInBatches forms sha256 (rows.set index changed) batch = .broken bad := by
  have inOrder : InIdOrder (rows.set index changed) :=
    auditable.inOrder.of_ids (map_id_set here sameId)
  have changedAuditable : Auditable forms (rows.set index changed) := by
    refine ⟨inOrder, fun other member => ?_⟩
    rcases List.mem_or_eq_of_mem_set member with old | isChanged
    · exact auditable.admissible other old
    · rw [isChanged]
      exact changedAdmissible
  have broken : ¬Linked (chainView forms sha256) none (rows.set index changed) := by
    intro relinked
    have agree := rows_agree_of_same_last auditable changedAuditable separates linked relinked
      (by simp) (tip_set here kept).symm
    rcases List.getElem?_eq_some_iff.mp here with ⟨inside, isRow⟩
    have columns := ((List.forall₂_iff_get.mp agree).2 index inside (by simpa using inside)).2.2
    simp only [List.get_eq_getElem, isRow, List.getElem_set_self] at columns
    exact differs columns.symm
  rw [set_eq_split here] at inOrder broken ⊢
  rw [← sameId]
  exact broken_from batch inOrder (linked_take linked index) broken

section Moved

variable {later : ℕ} {moved : EventRow} (auditable : Auditable forms rows)
  (separates : Separates forms sha256 rows) (linked : Linked (chainView forms sha256) none rows)
  (here : rows[index]? = some row)
include auditable separates linked here

/-- A row that has taken an earlier row's place does not name the row before that place. -/
theorem not_linked_of_moved {place : EventRow} {back : List EventRow} (before : index < later)
    (there : rows[later]? = some moved) (samePrev : place.prevHash = moved.prevHash) :
    ¬Linked (chainView forms sha256) none (rows.take index ++ place :: back) := by
  intro relinked
  have named : row.prevHash = tip (chainView forms sha256) none (rows.take index) := by
    rw [eq_split here, linked_append] at linked
    exact linked.2.1.1
  have placed : place.prevHash = tip (chainView forms sha256) none (rows.take index) :=
    (linked_append.mp relinked).2.1.1
  refine linked.prev_ne (fun first firstMem second secondMem same =>
    (separates.binds auditable.admissible firstMem secondMem same).1) before here there ?_
  exact named.trans (placed.symm.trans samePrev)

theorem swapped_broken (batch : ℤ) (before : index < later) (there : rows[later]? = some moved) :
    ∃ bad, row.id ≤ bad ∧
      verifyChainInBatches forms sha256
        ((rows.set later { row with id := moved.id }).set index { moved with id := row.id })
        batch = .broken bad := by
  have stillHere : (rows.set later { row with id := moved.id })[index]? = some row := by
    rw [List.getElem?_set_ne (by omega)]
    exact here
  have laterInOrder : InIdOrder (rows.set later { row with id := moved.id }) :=
    auditable.inOrder.of_ids (map_id_set there rfl)
  have inOrder : InIdOrder
      ((rows.set later { row with id := moved.id }).set index { moved with id := row.id }) :=
    laterInOrder.of_ids (map_id_set stillHere rfl)
  have split := set_eq_split stillHere { moved with id := row.id }
  rw [List.take_set_of_le (by omega)] at split
  rw [split] at inOrder ⊢
  exact broken_from batch inOrder (linked_take linked index)
    (not_linked_of_moved auditable separates linked here before there rfl)

theorem deleted_broken {next : EventRow} (batch : ℤ)
    (there : rows[index + 1]? = some next) :
    ∃ bad, next.id ≤ bad ∧
      verifyChainInBatches forms sha256 (rows.eraseIdx index) batch = .broken bad := by
  rcases List.getElem?_eq_some_iff.mp there with ⟨inside, isNext⟩
  have inOrder : InIdOrder (rows.eraseIdx index) :=
    auditable.inOrder.sublist (List.eraseIdx_sublist rows index)
  have split : rows.eraseIdx index = rows.take index ++ next :: rows.drop (index + 1 + 1) := by
    rw [List.eraseIdx_eq_take_drop_succ, ← isNext, List.cons_getElem_drop_succ]
  rw [split] at inOrder ⊢
  exact broken_from batch inOrder (linked_take linked index)
    (not_linked_of_moved auditable separates linked here (Nat.lt_succ_self index) there rfl)

end Moved

end Evidence

/--
The chain is sound: whatever the append paths were called with, the ledger they
leave verifies for every page size.  And it is tamper-evident, for rows the table
admits and as far as the hash and the formatters separate their values: equal
last hashes of intact ledgers of one length mean equal hashed columns, and a
change, a swap or a deletion is reported at the first row it touches or later.
-/
theorem chain_sound_and_tamperEvident (forms : TextForms) (sha256 : Bytes → Digest) :
    (∀ (decay : ℚ → ℤ → ℤ → ℚ) (calls : List Call) (batch : ℤ),
      verifyChainInBatches forms sha256 (run decay (chainHash forms sha256) calls).event.rows
        batch = .intact) ∧
    (∀ (first second : List EventRow) (batch otherBatch : ℤ), Auditable forms first →
      Auditable forms second → Separates forms sha256 (first ++ second) →
      verifyChainInBatches forms sha256 first batch = .intact →
      verifyChainInBatches forms sha256 second otherBatch = .intact →
      first.length = second.length →
      first.getLast?.map (·.hash) = second.getLast?.map (·.hash) →
      List.Forall₂ (fun row other => row.prevHash = other.prevHash ∧ row.hash = other.hash ∧
        row.hashedColumns = other.hashedColumns) first second) ∧
    ∀ (rows : List EventRow) (batch : ℤ), Auditable forms rows →
      verifyChainInBatches forms sha256 rows batch = .intact →
      (∀ (index : ℕ) (row changed : EventRow), rows[index]? = some row →
        changed.Admissible forms → Separates forms sha256 (rows ++ rows.set index changed) →
        changed.id = row.id → (index + 1 < rows.length ∨ changed.hash = row.hash) →
        changed.hashedColumns ≠ row.hashedColumns →
        ∃ bad, row.id ≤ bad ∧
          verifyChainInBatches forms sha256 (rows.set index changed) batch = .broken bad) ∧
      (Separates forms sha256 rows →
        (∀ (index later : ℕ) (row moved : EventRow), index < later → rows[index]? = some row →
          rows[later]? = some moved →
          ∃ bad, row.id ≤ bad ∧
            verifyChainInBatches forms sha256
              ((rows.set later { row with id := moved.id }).set index { moved with id := row.id })
              batch = .broken bad) ∧
        ∀ (index : ℕ) (row next : EventRow), rows[index]? = some row →
          rows[index + 1]? = some next →
          ∃ bad, next.id ≤ bad ∧
            verifyChainInBatches forms sha256 (rows.eraseIdx index) batch = .broken bad) := by
  refine ⟨?_, ?_, ?_⟩
  · intro decay calls batch
    exact (verifyChainInBatches_eq_intact (Ledger.inIdOrder _) batch).mpr (run_linked decay calls)
  · intro first second batch otherBatch firstAuditable secondAuditable separates firstIntact
      secondIntact sameLength sameLast
    have firstLinked :=
      (verifyChainInBatches_eq_intact firstAuditable.inOrder batch).mp firstIntact
    have secondLinked :=
      (verifyChainInBatches_eq_intact secondAuditable.inOrder otherBatch).mp secondIntact
    apply rows_agree_of_same_last firstAuditable secondAuditable separates firstLinked secondLinked
      sameLength
    rw [tip_eq_getLast?, tip_eq_getLast?]
    exact sameLast
  · intro rows batch auditable intact
    have linked := (verifyChainInBatches_eq_intact auditable.inOrder batch).mp intact
    refine ⟨?_, fun separates => ⟨?_, ?_⟩⟩
    · intro index row changed here admissible separates sameId kept differs
      exact changed_broken batch auditable admissible separates linked here sameId kept differs
    · intro index later row moved before here there
      exact swapped_broken auditable separates linked here batch before there
    · intro index row next here there
      exact deleted_broken auditable separates linked here batch there

/-- The texts of the epoch and of `null`. -/
def epochForms : TextForms where
  rfc3339 _ := Bytes.ofText "1970-01-01T00:00:00+00:00"
  json _ := Bytes.ofText "null"

def epochScan : EventInput :=
  normalizeEvent (.fromSignal (.v4 203 0 113 7) none "sensor-a" .portScan .tcp false 0 .null none)

def firstScan : EventRow :=
  eventRow 1 epochScan none (chainHash epochForms sha256 none epochScan)

def secondScan : EventRow :=
  eventRow 2 epochScan (some firstScan.hash)
    (chainHash epochForms sha256 (some firstScan.hash) epochScan)

theorem scans_linked : Linked (chainView epochForms sha256) none [firstScan, secondScan] := by
  have first : chainHash epochForms sha256 none (reconstructEvent firstScan) = firstScan.hash := by
    rw [show reconstructEvent firstScan = epochScan from rfl]
    simp only [firstScan, eventRow]
  have second : chainHash epochForms sha256 (some firstScan.hash) (reconstructEvent secondScan) =
      secondScan.hash := by
    rw [show reconstructEvent secondScan = epochScan from rfl]
    simp only [secondScan, eventRow]
  have named : secondScan.prevHash = some firstScan.hash := by simp only [secondScan, eventRow]
  simp only [Linked, chainView]
  exact ⟨⟨rfl, first⟩, ⟨named, second⟩, trivial⟩

theorem scans_admissible (scan : EventRow)
    (member : scan ∈ [firstScan, secondScan, { firstScan with weight := 80 }]) :
    scan.Admissible epochForms := by
  simp only [List.mem_cons, List.not_mem_nil, or_false] at member
  rcases member with rfl | rfl | rfl
  all_goals exact ⟨⟨by decide +kernel, by decide +kernel, by decide +kernel⟩, by decide +kernel,
    by decide +kernel, by decide +kernel, by decide +kernel⟩

theorem scans_separate :
    Separates epochForms sha256 [firstScan, secondScan, { firstScan with weight := 80 }] := by
  have distinct : ([firstScan, secondScan, { firstScan with weight := 80 }].map fun scan =>
      sha256 (scan.hashedBytes epochForms)).Nodup := by decide +kernel
  refine ⟨?_, by decide +kernel, ?_⟩
  · intro row member other otherMember same
    rw [List.inj_on_of_nodup_map distinct member otherMember same]
  · intro row member other otherMember _
    have null : ∀ scan ∈ [firstScan, secondScan, { firstScan with weight := 80 }],
        scan.metadata = .null := by
      simp [firstScan, secondScan, eventRow, epochScan, normalizeEvent, EventInput.fromSignal]
    rw [null row member, null other otherMember]

/-- Two port scans chained with SHA-256; the weight of the first one is raised. -/
theorem chain_reports_raised_weight :
    ∃ bad, 1 ≤ bad ∧
      verifyChainInBatches epochForms sha256 [{ firstScan with weight := 80 }, secondScan] 5000 =
        .broken bad := by
  have auditable : Auditable epochForms [firstScan, secondScan] := by
    refine ⟨⟨by decide +kernel, by decide +kernel⟩, fun scan member => ?_⟩
    exact scans_admissible scan (by simp at member ⊢; tauto)
  have separates : Separates epochForms sha256
      ([firstScan, secondScan] ++ [{ firstScan with weight := 80 }, secondScan]) :=
    scans_separate.subset (by simp)
  exact ((chain_sound_and_tamperEvident epochForms sha256).2.2 [firstScan, secondScan] 5000
    auditable ((verifyChainInBatches_eq_intact auditable.inOrder 5000).mpr scans_linked)).1
    0 firstScan { firstScan with weight := 80 } rfl (scans_admissible _ (by simp)) separates rfl
    (Or.inl (by decide)) (fun same => absurd (congrArg HashedColumns.weight same) (by decide))

end Propolis
