import Propolis.Lib.Bytes
import Propolis.Scoring.Engine
import Mathlib.Data.Finmap
import Mathlib.Logic.Function.Basic

/-!
# The ledger and its projection tables

The four tables the append paths write: the append-only `event` ledger, the
`ip_score` projection and the two breadth sets `ip_vantage` and `ip_sensor`.

A row of `event` holds what the columns can hold.  `observed_at` is a
`TIMESTAMPTZ`, a number of microseconds; `confidence` is a `NUMERIC(4,3)`, a
number of thousandths, and a stored zero comes back without its scale.  Every
other column returns what was written.  Ids come from a sequence: they are
positive, a later row has a larger one, and a rolled back insert leaves a gap
(`Ledger.draw`).
-/

namespace Propolis

/-- The cast of an unsigned integer to `i32`. -/
def asI32 (value : ℕ) : ℤ :=
  ((value : ℤ) + 2147483648) % 4294967296 - 2147483648

/-- A row of `event`.  A `prev_hash` that is no digest equals no row's hash. -/
structure EventRow where
  id : ℕ
  sourceIp : IpAddr
  wanIp : Option IpAddr
  sensor : String
  signalType : SignalType
  protocol : Protocol
  authenticated : Bool
  category : Category
  weight : ℤ
  confidence : ℤ
  observedAt : ℤ
  metadata : Json
  prevHash : Option Digest
  hash : Digest
  sessionId : Option (BitVec 128)

/-- The row the `INSERT` statements write for an event and its chain link. -/
def eventRow (id : ℕ) (event : EventInput) (prevHash : Option Digest) (hash : Digest) :
    EventRow :=
  { id, sourceIp := event.sourceIp, wanIp := event.wanIp, sensor := event.sensor,
    signalType := event.signalType, protocol := event.protocol,
    authenticated := event.authenticated, category := event.category,
    weight := asI32 event.weight, confidence := (event.confidence.rescale 3).mantissa,
    observedAt := event.observedAt / 1000, metadata := event.metadata, prevHash, hash,
    sessionId := event.sessionId }

/-- `NUMERIC(4,3)` as it is decoded: a zero has lost its scale. -/
def decodeConfidence (thousandths : ℤ) : Decimal :=
  if thousandths = 0 then ⟨0, 0⟩ else ⟨thousandths, 3⟩

theorem decodeConfidence_rescale (thousandths : ℤ) :
    (decodeConfidence thousandths).rescale 3 = ⟨thousandths, 3⟩ := by
  simp only [decodeConfidence]
  split_ifs with zero
  · subst zero
    simp [Decimal.rescale]
  · exact Decimal.rescale_of_scale_eq rfl

/-- `observed_at` as it is decoded, in nanoseconds. -/
def EventRow.observed (row : EventRow) : ℤ :=
  row.observedAt * 1000

/-- The event a row stands for, read back from its columns. -/
def reconstructEvent (row : EventRow) : EventInput :=
  { sourceIp := row.sourceIp, wanIp := row.wanIp, sensor := row.sensor,
    signalType := row.signalType, protocol := row.protocol,
    authenticated := row.authenticated, category := row.category, weight := asU32 row.weight,
    confidence := (decodeConfidence row.confidence).rescale 3, observedAt := row.observed,
    metadata := row.metadata, sessionId := none }

/-- The `event` table in id order, with the sequence its ids are drawn from. -/
structure Ledger where
  rows : List EventRow
  nextId : ℕ
  ordered : rows.Pairwise (·.id < ·.id)
  positive : ∀ row ∈ rows, 0 < row.id
  below : ∀ row ∈ rows, row.id < nextId
  nextPositive : 0 < nextId

namespace Ledger

@[ext]
theorem ext {first second : Ledger} (rows : first.rows = second.rows)
    (nextId : first.nextId = second.nextId) : first = second := by
  cases second
  cases rows
  cases nextId
  rfl

def empty : Ledger where
  rows := []
  nextId := 1
  ordered := List.Pairwise.nil
  positive := by simp
  below := by simp
  nextPositive := one_pos

/-- The sequence moves on by `count` without a row being kept. -/
def draw (ledger : Ledger) (count : ℕ) : Ledger where
  rows := ledger.rows
  nextId := ledger.nextId + count
  ordered := ledger.ordered
  positive := ledger.positive
  below row member := (ledger.below row member).trans_le (Nat.le_add_right _ _)
  nextPositive := Nat.add_pos_left ledger.nextPositive _

/-- `INSERT INTO event`: the row takes the next id. -/
def insert (ledger : Ledger) (event : EventInput) (prevHash : Option Digest) (hash : Digest) :
    Ledger where
  rows := ledger.rows ++ [eventRow ledger.nextId event prevHash hash]
  nextId := ledger.nextId + 1
  ordered := by
    rw [List.pairwise_append]
    refine ⟨ledger.ordered, List.pairwise_singleton _ _, ?_⟩
    intro row member new isNew
    rw [List.mem_singleton.mp isNew]
    exact ledger.below row member
  positive := by
    intro row member
    rcases List.mem_append.mp member with old | new
    · exact ledger.positive row old
    · rw [List.mem_singleton.mp new]
      exact ledger.nextPositive
  below := by
    intro row member
    rcases List.mem_append.mp member with old | new
    · exact (ledger.below row old).trans (Nat.lt_succ_self _)
    · rw [List.mem_singleton.mp new]
      exact Nat.lt_succ_self _
  nextPositive := Nat.succ_pos _

variable (ledger : Ledger) (event : EventInput) (prevHash : Option Digest) (hash : Digest)

@[simp]
theorem insert_rows :
    (ledger.insert event prevHash hash).rows =
      ledger.rows ++ [eventRow ledger.nextId event prevHash hash] := rfl

/-- `SELECT hash FROM event ORDER BY id DESC LIMIT 1`. -/
def head (ledger : Ledger) : Option Digest :=
  ledger.rows.getLast?.map (·.hash)

@[simp]
theorem insert_head : (ledger.insert event prevHash hash).head = some hash := by
  simp [head, eventRow]

/-- The rows before a freshly inserted one are those with a smaller id. -/
theorem filter_id_lt_insert :
    (ledger.insert event prevHash hash).rows.filter (·.id < ledger.nextId) = ledger.rows := by
  rw [insert_rows, List.filter_append]
  have old : ledger.rows.filter (·.id < ledger.nextId) = ledger.rows := by
    rw [List.filter_eq_self]
    intro row member
    simpa using ledger.below row member
  rw [old]
  simp [eventRow]

end Ledger

/-- `ip_vantage` for one source: a WAN address and whether it saw authenticated TCP. -/
abbrev VantageTable := Finmap fun _ : IpAddr => Bool

structure Db where
  event : Ledger
  ipScore : IpAddr → Option IpScore
  ipVantage : IpAddr → VantageTable
  ipSensor : IpAddr → Finset String

def Db.empty : Db :=
  ⟨Ledger.empty, fun _ => none, fun _ => ∅, fun _ => ∅⟩

/-- The `ON CONFLICT` clause both paths use: write only when the flag turns true. -/
def upsertVantage (table : VantageTable) (wan : IpAddr) (flag : Bool) : VantageTable :=
  match table.lookup wan with
  | none => table.insert wan flag
  | some old => if flag && !old then table.insert wan (old || flag) else table

def vantageRows (table : VantageTable) : Finset WanVantage :=
  table.keys.image fun wan => ⟨wan, (table.lookup wan).getD false⟩

/-- The upsert of a projection leaves an existing row's `delisted` alone. -/
def upsertScore (stored : Option IpScore) (score : IpScore) : IpScore :=
  match stored with
  | none => score
  | some old => { score with delisted := old.delisted }

/-- `MAX(observed_at)` over the rows of one source and signal. -/
def dedupPrior (rows : List EventRow) (sourceIp : IpAddr) (signalType : SignalType) : Option ℤ :=
  ((rows.filter fun row => row.sourceIp = sourceIp ∧ row.signalType = signalType).map
    (·.observed)).max?

/-- The dedup window, symmetric in time. -/
def isDeduped (observedAt : ℤ) (prior : Option ℤ) : Bool :=
  prior.any fun seen => |secondsSince observedAt seen| ≤ dedupWindowSeconds

/-- The event saw an authenticated TCP connection. -/
def EventInput.authenticatedTcp (event : EventInput) : Bool :=
  event.protocol == .tcp && event.authenticated

end Propolis
