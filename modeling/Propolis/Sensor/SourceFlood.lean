import Propolis.Ledger.AddressText
import Propolis.Lib.Keyed
import Propolis.Sensor.Event

/-!
# The per-source budget for connection and login events

`SourceEventGate` (`sensor-framework/source_flood.rs`).  In every window an event is
written while its address, its network and the listener are within their budgets; past
them it is folded into the pending summary of its address, of its network where that
already holds its share of the table, or of the overflow where the table is full.

Times are counted from a fixed instant.  The tables are in the order of insertion, where
the source leaves the order open.  `folded` is a history variable: the events a summary
stands for, which nothing reads.  `sanitize_value` is a parameter.
-/

namespace Propolis

/-- `Value::as_str`. -/
def Json.asStr : Json → Option String
  | .string value => some value
  | _ => none

namespace Sensor

section Keys

/-- A source network: the /24 of an IPv4 address or the /56 of an IPv6 address. -/
inductive SourceKey where
  | v4 (a b c : UInt8)
  | v6 (o0 o1 o2 o3 o4 o5 o6 : UInt8)
  deriving DecidableEq

def SourceKey.ofIp : IpAddr → SourceKey
  | .v4 a b c _ => .v4 a b c
  | .v6 s0 s1 s2 s3 s4 s5 s6 s7 =>
      match toIpv4Mapped [s0, s1, s2, s3, s4, s5, s6, s7] with
      | some (a, b, c, _) => .v4 a b c
      | none => .v6 (s0 >>> 8).toUInt8 s0.toUInt8 (s1 >>> 8).toUInt8 s1.toUInt8
          (s2 >>> 8).toUInt8 s2.toUInt8 (s3 >>> 8).toUInt8

end Keys

section Config

structure SourceEventConfig where
  window : ℕ
  addressBudget : ℕ+
  networkBudget : ℕ+
  totalBudget : ℕ+
  addressCapacity : ℕ+
  networkAddressCap : ℕ+

/-- 50 ms, in nanoseconds. -/
def minWindow : ℕ := 50000000

/-- The budgets of a gate. -/
structure SourceEventGate where
  window : ℕ
  addressBudget : ℕ
  networkBudget : ℕ
  totalBudget : ℕ
  capacity : ℕ
  networkAddressCap : ℕ
  capPositive : 0 < networkAddressCap

/-- `SourceEventGate::new_at` without its state. -/
def SourceEventGate.new (config : SourceEventConfig) : SourceEventGate where
  window := max config.window minWindow
  addressBudget := config.addressBudget
  networkBudget := config.networkBudget
  totalBudget := config.totalBudget
  capacity := config.addressCapacity
  networkAddressCap := config.networkAddressCap
  capPositive := config.networkAddressCap.pos

end Config

section Events

inductive Kind where
  | connection | login
  deriving DecidableEq

def protoTcp : String := "tcp"

def signalHoneypotConnection : String := "honeypot_connection"

def signalHoneypotLoginAttempt : String := "honeypot_login_attempt"

def eventSummaryKey : String := "event_summary"

/-- Which budget an event is charged to; `none` where the gate does not govern it. -/
def Kind.of (event : SensorEvent) : Option Kind :=
  if event.protocol ≠ protoTcp ∨ (event.metadata.get eventSummaryKey).isSome then none
  else if event.signalType = signalHoneypotConnection then some .connection
  else if event.signalType = signalHoneypotLoginAttempt then some .login
  else none

inductive SourceAdmission where
  | logged | summarized
  deriving DecidableEq

/-- Whom a summary is about. -/
inductive SummaryScope where
  | address (key : SourceKey)
  | network (key : SourceKey)
  | overflow
  deriving DecidableEq

end Events

section Summaries

structure SourceSummary where
  scope : SummaryScope
  source : IpAddr
  sensor : String
  wanIp : Option IpAddr
  connections : ℕ
  attempts : ℕ
  clientVersions : List String
  clientVersionsCapped : Bool
  usernames : List String
  usernamesCapped : Bool
  firstSeen : ℕ
  lastSeen : ℕ
  sessions : ℕ
  sessionsCapped : Bool
  folded : List SensorEvent

def maxSummaryValues : ℕ := 8

def maxSummaryValueLen : ℕ := 128

def maxSummarySessions : ℕ := 32

/-- `u64::saturating_add`. -/
def saturatingAdd (left_ right_ : ℕ) : ℕ :=
  min (left_ + right_) (2 ^ 64 - 1)

/-- The events a summary says it stands for. -/
def SourceSummary.count (summary : SourceSummary) : ℕ :=
  saturatingAdd summary.connections summary.attempts

structure Pending where
  summary : SourceSummary
  sessionIds : List Uuid

def Pending.new (scope : SummaryScope) (event : SensorEvent) (now : ℕ) : Pending where
  summary :=
    { scope
      source := event.sourceIp
      sensor := event.sensor
      wanIp := event.wanIp
      connections := 0
      attempts := 0
      clientVersions := []
      clientVersionsCapped := false
      usernames := []
      usernamesCapped := false
      firstSeen := now
      lastSeen := now
      sessions := 0
      sessionsCapped := false
      folded := [] }
  sessionIds := []

variable (sanitize : String → ℕ → String)

/-- A value that is kept, and whether one was not for want of room. -/
def noteValue (into : List String) (capped : Bool) (value : Option Json) : List String × Bool :=
  match (value.bind Json.asStr).filter (· ≠ "") with
  | none => (into, capped)
  | some text =>
      let text := sanitize text maxSummaryValueLen
      if text ∈ into then (into, capped)
      else if into.length < maxSummaryValues then (into ++ [text], capped)
      else (into, true)

/-- The session of an event joins those of a summary. -/
def noteSession (ids : List Uuid) (capped : Bool) (session : Option Uuid) : List Uuid × Bool :=
  match session with
  | none => (ids, capped)
  | some id =>
      if id ∈ ids then (ids, capped)
      else if ids.length < maxSummarySessions then (ids ++ [id], capped)
      else (ids, true)

def Pending.fold (kind : Kind) (event : SensorEvent) (now : ℕ) (pending : Pending) : Pending :=
  let s := pending.summary
  let versions := noteValue sanitize s.clientVersions s.clientVersionsCapped
    (event.metadata.get "client_version")
  let usernames := noteValue sanitize s.usernames s.usernamesCapped (event.metadata.get "username")
  let sessions := noteSession pending.sessionIds s.sessionsCapped event.sessionId
  { summary :=
      { s with
        connections := if kind = .connection then saturatingAdd s.connections 1 else s.connections
        attempts := if kind = .login then saturatingAdd s.attempts 1 else s.attempts
        lastSeen := now
        clientVersions := versions.1
        clientVersionsCapped := versions.2
        usernames := usernames.1
        usernamesCapped := usernames.2
        sessions := sessions.1.length
        sessionsCapped := sessions.2
        folded := s.folded ++ [event] }
    sessionIds := sessions.1 }

end Summaries

section Gate

structure Address where
  written : Kind → ℕ := fun _ => 0
  pending : Option Pending := none

structure Network where
  written : Kind → ℕ := fun _ => 0
  addresses : ℕ := 0
  pending : Option Pending := none

structure GateState where
  started : ℕ
  total : Kind → ℕ := fun _ => 0
  networks : List (SourceKey × Network) := []
  addresses : List (IpAddr × Address) := []
  overflow : Option Pending := none
  ready : List SourceSummary := []
  dropped : ℕ := 0

/-- One more of a kind. -/
def bump (counts : Kind → ℕ) (kind : Kind) : Kind → ℕ :=
  Function.update counts kind (counts kind + 1)

/-- Every pending summary, in the order in which they are taken. -/
def GateState.pendings (state : GateState) : List Pending :=
  state.addresses.filterMap (·.2.pending) ++ state.networks.filterMap (·.2.pending) ++
    state.overflow.toList

namespace SourceEventGate

variable (sanitize : String → ℕ → String) (gate : SourceEventGate)

/-- One for every tracked address, one for every network that reached its share, the overflow. -/
def readyLimit : ℕ :=
  gate.capacity + gate.capacity / gate.networkAddressCap + 1

/-- Ended summaries wait for the writer; those that find no room are dropped. -/
def park : List Pending → GateState → GateState
  | [], state => state
  | pending :: rest, state =>
      park rest
        (if state.ready.length ≤ gate.readyLimit then
          { state with ready := state.ready ++ [pending.summary] }
        else { state with dropped := saturatingAdd state.dropped 1 })

/-- Whether the window is over. -/
def ends (now : ℕ) (state : GateState) : Bool :=
  state.started + gate.window ≤ now

def rotate (now : ℕ) (state : GateState) : GateState :=
  if gate.ends now state then
    gate.park state.pendings
      { state with
        started := now, total := fun _ => 0, addresses := [], networks := [], overflow := none }
  else state

/-- The end of `admit_at`: the budgets of a tracked address. -/
def charge (kind : Kind) (event : SensorEvent) (now : ℕ) (address : Address) (network : Network)
    (state : GateState) : SourceAdmission × GateState :=
  let key := SourceKey.ofIp event.sourceIp
  let first : Bool := address.written kind = 0
  if address.written kind < gate.addressBudget ∧ network.written kind < gate.networkBudget ∧
      (first ∨ state.total kind < gate.totalBudget) then
    (.logged,
      { state with
        addresses := Keyed.insert event.sourceIp
          { address with written := bump address.written kind } state.addresses
        networks := Keyed.insert key
          { network with written := bump network.written kind } state.networks
        total := if first then state.total else bump state.total kind })
  else
    let pending := address.pending.getD (.new (.address key) event now)
    (.summarized,
      { state with
        addresses := Keyed.insert event.sourceIp
          { address with pending := some (pending.fold sanitize kind event now) } state.addresses
        networks := Keyed.insert key network state.networks })

/-- `admit_at` behind the rotation. -/
def admitInWindow (kind : Kind) (event : SensorEvent) (now : ℕ) (state : GateState) :
    SourceAdmission × GateState :=
  let key := SourceKey.ofIp event.sourceIp
  let network := (state.networks.lookup key).getD {}
  match state.addresses.lookup event.sourceIp with
  | some address => gate.charge sanitize kind event now address network state
  | none =>
      if gate.capacity ≤ state.addresses.length then
        let pending := state.overflow.getD (.new .overflow event now)
        (.summarized, { state with overflow := some (pending.fold sanitize kind event now) })
      else if gate.networkAddressCap ≤ network.addresses then
        let pending := network.pending.getD (.new (.network key) event now)
        (.summarized,
          { state with
            networks := Keyed.insert key
              { network with pending := some (pending.fold sanitize kind event now) }
              state.networks })
      else
        gate.charge sanitize kind event now {}
          { network with addresses := network.addresses + 1 } state

def admitAt (event : SensorEvent) (now : ℕ) (state : GateState) : SourceAdmission × GateState :=
  match Kind.of event with
  | none => (.logged, state)
  | some kind => gate.admitInWindow sanitize kind event now (gate.rotate now state)

def takeDue (now : ℕ) (state : GateState) : List SourceSummary × GateState :=
  let rotated := gate.rotate now state
  (rotated.ready, { rotated with ready := [] })

/-- Every summary, ended or not; the budgets stay as they are. -/
def drain (state : GateState) : List SourceSummary × GateState :=
  (state.ready ++ state.pendings.map (·.summary),
    { state with
      ready := []
      addresses := state.addresses.map fun entry => (entry.1, { entry.2 with pending := none })
      networks := state.networks.map fun entry => (entry.1, { entry.2 with pending := none })
      overflow := none })

end SourceEventGate

end Gate

end Sensor

end Propolis
