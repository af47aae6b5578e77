import Mathlib
import Propolis.Lib.Run
import Propolis.Sensor.SourceFlood

/-!
# The gate neither loses nor floods

A run of the gate is a list of its calls.  Every governed event of a run was logged, was
folded into a summary that a call returned, or waits in one that the next drain returns.
The tables bound what a window logs and how many summaries are made when it ends: a
network has a summary only where it holds its share of the table.
-/

namespace Propolis.Sensor

section Summaries

/-- The events of a kind. -/
def countOf (kind : Kind) (events : List SensorEvent) : ℕ :=
  events.countP fun event => Kind.of event = some kind

/-- Whether an event may stand in a summary of this scope. -/
def SourceSummary.Covers (summary : SourceSummary) (event : SensorEvent) : Prop :=
  match summary.scope with
  | .address _ => event.sourceIp = summary.source
  | .network key => SourceKey.ofIp event.sourceIp = key
  | .overflow => True

/-- The counters say what was folded, as far as 64 bits go. -/
structure SourceSummary.Faithful (summary : SourceSummary) : Prop where
  connections : summary.connections = min (countOf .connection summary.folded) (2 ^ 64 - 1)
  attempts : summary.attempts = min (countOf .login summary.folded) (2 ^ 64 - 1)
  governed : ∀ event ∈ summary.folded, (Kind.of event).isSome
  covers : ∀ event ∈ summary.folded, summary.Covers event

theorem countOf_both {events : List SensorEvent}
    (governed : ∀ event ∈ events, (Kind.of event).isSome) :
    countOf .connection events + countOf .login events = events.length := by
  induction events with
  | nil => rfl
  | cons event rest ih =>
      rcases List.forall_mem_cons.mp governed with ⟨here, others⟩
      have later := ih others
      simp only [countOf, List.countP_cons] at later ⊢
      rcases found : Kind.of event with _ | kind
      · simp [found] at here
      · cases kind <;> simp <;> omega

theorem SourceSummary.Faithful.count {summary : SourceSummary} (faithful : summary.Faithful) :
    summary.count = min summary.folded.length (2 ^ 64 - 1) := by
  have both := countOf_both faithful.governed
  rw [SourceSummary.count, saturatingAdd, faithful.connections, faithful.attempts]
  omega

/-- A pending summary that is faithful and may take the events of its owner. -/
def Tells (whose : SensorEvent → Prop) (pending : Option Pending) : Prop :=
  ∀ held ∈ pending, held.summary.Faithful ∧ ∀ event, whose event → held.summary.Covers event

theorem tells_none (whose : SensorEvent → Prop) : Tells whose none := by
  intro held member
  cases member

theorem faithful_new (scope : SummaryScope) (event : SensorEvent) (now : ℕ) :
    (Pending.new scope event now).summary.Faithful := by
  constructor <;> simp [Pending.new, countOf]

variable (sanitize : String → ℕ → String)

theorem faithful_fold {kind : Kind} {event : SensorEvent} {pending : Pending}
    (faithful : pending.summary.Faithful) (governed : Kind.of event = some kind)
    (covered : pending.summary.Covers event) (now : ℕ) :
    (pending.fold sanitize kind event now).summary.Faithful := by
  constructor
  case connections =>
    have before := faithful.connections
    cases kind <;> simp [Pending.fold, countOf, governed, saturatingAdd] at before ⊢
      <;> omega
  case attempts =>
    have before := faithful.attempts
    cases kind <;> simp [Pending.fold, countOf, governed, saturatingAdd] at before ⊢
      <;> omega
  case governed =>
    exact List.forall_mem_append.mpr ⟨faithful.governed, by simp [governed]⟩
  case covers =>
    exact List.forall_mem_append.mpr
      ⟨faithful.covers, List.forall_mem_singleton.mpr covered⟩

/-- The summary an event is folded into, an open one or a new one. -/
theorem Tells.fold {whose : SensorEvent → Prop} {pending : Option Pending} {kind : Kind}
    {event : SensorEvent} (tells : Tells whose pending) (governed : Kind.of event = some kind)
    (own : whose event) (scope : SummaryScope) (now : ℕ)
    (fresh : ∀ other, whose other → (Pending.new scope event now).summary.Covers other) :
    Tells whose
      (some ((pending.getD (.new scope event now)).fold sanitize kind event now)) := by
  have held : (pending.getD (.new scope event now)).summary.Faithful ∧
      ∀ other, whose other → (pending.getD (.new scope event now)).summary.Covers other := by
    cases pending with
    | none => exact ⟨faithful_new scope event now, fresh⟩
    | some open_ => exact tells open_ rfl
  intro folded member
  cases member
  exact ⟨faithful_fold sanitize held.1 governed (held.2 event own) now, held.2⟩

/-- The events of a pending summary. -/
def heldBy (pending : Option Pending) : Multiset SensorEvent :=
  pending.elim 0 fun held => held.summary.folded

theorem heldBy_fold (pending : Option Pending) (scope : SummaryScope) (kind : Kind)
    (event : SensorEvent) (now : ℕ) :
    heldBy (some ((pending.getD (.new scope event now)).fold sanitize kind event now)) =
      heldBy pending + {event} := by
  cases pending with
  | none => rfl
  | some open_ => exact (Multiset.coe_add _ _).symm

/-- The events of some summaries. -/
def foldedOf (summaries : List SourceSummary) : Multiset SensorEvent :=
  (summaries.map fun summary => (summary.folded : Multiset SensorEvent)).sum

@[simp] theorem foldedOf_nil : foldedOf [] = 0 := rfl

@[simp] theorem foldedOf_append (first second : List SourceSummary) :
    foldedOf (first ++ second) = foldedOf first + foldedOf second := by
  simp [foldedOf]

theorem foldedOf_filterMap {Entry : Type} (pending : Entry → Option Pending)
    (entries : List Entry) :
    foldedOf ((entries.filterMap pending).map (·.summary)) =
      (entries.map fun entry => heldBy (pending entry)).sum := by
  induction entries with
  | nil => rfl
  | cons entry rest ih =>
      rw [List.map_cons, List.sum_cons, ← ih]
      cases found : pending entry with
      | none => simp [heldBy, found]
      | some held => simp [heldBy, found, foldedOf]

end Summaries

namespace GateState

/-- What a drain returns. -/
def unreturned (state : GateState) : List SourceSummary :=
  state.ready ++ state.pendings.map (·.summary)

/-- The events of the pending summaries. -/
def held (state : GateState) : Multiset SensorEvent :=
  (state.addresses.map fun entry => heldBy entry.2.pending).sum +
    (state.networks.map fun entry => heldBy entry.2.pending).sum + heldBy state.overflow

theorem foldedOf_unreturned (state : GateState) :
    foldedOf state.unreturned = foldedOf state.ready + state.held := by
  have overflow : foldedOf (state.overflow.toList.map (·.summary)) = heldBy state.overflow := by
    cases state.overflow <;> simp [foldedOf, heldBy]
  simp only [unreturned, pendings, List.map_append, foldedOf_append, foldedOf_filterMap, overflow,
    held]

end GateState

variable {sanitize : String → ℕ → String} {gate : SourceEventGate} {kind : Kind}
  {event : SensorEvent} {now : ℕ} {state after : GateState} {admission : SourceAdmission}
  {ip : IpAddr} {address newAddress : Address} {network newNetwork : Network}

section Admission

variable (sanitize gate)

/-- The network of an address, as the table has it. -/
def GateState.networkOf (state : GateState) (ip : IpAddr) : Network :=
  (state.networks.lookup (SourceKey.ofIp ip)).getD {}

/-- An address that has or gets a place in the table, with its network. -/
inductive Seated (state : GateState) (ip : IpAddr) : Address → Network → Prop
  | tracked {address : Address} (found : state.addresses.lookup ip = some address) :
      Seated state ip address (state.networkOf ip)
  | fresh (absent : state.addresses.lookup ip = none)
      (room : state.addresses.length < gate.capacity)
      (share : (state.networkOf ip).addresses < gate.networkAddressCap) :
      Seated state ip {}
        { state.networkOf ip with addresses := (state.networkOf ip).addresses + 1 }

/-- The state with new entries for an address and its network. -/
def GateState.seat (state : GateState) (ip : IpAddr) (address : Address) (network : Network) :
    GateState :=
  { state with
    addresses := Keyed.insert ip address state.addresses
    networks := Keyed.insert (SourceKey.ofIp ip) network state.networks }

/-- Everything an event of a kind can do in its window. -/
inductive Admits (kind : Kind) (event : SensorEvent) (now : ℕ) (state : GateState) :
    SourceAdmission → GateState → Prop
  | overflowed (full : gate.capacity ≤ state.addresses.length) :
      Admits kind event now state .summarized
        { state with
          overflow := some ((state.overflow.getD (.new .overflow event now)).fold
            sanitize kind event now) }
  | refused (share : gate.networkAddressCap ≤ (state.networkOf event.sourceIp).addresses) :
      Admits kind event now state .summarized
        { state with
          networks := Keyed.insert (SourceKey.ofIp event.sourceIp)
            { state.networkOf event.sourceIp with
              pending := some (((state.networkOf event.sourceIp).pending.getD
                (.new (.network (SourceKey.ofIp event.sourceIp)) event now)).fold
                  sanitize kind event now) }
            state.networks }
  | logged {address : Address} {network : Network} {total : Kind → ℕ}
      (seated : Seated gate state event.sourceIp address network)
      (paid : (address.written kind = 0 ∧ total = state.total) ∨
        (address.written kind ≠ 0 ∧ state.total kind < gate.totalBudget ∧
          total = bump state.total kind)) :
      Admits kind event now state .logged
        { state.seat event.sourceIp { address with written := bump address.written kind }
            { network with written := bump network.written kind } with
          total }
  | folded {address : Address} {network : Network}
      (seated : Seated gate state event.sourceIp address network) :
      Admits kind event now state .summarized
        (state.seat event.sourceIp
          { address with
            pending := some ((address.pending.getD
              (.new (.address (SourceKey.ofIp event.sourceIp)) event now)).fold
                sanitize kind event now) }
          network)

variable {gate}

theorem charge_admits (seated : Seated gate state event.sourceIp address network) (kind : Kind)
    (now : ℕ) :
    Admits sanitize gate kind event now state
      (gate.charge sanitize kind event now address network state).1
      (gate.charge sanitize kind event now address network state).2 := by
  unfold SourceEventGate.charge
  by_cases unseen : address.written kind = 0
  · simp only [unseen, decide_true, if_true]
    split
    case isTrue => exact .logged seated (Or.inl ⟨unseen, rfl⟩)
    case isFalse => exact .folded seated
  · simp only [unseen, decide_false, Bool.false_eq_true, false_or]
    split
    case isTrue within => exact .logged seated (Or.inr ⟨unseen, within.2.2, rfl⟩)
    case isFalse => exact .folded seated

theorem admitInWindow_admits (gate : SourceEventGate) (kind : Kind) (event : SensorEvent) (now : ℕ)
    (state : GateState) :
    Admits sanitize gate kind event now state
      (gate.admitInWindow sanitize kind event now state).1
      (gate.admitInWindow sanitize kind event now state).2 := by
  unfold SourceEventGate.admitInWindow
  cases found : state.addresses.lookup event.sourceIp with
  | some address => exact charge_admits sanitize (.tracked found) kind now
  | none =>
      simp only
      split
      case isTrue full => exact .overflowed full
      case isFalse room =>
        split
        case isTrue share => exact .refused share
        case isFalse share =>
          exact charge_admits sanitize (.fresh found (by omega) (Nat.not_le.mp share)) kind now

end Admission

section Housing

/-- The tables fit together: every network counts its addresses, and has a summary only
where it holds its share. -/
structure Housed (gate : SourceEventGate) (state : GateState) : Prop where
  uniqueAddresses : Keyed.Unique state.addresses
  uniqueNetworks : Keyed.Unique state.networks
  shares : (state.networks.map fun entry => entry.2.addresses).sum = state.addresses.length
  within : state.addresses.length ≤ gate.capacity
  occupied : ∀ entry ∈ state.networks, 0 < entry.2.addresses
  full : ∀ entry ∈ state.networks,
    entry.2.pending.isSome → gate.networkAddressCap ≤ entry.2.addresses
  home : ∀ entry ∈ state.addresses, (state.networks.lookup (SourceKey.ofIp entry.1)).isSome

variable {networks : List (SourceKey × Network)}

theorem home_insert {key other : SourceKey}
    (home : (networks.lookup other).isSome) (network : Network) :
    ((Keyed.insert key network networks).lookup other).isSome := by
  rw [Keyed.lookup_insert]
  split
  case isTrue => rfl
  case isFalse => exact home

/-- Networks with a summary take up their share of the table each. -/
theorem shares_of_pending {share : ℕ}
    (full : ∀ entry ∈ networks, entry.2.pending.isSome → share ≤ entry.2.addresses) :
    (networks.filterMap (·.2.pending)).length * share ≤
      (networks.map fun entry => entry.2.addresses).sum := by
  induction networks with
  | nil => simp
  | cons entry rest ih =>
      rcases List.forall_mem_cons.mp full with ⟨here, others⟩
      have later := ih others
      rw [List.map_cons, List.sum_cons]
      cases found : entry.2.pending with
      | none =>
          simp only [List.filterMap_cons, found]
          omega
      | some held =>
          simp only [found, Option.isSome_some, true_implies] at here
          simp only [List.filterMap_cons, found, List.length_cons, Nat.add_mul]
          omega

variable (housed : Housed gate state)
include housed

theorem Housed.networkOf_full (pending : (state.networkOf ip).pending.isSome) :
    gate.networkAddressCap ≤ (state.networkOf ip).addresses := by
  unfold GateState.networkOf at pending ⊢
  cases found : state.networks.lookup (SourceKey.ofIp ip) with
  | none => simp [found] at pending
  | some network =>
      simp only [found] at pending
      exact housed.full _ (Keyed.mem_of_lookup found) pending

theorem Housed.networkOf_occupied (found : state.addresses.lookup ip = some address) :
    0 < (state.networkOf ip).addresses := by
  have present := housed.home _ (Keyed.mem_of_lookup found)
  rcases Option.isSome_iff_exists.mp present with ⟨network, held⟩
  rw [GateState.networkOf, held]
  exact housed.occupied _ (Keyed.mem_of_lookup held)

theorem shares_insert (ip : IpAddr) (network : Network) :
    ((Keyed.insert (SourceKey.ofIp ip) network state.networks).map
        fun entry => entry.2.addresses).sum + (state.networkOf ip).addresses =
      state.addresses.length + network.addresses := by
  rw [← housed.shares]
  exact Keyed.sum_insert_getD housed.uniqueNetworks _ (fun entry => entry.2.addresses) {} rfl
    network

theorem Housed.seat (seated : Seated gate state ip address network) (newAddress : Address)
    (sameShare : newNetwork.addresses = network.addresses)
    (samePending : newNetwork.pending = network.pending) :
    Housed gate (state.seat ip newAddress newNetwork) := by
  have sum := shares_insert housed ip newNetwork
  have counted : (state.seat ip newAddress newNetwork).addresses.length +
        (state.networkOf ip).addresses = state.addresses.length + newNetwork.addresses ∧
      (state.seat ip newAddress newNetwork).addresses.length ≤ gate.capacity ∧
      0 < newNetwork.addresses ∧
      (newNetwork.pending.isSome → gate.networkAddressCap ≤ newNetwork.addresses) := by
    rw [sameShare, samePending]
    cases seated with
    | tracked found =>
        have length := Keyed.length_insert_of_lookup housed.uniqueAddresses found newAddress
        rw [GateState.seat, length]
        exact ⟨rfl, housed.within, housed.networkOf_occupied found, housed.networkOf_full⟩
    | fresh absent room share =>
        have length := Keyed.length_insert_of_absent (Keyed.lookup_eq_none.mp absent) newAddress
        rw [GateState.seat, length]
        refine ⟨by simp only; omega, room, Nat.succ_pos _, ?_⟩
        intro pending
        exact (housed.networkOf_full pending).trans (Nat.le_succ _)
  rcases counted with ⟨length, within, occupied, full⟩
  constructor
  case uniqueAddresses => exact housed.uniqueAddresses.insert _ _
  case uniqueNetworks => exact housed.uniqueNetworks.insert _ _
  case shares =>
    simp only [GateState.seat] at length ⊢
    omega
  case within => exact within
  case occupied => exact Keyed.forall_insert housed.occupied occupied
  case full => exact Keyed.forall_insert housed.full full
  case home =>
    apply Keyed.forall_insert
    · intro entry member
      exact home_insert (housed.home entry member) _
    · simp [GateState.seat, Keyed.lookup_insert]

theorem Housed.refused
    (share : gate.networkAddressCap ≤ (state.networkOf ip).addresses) (pending : Option Pending) :
    Housed gate
      { state with
        networks := Keyed.insert (SourceKey.ofIp ip) { state.networkOf ip with pending }
          state.networks } := by
  have sum := shares_insert housed ip { state.networkOf ip with pending }
  have positive := gate.capPositive
  exact { housed with
    uniqueNetworks := housed.uniqueNetworks.insert _ _
    shares := Nat.add_right_cancel sum
    occupied := Keyed.forall_insert housed.occupied (positive.trans_le share)
    full := Keyed.forall_insert housed.full fun _ => share
    home := fun entry member => home_insert (housed.home entry member) _ }

theorem Housed.admits (admits : Admits sanitize gate kind event now state admission after) :
    Housed gate after := by
  cases admits with
  | overflowed full => exact { housed with }
  | refused share => exact housed.refused share _
  | @logged address network total seated paid =>
      have placed : Housed gate
          (state.seat event.sourceIp { address with written := bump address.written kind }
            { network with written := bump network.written kind }) :=
        housed.seat seated _ rfl rfl
      exact { placed with }
  | folded seated => exact housed.seat seated _ rfl rfl

theorem Housed.networks_le : state.networks.length ≤ state.addresses.length := by
  rw [← housed.shares, ← List.length_map fun entry : SourceKey × Network => entry.2.addresses]
  apply List.length_le_sum_of_one_le
  intro share member
  rcases List.mem_map.mp member with ⟨entry, inside, rfl⟩
  exact housed.occupied entry inside

theorem Housed.pendings_le : state.pendings.length ≤ gate.readyLimit := by
  have addresses : (state.addresses.filterMap (·.2.pending)).length ≤ gate.capacity :=
    (List.length_filterMap_le _ _).trans housed.within
  have networks : (state.networks.filterMap (·.2.pending)).length ≤
      gate.capacity / gate.networkAddressCap := by
    apply (Nat.le_div_iff_mul_le gate.capPositive).mpr
    calc (state.networks.filterMap (·.2.pending)).length * gate.networkAddressCap
        ≤ (state.networks.map fun entry => entry.2.addresses).sum := shares_of_pending housed.full
      _ = state.addresses.length := housed.shares
      _ ≤ gate.capacity := housed.within
  have overflow : state.overflow.toList.length ≤ 1 := by
    cases state.overflow <;> simp
  simp only [GateState.pendings, List.length_append, SourceEventGate.readyLimit]
  omega

end Housing

section Spending

/-- The events of a kind written in the window. -/
def GateState.written (state : GateState) (kind : Kind) : ℕ :=
  (state.addresses.map fun entry => entry.2.written kind).sum

/-- Those of them that were not the first of their address. -/
def GateState.repeats (state : GateState) (kind : Kind) : ℕ :=
  (state.addresses.map fun entry => entry.2.written kind - 1).sum

/-- The listener's budget pays for the repeats. -/
structure Spent (gate : SourceEventGate) (state : GateState) : Prop where
  repeats : ∀ kind, state.repeats kind = state.total kind
  within : ∀ kind, state.total kind ≤ gate.totalBudget

theorem written_le (state : GateState) (kind : Kind) :
    state.written kind ≤ state.repeats kind + state.addresses.length := by
  unfold GateState.written GateState.repeats
  induction state.addresses with
  | nil => simp
  | cons =>
      simp only [List.map_cons, List.sum_cons, List.length_cons]
      omega

theorem Seated.address_eq (seated : Seated gate state ip address network) :
    (state.addresses.lookup ip).getD {} = address := by
  cases seated with
  | tracked found => rw [found, Option.getD_some]
  | fresh absent => rw [absent, Option.getD_none]

@[simp] theorem bump_apply (counts : Kind → ℕ) (kind other : Kind) :
    bump counts kind other = counts other + if other = kind then 1 else 0 := by
  unfold bump
  by_cases same : other = kind <;> simp [same]

theorem Seated.pending_eq (seated : Seated gate state ip address network) :
    network.pending = (state.networkOf ip).pending := by
  cases seated <;> rfl

variable (housed : Housed gate state)
include housed

theorem Spent.written_le (spent : Spent gate state) :
    state.written .connection + state.written .login ≤
      2 * (gate.capacity + gate.totalBudget) := by
  have within := housed.within
  have most : ∀ kind, state.written kind ≤ gate.capacity + gate.totalBudget := by
    intro kind
    have bound := Sensor.written_le state kind
    have paid := spent.within kind
    rw [spent.repeats kind] at bound
    omega
  have connections := most .connection
  have logins := most .login
  omega

/-- A new entry of an address adds to a sum over the table what it adds to the address. -/
theorem Seated.sum_addresses {Weight : Type} [AddCancelCommMonoid Weight]
    (seated : Seated gate state ip address network)
    (weight : Address → Weight) (weightless : weight {} = 0) (newAddress : Address)
    {extra : Weight} (added : weight newAddress = weight address + extra) :
    ((Keyed.insert ip newAddress state.addresses).map fun entry => weight entry.2).sum =
      (state.addresses.map fun entry => weight entry.2).sum + extra := by
  apply Keyed.sum_insert_added housed.uniqueAddresses ip weight {} weightless
  rw [seated.address_eq, added]

/-- New entries of an address and its network add to the pending summaries what the address
adds. -/
theorem Seated.held (seated : Seated gate state ip address network) {extra : Multiset SensorEvent}
    (added : heldBy newAddress.pending = heldBy address.pending + extra)
    (kept : newNetwork.pending = network.pending) :
    (state.seat ip newAddress newNetwork).held = state.held + extra := by
  have addresses := seated.sum_addresses housed (fun entry => heldBy entry.pending) rfl _ added
  have still : heldBy newNetwork.pending = heldBy (state.networkOf ip).pending + 0 := by
    rw [kept, seated.pending_eq, add_zero]
  have networks := Keyed.sum_insert_added housed.uniqueNetworks (SourceKey.ofIp ip)
    (fun entry : Network => heldBy entry.pending) {} rfl newNetwork still
  simp only [GateState.held, GateState.seat, addresses, networks, add_zero]
  rw [add_right_comm _ extra, add_right_comm _ extra]

variable (admitted : Admits sanitize gate kind event now state admission after)
include admitted

theorem Spent.admits (spent : Spent gate state) : Spent gate after := by
  cases admitted with
  | overflowed | refused => exact { spent with }
  | @logged address network total seated paid =>
      have added : ∀ other, bump address.written kind other - 1 + state.total other =
          address.written other - 1 + total other := by
        intro other
        rcases paid with ⟨unseen, rfl⟩ | ⟨seen, -, rfl⟩
        · -- the first event of an address is no repeat
          by_cases same : other = kind
          · simp [same, unseen]
          · simp [same]
        · by_cases same : other = kind
          · subst other
            simp only [bump_apply]
            omega
          · simp [same]
      constructor
      case repeats =>
        intro other
        have sum := Keyed.sum_insert_getD housed.uniqueAddresses event.sourceIp
          (fun entry => entry.2.written other - 1) {} rfl
          { address with written := bump address.written kind }
        have before := spent.repeats other
        have here := added other
        simp only [seated.address_eq] at sum
        simp only [GateState.repeats, GateState.seat] at before ⊢
        omega
      case within =>
        intro other
        have before := spent.within other
        rcases paid with ⟨-, rfl⟩ | ⟨-, within, rfl⟩
        · exact before
        · by_cases same : other = kind
          · subst other
            simpa using Nat.succ_le_of_lt within
          · simpa [same] using before
  | @folded address network seated =>
      refine ⟨fun other => ?_, spent.within⟩
      have sum := fun pending =>
        seated.sum_addresses housed (fun entry => entry.written other - 1) rfl
          { address with pending } (add_zero _).symm
      exact (sum _).trans (spent.repeats other)

/-- A logged event is written once, a summarized one not. -/
theorem written_admits (other : Kind) :
    after.written other =
      state.written other + if admission = .logged ∧ other = kind then 1 else 0 := by
  cases admitted with
  | overflowed | refused => rfl
  | logged seated paid =>
      simp only [true_and]
      exact seated.sum_addresses housed (fun entry => entry.written other) rfl _
        (bump_apply _ _ _)
  | folded seated =>
      exact seated.sum_addresses housed (fun entry => entry.written other) rfl _ rfl

/-- A summarized event joins the pending summaries, a logged one does not. -/
theorem held_admits : after.held = state.held + if admission = .logged then 0 else {event} := by
  cases admitted with
  | overflowed full =>
      simp only [GateState.held, heldBy_fold]
      exact (add_assoc _ _ _).symm
  | refused share =>
      have networks := Keyed.sum_insert_added housed.uniqueNetworks
        (SourceKey.ofIp event.sourceIp) (fun entry : Network => heldBy entry.pending) {} rfl
        { state.networkOf event.sourceIp with pending := _ }
        (heldBy_fold sanitize (state.networkOf event.sourceIp).pending
          (.network (SourceKey.ofIp event.sourceIp)) kind event now)
      simp only [GateState.held]
      rw [networks, ← add_assoc, add_right_comm]
      rfl
  | logged seated paid => exact seated.held housed (add_zero _).symm rfl
  | folded seated => exact seated.held housed (heldBy_fold _ _ _ _ _ _) rfl

end Spending

section Truth

/-- Every summary is faithful, and a pending one may take the events of its owner. -/
structure Truthful (state : GateState) : Prop where
  addresses : ∀ entry ∈ state.addresses,
    Tells (fun event => event.sourceIp = entry.1) entry.2.pending
  networks : ∀ entry ∈ state.networks,
    Tells (fun event => SourceKey.ofIp event.sourceIp = entry.1) entry.2.pending
  overflow : Tells (fun _ => True) state.overflow
  ready : ∀ summary ∈ state.ready, summary.Faithful

variable (truthful : Truthful state)
include truthful

theorem Truthful.networkOf (ip : IpAddr) :
    Tells (fun event => SourceKey.ofIp event.sourceIp = SourceKey.ofIp ip)
      (state.networkOf ip).pending :=
  Keyed.forall_getD truthful.networks (tells_none _)

theorem Truthful.own (seated : Seated gate state ip address network) :
    Tells (fun event => event.sourceIp = ip) address.pending := by
  rw [← seated.address_eq]
  exact Keyed.forall_getD truthful.addresses (tells_none _)

theorem Truthful.seat (seated : Seated gate state ip address network)
    (tells : Tells (fun event => event.sourceIp = ip) newAddress.pending)
    (kept : newNetwork.pending = network.pending) :
    Truthful (state.seat ip newAddress newNetwork) := by
  refine { truthful with addresses := Keyed.forall_insert truthful.addresses tells, networks := ?_ }
  apply Keyed.forall_insert truthful.networks
  simp only [kept, seated.pending_eq]
  exact truthful.networkOf ip

theorem Truthful.admits (governed : Kind.of event = some kind)
    (admits : Admits sanitize gate kind event now state admission after) : Truthful after := by
  cases admits with
  | overflowed full =>
      have folded := truthful.overflow.fold sanitize governed trivial .overflow now
        fun _ _ => trivial
      exact { truthful with overflow := folded }
  | refused share =>
      have folded := (truthful.networkOf event.sourceIp).fold sanitize governed rfl
        (.network (SourceKey.ofIp event.sourceIp)) now fun _ same => same
      exact { truthful with networks := Keyed.forall_insert truthful.networks folded }
  | @logged address network total seated paid =>
      have own := truthful.own seated
      have placed : Truthful
          (state.seat event.sourceIp { address with written := bump address.written kind }
            { network with written := bump network.written kind }) :=
        truthful.seat seated own rfl
      exact { placed with }
  | folded seated =>
      have folded := (truthful.own seated).fold sanitize governed rfl
        (.address (SourceKey.ofIp event.sourceIp)) now fun _ same => same
      exact truthful.seat seated folded rfl

theorem Truthful.pendings : ∀ pending ∈ state.pendings, pending.summary.Faithful := by
  intro pending member
  simp only [GateState.pendings, List.mem_append, List.mem_filterMap, Option.mem_toList] at member
  rcases member with (⟨entry, inside, held⟩ | ⟨entry, inside, held⟩) | held
  · exact (truthful.addresses entry inside pending held).1
  · exact (truthful.networks entry inside pending held).1
  · exact (truthful.overflow pending held).1

theorem Truthful.unreturned : ∀ summary ∈ state.unreturned, summary.Faithful := by
  intro summary member
  rcases List.mem_append.mp member with ready | pending
  · exact truthful.ready summary ready
  · rcases List.mem_map.mp pending with ⟨held, inside, rfl⟩
    exact truthful.pendings held inside

end Truth

section Rotation

theorem park_eq (pendings : List Pending) (state : GateState)
    (room : state.ready.length + pendings.length ≤ gate.readyLimit + 1) :
    gate.park pendings state =
      { state with ready := state.ready ++ pendings.map (·.summary) } := by
  induction pendings generalizing state with
  | nil => simp [SourceEventGate.park]
  | cons pending rest ih =>
      simp only [List.length_cons] at room
      have fits : state.ready.length ≤ gate.readyLimit := by omega
      simp only [SourceEventGate.park, fits, if_true]
      rw [ih]
      · simp
      · simp only [List.length_append, List.length_singleton]
        omega

/-- A window that ends with nothing waiting for the writer leaves its summaries to it. -/
theorem rotate_of_ended (housed : Housed gate state) (taken : state.ready = [])
    (ended : gate.ends now state = true) :
    gate.rotate now state =
      { started := now, ready := state.pendings.map (·.summary), dropped := state.dropped } := by
  have room := housed.pendings_le
  rw [SourceEventGate.rotate, if_pos ended, park_eq]
  · simp [taken]
  · simp only [taken, List.length_nil]
    omega

variable (gate) (started : ℕ) (ready : List SourceSummary) (dropped : ℕ)

theorem housed_empty : Housed gate { started, ready, dropped } := by
  constructor <;> simp [Keyed.Unique]

theorem spent_empty : Spent gate { started, ready, dropped } := by
  constructor <;> simp [GateState.repeats]

end Rotation

section Runs

/-- The books of a window: the governed events logged in it, the drains in it and the
summaries made of the events folded in it. -/
structure WindowTally where
  logged : ℕ := 0
  drains : ℕ := 0
  produced : ℕ := 0

/-- A gate with the books of its calls.  `collected` says that `take_due` was called since
the last window ended. -/
structure GateRun where
  state : GateState
  collected : Bool := true
  governed : List SensorEvent := []
  logged : List SensorEvent := []
  returned : List SourceSummary := []
  window : WindowTally := {}
  ended : List WindowTally := []

/-- `SourceEventGate::new_at`. -/
def GateRun.newAt (now : ℕ) : GateRun where
  state := { started := now }

inductive GateCall where
  | admitAt (event : SensorEvent) (now : ℕ)
  | takeDue (now : ℕ)
  | drain

/-- The books of one governed event. -/
def GateRun.record (event : SensorEvent) (decided : SourceAdmission × GateState)
    (run : GateRun) : GateRun :=
  { run with
    state := decided.2
    governed := run.governed ++ [event]
    logged := if decided.1 = .logged then run.logged ++ [event] else run.logged
    window :=
      { run.window with
        logged := run.window.logged + if decided.1 = .logged then 1 else 0 } }

namespace SourceEventGate

variable (sanitize gate)

/-- The books are closed with the window. -/
def turn (now : ℕ) (run : GateRun) : GateRun :=
  if gate.ends now run.state then
    { run with
      state := gate.rotate now run.state
      collected := false
      window := {}
      ended := run.ended ++
        [{ run.window with produced := run.window.produced + run.state.pendings.length }] }
  else run

def step (run : GateRun) : GateCall → GateRun
  | .admitAt event now =>
      let decided := gate.admitAt sanitize event now run.state
      if (Kind.of event).isSome then (gate.turn now run).record event decided
      else { run with state := decided.2 }
  | .takeDue now =>
      let taken := gate.takeDue now run.state
      { gate.turn now run with
        state := taken.2, collected := true, returned := run.returned ++ taken.1 }
  | .drain =>
      let drained := drain run.state
      { run with
        state := drained.2
        returned := run.returned ++ drained.1
        window :=
          { run.window with
            drains := run.window.drains + 1
            produced := run.window.produced + run.state.pendings.length } }

/-- No window ends before the writer came for the summaries of the one before. -/
def collects (run : GateRun) : GateCall → Bool
  | .admitAt event now => (Kind.of event).isNone || !gate.ends now run.state || run.collected
  | .takeDue now => !gate.ends now run.state || run.collected
  | .drain => true

end SourceEventGate

variable {run : GateRun}

/-- What holds between any two calls. -/
structure Balanced (gate : SourceEventGate) (run : GateRun) : Prop where
  housed : Housed gate run.state
  spent : Spent gate run.state
  truthful : Truthful run.state
  taken : run.collected = true → run.state.ready = []
  undropped : run.state.dropped = 0
  returned : ∀ summary ∈ run.returned, summary.Faithful
  conserved : (run.governed : Multiset SensorEvent) =
    run.logged + foldedOf run.returned + foldedOf run.state.unreturned
  logged : run.window.logged = run.state.written .connection + run.state.written .login
  produced : run.window.produced ≤ gate.readyLimit * run.window.drains
  ended : ∀ tally ∈ run.ended, tally.logged ≤ 2 * (gate.capacity + gate.totalBudget) ∧
    tally.produced ≤ gate.readyLimit * (tally.drains + 1)
  counted : (run.ended.map (·.produced)).sum + run.window.produced =
    run.returned.length + run.state.ready.length

theorem Balanced.newAt (gate : SourceEventGate) (now : ℕ) : Balanced gate (.newAt now) where
  housed := housed_empty gate now [] 0
  spent := spent_empty gate now [] 0
  truthful := by constructor <;> simp [GateRun.newAt, Tells]
  taken _ := rfl
  undropped := rfl
  returned := by simp [GateRun.newAt]
  conserved := rfl
  logged := rfl
  produced := Nat.zero_le _
  ended := by simp [GateRun.newAt]
  counted := rfl

theorem turn_state (gate : SourceEventGate) (now : ℕ) (run : GateRun) :
    (gate.turn now run).state = gate.rotate now run.state := by
  unfold SourceEventGate.turn
  cases ended : gate.ends now run.state with
  | true => rfl
  | false => simp [SourceEventGate.rotate, ended]

theorem turn_returned (gate : SourceEventGate) (now : ℕ) (run : GateRun) :
    (gate.turn now run).returned = run.returned := by
  unfold SourceEventGate.turn
  split <;> rfl

/-- An event changes neither what waits for the writer nor the drops. -/
theorem Admits.untouched
    (admits : Admits sanitize gate kind event now state admission after) :
    after.ready = state.ready ∧ after.dropped = state.dropped := by
  cases admits <;> exact ⟨rfl, rfl⟩

theorem Housed.drain (housed : Housed gate state) :
    Housed gate (SourceEventGate.drain state).2 := by
  constructor <;> simp only [SourceEventGate.drain]
  case uniqueAddresses =>
    simpa [Keyed.Unique, List.map_map, Function.comp_def] using housed.uniqueAddresses
  case uniqueNetworks =>
    simpa [Keyed.Unique, List.map_map, Function.comp_def] using housed.uniqueNetworks
  case shares => simpa [List.map_map, Function.comp_def] using housed.shares
  case within => simpa using housed.within
  case occupied => exact List.forall_mem_map.mpr housed.occupied
  case full =>
    refine List.forall_mem_map.mpr fun entry member pending => ?_
    cases pending
  case home =>
    refine List.forall_mem_map.mpr fun entry member => ?_
    have kept := Keyed.lookup_map (fun network : Network => { network with pending := none })
      (SourceKey.ofIp entry.1) state.networks
    simp only [kept, Option.isSome_map]
    exact housed.home entry member

theorem Spent.drain (spent : Spent gate state) :
    Spent gate (SourceEventGate.drain state).2 := by
  refine ⟨fun kind => ?_, spent.within⟩
  have repeats := spent.repeats kind
  simpa [SourceEventGate.drain, GateState.repeats, List.map_map, Function.comp_def] using repeats

variable (balanced : Balanced gate run)
include balanced

theorem Balanced.turn (collects : gate.ends now run.state = true → run.collected = true) :
    Balanced gate (gate.turn now run) := by
  unfold SourceEventGate.turn
  split
  case isFalse => exact balanced
  case isTrue over_ =>
    have taken := balanced.taken (collects over_)
    have most := balanced.housed.pendings_le
    have rotated := rotate_of_ended balanced.housed taken over_
    constructor <;> simp only [rotated]
    case housed => exact housed_empty _ _ _ _
    case spent => exact spent_empty _ _ _ _
    case truthful =>
      constructor <;> simp only [List.not_mem_nil, false_implies, implies_true, tells_none]
      intro summary member
      exact balanced.truthful.unreturned summary (List.mem_append_right _ member)
    case taken => simp
    case undropped => exact balanced.undropped
    case returned => exact balanced.returned
    case conserved =>
      rw [balanced.conserved]
      simp [GateState.unreturned, GateState.pendings, taken]
    case logged => rfl
    case produced => exact Nat.zero_le _
    case ended =>
      intro tally member
      rcases List.mem_append.mp member with old | new
      · exact balanced.ended tally old
      · cases List.mem_singleton.mp new
        have produced := balanced.produced
        refine ⟨balanced.logged.trans_le (balanced.spent.written_le balanced.housed), ?_⟩
        simp only [Nat.mul_succ]
        omega
    case counted =>
      have counted := balanced.counted
      simp only [taken, List.length_nil] at counted
      simp only [List.map_append, List.map_cons, List.map_nil, List.sum_append, List.sum_cons,
        List.sum_nil, List.length_map]
      omega

theorem Balanced.record {decided : SourceAdmission × GateState}
    (governed : Kind.of event = some kind)
    (admits : Admits sanitize gate kind event now run.state decided.1 decided.2) :
    Balanced gate (run.record event decided) := by
  rcases admits.untouched with ⟨ready, dropped⟩
  refine { balanced with
    housed := balanced.housed.admits admits
    spent := balanced.spent.admits balanced.housed admits
    truthful := balanced.truthful.admits governed admits
    taken := ?_, undropped := dropped.trans balanced.undropped
    conserved := ?conserved, logged := ?logged, counted := ?_ } <;>
    simp only [GateRun.record, ready]
  · exact balanced.taken
  case conserved =>
    rw [GateState.foldedOf_unreturned, ready, held_admits balanced.housed admits,
      ← Multiset.coe_add, balanced.conserved, GateState.foldedOf_unreturned]
    cases decided.1 with
    | logged =>
        simp only [if_true, ← Multiset.coe_add, add_zero]
        rw [add_right_comm, add_right_comm _ (foldedOf run.returned)]
    | summarized =>
        simp [add_assoc]
  case logged =>
    have logged := balanced.logged
    rw [written_admits balanced.housed admits, written_admits balanced.housed admits]
    cases decided.1 <;> cases kind <;> simp <;> omega
  · exact balanced.counted

theorem Balanced.drain :
    Balanced gate (gate.step sanitize run .drain) := by
  have most := balanced.housed.pendings_le
  constructor <;> simp only [SourceEventGate.step]
  case housed => exact balanced.housed.drain
  case spent => exact balanced.spent.drain
  case truthful =>
    constructor
    case addresses => exact List.forall_mem_map.mpr fun _ _ => tells_none _
    case networks => exact List.forall_mem_map.mpr fun _ _ => tells_none _
    case overflow => exact tells_none _
    case ready =>
      intro summary member
      cases member
  case taken => exact fun _ => rfl
  case undropped => exact balanced.undropped
  case returned =>
    exact List.forall_mem_append.mpr ⟨balanced.returned, balanced.truthful.unreturned⟩
  case conserved =>
    have emptied : (SourceEventGate.drain run.state).2.unreturned = [] := by
      simp [GateState.unreturned, GateState.pendings, SourceEventGate.drain]
    rw [balanced.conserved, emptied, foldedOf_append, foldedOf_nil, add_zero, ← add_assoc]
    rfl
  case logged =>
    have logged := balanced.logged
    simpa [SourceEventGate.drain, GateState.written, List.map_map, Function.comp_def] using logged
  case produced =>
    have produced := balanced.produced
    rw [Nat.mul_succ]
    omega
  case ended => exact balanced.ended
  case counted =>
    have counted := balanced.counted
    simp only [SourceEventGate.drain, List.length_append, List.length_map, List.length_nil]
    omega

theorem Balanced.takeDue (collects : gate.ends now run.state = true → run.collected = true) :
    Balanced gate (gate.step sanitize run (.takeDue now)) := by
  have turned := balanced.turn collects
  constructor <;>
    simp only [SourceEventGate.step, SourceEventGate.takeDue, ← turn_state,
      ← turn_returned gate now run]
  case housed => exact { turned.housed with }
  case spent => exact { turned.spent with }
  case truthful => exact { turned.truthful with ready := by simp }
  case taken => exact fun _ => trivial
  case undropped => exact turned.undropped
  case returned =>
    exact List.forall_mem_append.mpr ⟨turned.returned, turned.truthful.ready⟩
  case conserved =>
    rw [turned.conserved, foldedOf_append, GateState.unreturned, foldedOf_append, add_assoc,
      add_assoc, add_assoc]
    rfl
  case logged => exact turned.logged
  case produced => exact turned.produced
  case ended => exact turned.ended
  case counted =>
    rw [List.length_append]
    exact turned.counted

theorem Balanced.step {call : GateCall}
    (collects : gate.collects run call = true) : Balanced gate (gate.step sanitize run call) := by
  cases call with
  | admitAt event now =>
      simp only [SourceEventGate.step, SourceEventGate.admitAt]
      cases governed : Kind.of event with
      | none => exact balanced
      | some kind =>
          have guard : gate.ends now run.state = true → run.collected = true := by
            simpa [SourceEventGate.collects, governed, Bool.or_eq_true, imp_iff_not_or]
              using collects
          apply (balanced.turn guard).record governed
          rw [turn_state]
          exact admitInWindow_admits sanitize gate kind event now _
  | takeDue now =>
      apply balanced.takeDue
      simpa [SourceEventGate.collects, imp_iff_not_or] using collects
  | drain => exact balanced.drain

theorem Balanced.calls {calls : List GateCall}
    (collects : Run.meets (gate.step sanitize) gate.collects run calls = true) :
    Balanced gate (calls.foldl (gate.step sanitize) run) :=
  Run.invariant_of_meets (Balanced gate) (fun _ _ guarded kept => kept.step guarded) balanced
    collects

end Runs

section Example

/-- A connection from 192.0.2.7. -/
def probe : SensorEvent where
  v := 1
  sourceIp := .v4 192 0 2 7
  wanIp := none
  sensor := "vnc"
  signalType := signalHoneypotConnection
  protocol := protoTcp
  authenticated := false
  observedAt := 0
  metadata := .object []
  sample := none
  sessionId := none
  occurrenceId := none
  reply := none

/-- Budgets and tables of one. -/
def tightConfig : SourceEventConfig where
  window := minWindow
  addressBudget := 1
  networkBudget := 1
  totalBudget := 1
  addressCapacity := 1
  networkAddressCap := 1

end Example

end Propolis.Sensor

namespace Propolis

open Sensor

/-- In every run in which the writer comes for the summaries of a window before the next
one ends, every governed event was logged or is counted in one summary, returned or still
to be returned by a drain; nothing is dropped, a summary counts the events of its address
or network only, up to what 64 bits hold, and logs, tables and summaries are bounded: those
that the end of a window or a drain within it makes, which are the pending ones, by one for
every tracked address, every network at its share and the overflow. -/
theorem source_gate_accounts (sanitize : String → ℕ → String) (config : SourceEventConfig)
    (now : ℕ) (calls : List GateCall)
    (collects : Run.meets ((SourceEventGate.new config).step sanitize)
      (SourceEventGate.new config).collects (.newAt now) calls = true) :
    let gate := SourceEventGate.new config
    let limit : ℕ := config.addressCapacity + config.addressCapacity / config.networkAddressCap + 1
    let run := calls.foldl (gate.step sanitize) (.newAt now)
    (run.governed : Multiset SensorEvent) =
        run.logged + foldedOf run.returned + foldedOf (SourceEventGate.drain run.state).1 ∧
      (∀ summary ∈ run.returned ++ (SourceEventGate.drain run.state).1,
        summary.Faithful ∧ summary.count = min summary.folded.length (2 ^ 64 - 1)) ∧
      run.state.dropped = 0 ∧
      (∀ tally ∈ run.window :: run.ended,
        tally.logged ≤ 2 * (config.addressCapacity + config.totalBudget)) ∧
      run.state.addresses.length ≤ config.addressCapacity ∧
      run.state.networks.length ≤ config.addressCapacity ∧
      run.state.pendings.length ≤ limit ∧
      run.window.produced ≤ limit * run.window.drains ∧
      (∀ tally ∈ run.ended, tally.produced ≤ limit * (tally.drains + 1)) ∧
      (run.ended.map (·.produced)).sum + run.window.produced =
        run.returned.length + run.state.ready.length := by
  intro gate limit run
  have balanced : Balanced gate run := (Balanced.newAt gate now).calls collects
  refine ⟨balanced.conserved, ?_, balanced.undropped, ?_, balanced.housed.within,
    balanced.housed.networks_le.trans balanced.housed.within, balanced.housed.pendings_le,
    balanced.produced, ?_, balanced.counted⟩
  · intro summary member
    have faithful : summary.Faithful := by
      rcases List.mem_append.mp member with returned | waiting
      · exact balanced.returned summary returned
      · exact balanced.truthful.unreturned summary waiting
    exact ⟨faithful, faithful.count⟩
  · intro tally member
    rcases List.mem_cons.mp member with rfl | ended
    · exact balanced.logged.trans_le (balanced.spent.written_le balanced.housed)
    · exact (balanced.ended tally ended).1
  · intro tally member
    exact (balanced.ended tally member).2

/-- Three connections of one address, the first logged, and a window that the writer ends. -/
theorem source_gate_accounts_probe :
    let calls : List GateCall :=
      [.admitAt probe 0, .admitAt probe 1, .admitAt probe 2, .takeDue minWindow]
    let gate := SourceEventGate.new tightConfig
    Run.meets (gate.step fun text _ => text) gate.collects (.newAt 0) calls = true ∧
      ((calls.foldl (gate.step fun text _ => text) (.newAt 0)).returned.map (·.count)) = [2] ∧
      (calls.foldl (gate.step fun text _ => text) (.newAt 0)).state.dropped = 0 :=
  ⟨by decide +kernel, by decide +kernel,
    (source_gate_accounts (fun text _ => text) tightConfig 0
      [.admitAt probe 0, .admitAt probe 1, .admitAt probe 2, .takeDue minWindow]
      (by decide +kernel)).2.2.1⟩

/-- Each drain opens the summaries of the window again: four of them in one window return
four summaries of one address, one more than address, network and overflow have. -/
theorem drained_window_repeats_summaries :
    let calls : List GateCall :=
      [.admitAt probe 0, .admitAt probe 1, .drain, .admitAt probe 2, .drain, .admitAt probe 3,
        .drain, .admitAt probe 4, .drain, .takeDue minWindow]
    let gate := SourceEventGate.new tightConfig
    let run := calls.foldl (gate.step fun text _ => text) (.newAt 0)
    Run.meets (gate.step fun text _ => text) gate.collects (.newAt 0) calls = true ∧
      run.ended.map (·.produced) = [4] ∧ run.returned.map (·.count) = [1, 1, 1, 1] ∧
      ¬ 4 ≤ (tightConfig.addressCapacity : ℕ) +
        tightConfig.addressCapacity / tightConfig.networkAddressCap + 1 := by
  decide +kernel

end Propolis
