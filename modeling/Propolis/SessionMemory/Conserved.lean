import Propolis.SessionMemory.Debts
import Propolis.Lib.Holding
import Propolis.Lib.Run
import Mathlib.Algebra.Order.BigOperators.Group.Finset

/-!
# Bytes and room are conserved

What the slots, the pool and the debts of all threads sum to never changes, and the room reserved
stays within the ceiling and the overdraft.  When no thread is in the middle of anything nothing is
owed, and the counters alone agree with what is allocated and held.
-/

namespace Propolis.SessionMemory

open Interaction Threads

variable {count : ℕ} {memory : Memory} {ghosts : Fin count → Ghost} {thread : Fin count}
  {changed : Memory} {owner : Owner} {slot : Index} {limits : Limits} {own : Running} {op : Op}
  {ghost : Ghost} {accounts : Accounts count} {allocation : Allocation} {process : Prog Unit}

section Balance

variable {after : Ghost}

/-- The slot is as its owner knows it. -/
def Matches (slot : Slot) (owner : Owner) : Prop :=
  slot.active = true ∧ slot.epoch = owner.epoch ∧ slot.held = owner.held ∧
    (owner.isOpen = false → slot.word.live = 0)

def Vacant (slot : Slot) : Prop :=
  slot.active = false ∧ slot.held = 0 ∧ slot.word.live = 0

def Memory.allocated (memory : Memory) : ℤ :=
  (memory.allocations.map fun allocation => (allocation.bytes : ℤ)).sum

def Memory.live (memory : Memory) : ℤ :=
  ∑ slot, ((memory.slots slot).word.live : ℤ)

def Memory.held (memory : Memory) : ℤ :=
  ∑ slot, ((memory.slots slot).held : ℤ)

structure Consistent (memory : Memory) (ghosts : Fin count → Ghost) : Prop where
  own : ∀ thread owner, (ghosts thread).owner = some owner →
    Matches (memory.slots owner.slot) owner
  vacant : ∀ slot, (∀ thread, ¬(ghosts thread).owns slot) → Vacant (memory.slots slot)
  apart : ∀ thread other slot, (ghosts thread).owns slot → (ghosts other).owns slot →
    thread = other
  generation : ∀ slot, (memory.slots slot).word.generation =
    (memory.slots slot).epoch % generations
  bytes : memory.allocated = memory.live + memory.orphan + ∑ thread, (ghosts thread).bytes
  room : (memory.reserved : ℤ) = memory.held + ∑ thread, (ghosts thread).room
  owed : ∀ thread, 0 ≤ (ghosts thread).room

section

variable (slot : Index) (change : Slot → Slot)

theorem live_setSlot :
    (memory.setSlot slot change).live = memory.live - (memory.slots slot).word.live +
      (change (memory.slots slot)).word.live :=
  sum_update (fun slot : Slot => (slot.word.live : ℤ)) memory.slots slot _

theorem held_setSlot :
    (memory.setSlot slot change).held = memory.held - (memory.slots slot).held +
      (change (memory.slots slot)).held :=
  sum_update (fun slot : Slot => (slot.held : ℤ)) memory.slots slot _

@[simp]
theorem allocated_setSlot : (memory.setSlot slot change).allocated = memory.allocated := rfl

@[simp]
theorem orphan_setSlot : (memory.setSlot slot change).orphan = memory.orphan := rfl

@[simp]
theorem reserved_setSlot : (memory.setSlot slot change).reserved = memory.reserved := rfl

end

/-- Each thread knows the slot it owns. -/
abbrev Owning (memory : Memory) (ghosts : Fin count → Ghost) : Prop :=
  Holding Ghost.owner Owner.slot (fun owner slot => Matches slot owner) Vacant memory.slots ghosts

variable (consistent : Consistent memory ghosts)
include consistent

theorem Consistent.owning : Owning memory ghosts :=
  ⟨consistent.own, consistent.vacant, consistent.apart⟩

theorem Consistent.keep (owning : Owning changed (Function.update ghosts thread after))
    (generation : ∀ slot, (changed.slots slot).word.generation =
      (changed.slots slot).epoch % generations)
    (bytes : changed.allocated - changed.live - changed.orphan - after.bytes =
      memory.allocated - memory.live - memory.orphan - (ghosts thread).bytes)
    (room : (changed.reserved : ℤ) - changed.held - after.room =
      memory.reserved - memory.held - (ghosts thread).room)
    (owed : 0 ≤ after.room) : Consistent changed (Function.update ghosts thread after) := by
  refine ⟨owning.own, owning.vacant, owning.apart, generation, ?_, ?_, ?_⟩
  · have before := consistent.bytes
    rw [sum_update Ghost.bytes]
    omega
  · have before := consistent.room
    rw [sum_update Ghost.room]
    omega
  · exact (Function.forall_update_iff ghosts fun _ ghost => 0 ≤ ghost.room).mpr
      ⟨owed, fun other _ => consistent.owed other⟩

/-- A step on the pool alone. -/
theorem Consistent.pool (slots : changed.slots = memory.slots)
    (owner : after.owner = (ghosts thread).owner)
    (bytes : changed.allocated - changed.orphan - after.bytes =
      memory.allocated - memory.orphan - (ghosts thread).bytes)
    (room : (changed.reserved : ℤ) - after.room = memory.reserved - (ghosts thread).room)
    (owed : 0 ≤ after.room) : Consistent changed (Function.update ghosts thread after) := by
  have live : changed.live = memory.live := by rw [Memory.live, slots, Memory.live]
  have held : changed.held = memory.held := by rw [Memory.held, slots, Memory.held]
  apply consistent.keep
  · rw [Owning, slots]
    exact consistent.owning.keep owner (fun _ => id) (fun _ => id)
  · rw [slots]
    exact consistent.generation
  · omega
  · omega
  · exact owed

/-- A step of a thread on its own slot. -/
theorem Consistent.ownSlot {owner' : Owner} (change : Slot → Slot)
    (owned : (ghosts thread).owner = some owner) (owned' : after.owner = some owner')
    (slot : owner'.slot = owner.slot) (matches_ : Matches (change (memory.slots owner.slot)) owner')
    (generation : (change (memory.slots owner.slot)).word.generation =
      (change (memory.slots owner.slot)).epoch % generations)
    (bytes : ((change (memory.slots owner.slot)).word.live : ℤ) + after.bytes =
      (memory.slots owner.slot).word.live + (ghosts thread).bytes)
    (room : ((change (memory.slots owner.slot)).held : ℤ) + after.room =
      (memory.slots owner.slot).held + (ghosts thread).room)
    (owed : 0 ≤ after.room) :
    Consistent (memory.setSlot owner.slot change) (Function.update ghosts thread after) := by
  apply consistent.keep
  · apply consistent.owning.setCell
    · exact fun other holds => consistent.apart other thread _ holds ⟨owner, owned, rfl⟩
    · simp [owned]
    · simp [owned', slot, matches_]
    · simp [owned']
  · exact generation_setSlot consistent.generation generation
  · rw [live_setSlot, allocated_setSlot, orphan_setSlot]
    omega
  · rw [held_setSlot, reserved_setSlot]
    omega
  · exact owed

/-- The room a thread's own slot holds. -/
theorem Consistent.holds (owned : (ghosts thread).owner = some owner) (hold : Slot → ℕ) {held : ℕ}
    (now : hold (memory.slots owner.slot) = held) (room : ℤ)
    (balance : held + room = owner.held + (ghosts thread).room) (owed : 0 ≤ room) :
    Consistent (memory.setSlot owner.slot fun s => { s with held := hold s })
      (Function.update ghosts thread { ghosts thread with
        owner := some { owner with held := held }, room := room }) := by
  obtain ⟨active, epoch, before, closed⟩ := consistent.own thread owner owned
  refine consistent.ownSlot (fun s => { s with held := hold s }) owned rfl rfl
    ⟨active, epoch, now, closed⟩ (consistent.generation owner.slot) rfl ?_ owed
  dsimp only
  rw [now, before]
  exact balance

/-- A free that finds the generation it was charged to. -/
theorem Consistent.refunded (slot : Index) {bytes : ℕ}
    (enough : bytes ≤ (memory.slots slot).word.live) :
    Consistent (memory.setSlot slot fun s => { s with word := s.word.sub bytes })
      (Function.update ghosts thread
        { ghosts thread with bytes := (ghosts thread).bytes + bytes }) := by
  have less : ((memory.slots slot).word.sub bytes).live =
      (memory.slots slot).word.live - bytes := by
    rw [Word.sub, Nat.min_eq_right enough]
  have stays : ∀ owner : Owner, Matches (memory.slots owner.slot) owner →
      Matches ((memory.setSlot slot fun s => { s with word := s.word.sub bytes }).slots
        owner.slot) owner := by
    intro owner matched
    rw [slots_setSlot]
    split
    case isTrue same =>
      obtain ⟨active, epoch, held, closed⟩ := matched
      rw [same] at active epoch held closed
      refine ⟨active, epoch, held, ?_⟩
      intro isClosed
      have zero := closed isClosed
      dsimp only
      omega
    case isFalse => exact matched
  apply consistent.keep
  · refine consistent.owning.keep rfl stays ?_
    rintro other ⟨active, held, live⟩
    rw [slots_setSlot]
    split
    case isTrue same =>
      subst same
      refine ⟨active, held, ?_⟩
      dsimp only
      omega
    case isFalse => exact ⟨active, held, live⟩
  · exact generation_setSlot consistent.generation (consistent.generation slot)
  · simp only [live_setSlot, less, allocated_setSlot, orphan_setSlot]
    omega
  · simp only [held_setSlot, reserved_setSlot]
    omega
  · exact consistent.owed thread

/-- A free slot is taken, by a thread that has none. -/
theorem Consistent.taken (free : (ghosts thread).owner = none)
    (inactive : (memory.slots slot).active = false) :
    Consistent (memory.setSlot slot fun s => { s with active := true })
      (Function.update ghosts thread { ghosts thread with
        owner := some ⟨slot, (memory.slots slot).epoch, 0, true⟩ }) := by
  -- an owned slot is active
  have unowned : ∀ other, ¬(ghosts other).owns slot := by
    rintro other ⟨owner, owned, rfl⟩
    have active := (consistent.own other owner owned).1
    simp [active] at inactive
  have vacant := consistent.vacant slot unowned
  apply consistent.keep
  · apply consistent.owning.setCell
    · exact fun other holds => absurd holds (unowned other)
    · simp [free]
    · simp [Matches, vacant.2.1]
    · simp
  · exact generation_setSlot consistent.generation (consistent.generation slot)
  · simp only [live_setSlot, allocated_setSlot, orphan_setSlot]
    omega
  · simp only [held_setSlot, reserved_setSlot]
    omega
  · exact consistent.owed thread

/-- A closed slot is given up. -/
theorem Consistent.freed (owned : (ghosts thread).owner = some owner) (held : owner.held = 0)
    (closed : owner.isOpen = false) :
    Consistent (memory.setSlot owner.slot fun s => { s with active := false })
      (Function.update ghosts thread { ghosts thread with owner := none }) := by
  obtain ⟨active, epoch, holds, zero⟩ := consistent.own thread owner owned
  apply consistent.keep
  · apply consistent.owning.setCell
    · exact fun other holds => consistent.apart other thread _ holds ⟨owner, owned, rfl⟩
    · simp [owned]
    · simp
    · exact fun _ => ⟨rfl, holds.trans held, zero closed⟩
  · exact generation_setSlot consistent.generation (consistent.generation owner.slot)
  · simp only [live_setSlot, allocated_setSlot, orphan_setSlot]
    omega
  · simp only [held_setSlot, reserved_setSlot]
    omega
  · exact consistent.owed thread

end Balance

section Steps

/-- The counter of live bytes does not come to either of its ends. -/
def Op.fits : Op → Memory → Bool
  | .addLive slot bytes, memory => (memory.slots slot).word.live + bytes ≤ liveMask
  | .subLive tag bytes, memory => (memory.slots tag.slot).word.generation = tag.generation →
      bytes ≤ (memory.slots tag.slot).word.live
  | _, _ => true

/-- Every operation that is permitted keeps the balance, and turns the ghost as it should. -/
theorem Consistent.respond (consistent : Consistent memory ghosts) (op : Op)
    (permits : Permits limits op (ghosts thread)) (fits : op.fits memory = true)
    (session : (ghosts thread).session = own.session) :
    ∃ after, Turns op (ghosts thread) (respond op own memory).1 after ∧
      after.session = (SessionMemory.respond op own memory).2.1.session ∧
      Consistent (SessionMemory.respond op own memory).2.2
        (Function.update ghosts thread after) := by
  have owed := consistent.owed thread
  -- an operation that changes none of what is balanced
  have still : Consistent memory (Function.update ghosts thread (ghosts thread)) := by
    rw [Function.update_eq_self]
    exact consistent
  -- nor does a flag, which only the owner of the slot writes
  have flag : ∀ {slot : Index}, (ghosts thread).owns slot → ∀ over_ refused : Slot → Bool,
      Consistent (memory.setSlot slot fun s => { s with over_ := over_ s, refused := refused s })
        (Function.update ghosts thread (ghosts thread)) := by
    rintro _ ⟨owner, owned, rfl⟩ over_ refused
    exact consistent.ownSlot (fun s => { s with over_ := over_ s, refused := refused s }) owned
      owned rfl (consistent.own thread owner owned) (consistent.generation owner.slot) rfl rfl owed
  cases op with
  | loadWord slot =>
      refine ⟨ghosts thread, ⟨rfl, ?_⟩, session, still⟩
      rintro owner owned rfl
      obtain ⟨-, epoch, -⟩ := consistent.own thread owner owned
      rw [← epoch]
      exact consistent.generation owner.slot
  | addLive slot bytes =>
      obtain ⟨owner, owned, rfl, isOpen⟩ := permits
      obtain ⟨active, epoch, held, closed⟩ := consistent.own thread owner owned
      have live : ((memory.slots owner.slot).word.add bytes).live =
          (memory.slots owner.slot).word.live + bytes :=
        Nat.min_eq_left (of_decide_eq_true fits)
      refine ⟨_, rfl, session, ?_⟩
      refine consistent.ownSlot (fun s => { s with word := s.word.add bytes }) owned owned rfl
        ⟨active, epoch, held, ?_⟩
        (consistent.generation owner.slot) ?_ rfl owed
      · intro isClosed
        rw [isOpen] at isClosed
        cases isClosed
      · dsimp only
        omega
  | subLive tag bytes =>
      simp only [SessionMemory.respond]
      split
      case isTrue same =>
        refine ⟨_, rfl, session, ?_⟩
        simpa using consistent.refunded tag.slot (of_decide_eq_true fits same)
      case isFalse =>
        refine ⟨_, rfl, session, ?_⟩
        simpa using still
  | swapWord slot next =>
      obtain ⟨owner, owned, rfl, rfl⟩ := permits
      obtain ⟨active, epoch, held, -⟩ := consistent.own thread owner owned
      refine ⟨{ ghosts thread with
        owner := some { owner with epoch := owner.epoch + 1, isOpen := false }
        bytes := (ghosts thread).bytes + (memory.slots owner.slot).word.live }, ?_, session, ?_⟩
      · simp [Turns, owned, SessionMemory.respond]
      · refine consistent.ownSlot (fun s => { s with
            word := ⟨(owner.epoch + 1) % generations, 0⟩, epoch := s.epoch + 1 }) owned rfl rfl
          ⟨active, ?_, held, fun _ => rfl⟩ ?_ ?_ rfl owed
        · rw [epoch]
        · rw [epoch]
        · dsimp only
          omega
  | takeSlot slot =>
      simp only [SessionMemory.respond]
      split
      case isTrue => exact ⟨ghosts thread, rfl, session, still⟩
      case isFalse inactive =>
        refine ⟨_, ⟨(memory.slots slot).epoch, rfl⟩, session, ?_⟩
        exact consistent.taken permits (by simpa using inactive)
  | freeSlot slot =>
      obtain ⟨owner, owned, rfl, held, closed⟩ := permits
      exact ⟨_, rfl, session, consistent.freed owned held closed⟩
  | loadHeld slot =>
      refine ⟨ghosts thread, ⟨rfl, ?_⟩, session, still⟩
      rintro owner owned rfl
      exact (consistent.own thread owner owned).2.2.1
  | addHeld slot bytes =>
      obtain ⟨⟨owner, owned, rfl⟩, enough⟩ := permits
      obtain ⟨-, -, held, -⟩ := consistent.own thread owner owned
      refine ⟨_, ?_, ?_, consistent.holds owned (fun s => s.held + bytes)
        (show _ = owner.held + bytes by rw [held]) ((ghosts thread).room - bytes) ?_ ?_⟩
      · simp [Turns, owned]
      · exact session
      · omega
      · omega
  | storeHeld slot bytes =>
      obtain ⟨owner, owned, rfl, less⟩ := permits
      refine ⟨_, ?_, ?_, consistent.holds owned (fun _ => bytes) rfl
        ((ghosts thread).room + owner.held - bytes) ?_ ?_⟩
      · simp [Turns, owned]
      · exact session
      · omega
      · omega
  | takeHeld slot =>
      obtain ⟨owner, owned, rfl⟩ := permits
      obtain ⟨-, -, held, -⟩ := consistent.own thread owner owned
      refine ⟨_, ?_, ?_, consistent.holds owned (fun _ => 0) rfl
        ((ghosts thread).room + owner.held) ?_ ?_⟩
      · simp [Turns, owned, SessionMemory.respond, held]
      · exact session
      · omega
      · omega
  | storeOver slot value =>
      exact ⟨ghosts thread, rfl, session, flag permits (fun _ => value) (·.refused)⟩
  | storeRefused slot value =>
      exact ⟨ghosts thread, rfl, session, flag permits (·.over_) fun _ => value⟩
  | takeRefused slot =>
      exact ⟨ghosts thread, rfl, session, flag permits (·.over_) fun _ => false⟩
  | addOrphan bytes =>
      refine ⟨_, rfl, session, consistent.pool rfl rfl ?_ rfl owed⟩
      change memory.allocated - (memory.orphan + bytes) - ((ghosts thread).bytes - bytes) = _
      omega
  | reserve =>
      simp only [SessionMemory.respond]
      split
      case isTrue =>
        refine ⟨_, rfl, session, consistent.pool rfl rfl rfl ?_ ?_⟩
        · simp only [if_true]
          omega
        · simp only [if_true]
          omega
      case isFalse =>
        refine ⟨_, rfl, session, ?_⟩
        simpa using still
  | unreserve bytes =>
      have enough : (bytes : ℤ) ≤ (ghosts thread).room := permits
      have sums := consistent.room
      have all : (ghosts thread).room ≤ ∑ other, (ghosts other).room :=
        Finset.single_le_sum (fun other _ => consistent.owed other) (Finset.mem_univ thread)
      have held : 0 ≤ memory.held := Finset.sum_nonneg fun _ _ => Int.natCast_nonneg _
      refine ⟨_, rfl, session, consistent.pool rfl rfl rfl ?_ ?_⟩
      · change ((memory.reserved - bytes : ℕ) : ℤ) - ((ghosts thread).room - bytes) = _
        omega
      · dsimp only
        omega
  | swapAsked old new =>
      refine ⟨ghosts thread, rfl, session, ?_⟩
      simp only [SessionMemory.respond]
      split
      · exact consistent.pool rfl rfl rfl rfl owed
      · exact still
  | countRefusal => exact ⟨ghosts thread, rfl, session, consistent.pool rfl rfl rfl rfl owed⟩
  | enter _ | leave => exact ⟨_, rfl, rfl, consistent.pool rfl rfl rfl rfl owed⟩
  | loadActive _ | loadOver _ | loadRefused _ | loadOrphan | loadReserved | loadAsked | answer _ =>
      exact ⟨ghosts thread, rfl, session, still⟩

theorem respond_reserved (permits : Permits limits op ghost)
    (within : memory.reserved ≤ limits.ceiling + limits.overdraftCap) :
    (respond op own memory).2.2.reserved ≤ limits.ceiling + limits.overdraftCap := by
  cases op
  case reserve bytes limit =>
    have bound : limit ≤ limits.ceiling + limits.overdraftCap := permits
    simp only [respond]
    split
    case isTrue fits => exact fits.2.trans bound
    case isFalse => exact within
  case unreserve bytes => exact (Nat.sub_le _ _).trans within
  all_goals
    simp only [respond]
    repeat' split
    all_goals exact within

end Steps

section Runs

/-- The allocations that live: those not freed, and those a thread is freeing. -/
def Accounts.living (accounts : Accounts count) : List Allocation :=
  accounts.shared.allocations ++ (List.finRange count).filterMap fun thread =>
    if (accounts.threads thread).busy then (accounts.threads thread).data.freeing else none

/-- A session ends in a slot: fewer than `generations` did while an allocation made in it lived. -/
def Accounts.outruns (accounts : Accounts count) : Op → Bool
  | .swapWord slot _ => accounts.living.all fun allocation => allocation.tag.slot = slot →
      (accounts.shared.slots slot).epoch + 1 < allocation.born + generations
  | _ => true

/-- No counter comes to its end, and no generation comes around too early. -/
def unsaturated (accounts : Accounts count) : Action count → Bool
  | .begin_ _ _ => true
  | .advance thread =>
      match (accounts.threads thread).rest with
      | .done _ => true
      | .perform op _ => op.fits accounts.shared && accounts.outruns op

/-- The tag has the generation of the epoch the allocation was made in, and of no later one. -/
def Allocation.Aged (allocation : Allocation) (memory : Memory) : Prop :=
  allocation.tag.generation = allocation.born % generations ∧
    allocation.born ≤ (memory.slots allocation.tag.slot).epoch ∧
    (memory.slots allocation.tag.slot).epoch < allocation.born + generations

/-- A thread as its ghost has it. -/
structure Paying (limits : Limits) (thread : Thread Op Answer Running) (ghost : Ghost) :
    Prop where
  session : ghost.session = thread.data.session
  owes : Owes limits thread.rest ghost settled
  frees : ∀ allocation, thread.data.freeing = some allocation →
    Pays (MayFree allocation.tag) Turns thread.rest ghost fun _ _ => True

structure Sound (limits : Limits) (accounts : Accounts count) (ghosts : Fin count → Ghost) :
    Prop where
  consistent : Consistent accounts.shared ghosts
  paying : ∀ thread, Paying limits (accounts.threads thread) (ghosts thread)
  aged : ∀ allocation ∈ accounts.living, allocation.Aged accounts.shared
  within : accounts.shared.reserved ≤ limits.ceiling + limits.overdraftCap

theorem mem_living : allocation ∈ accounts.living ↔
    allocation ∈ accounts.shared.allocations ∨ ∃ thread,
      (accounts.threads thread).busy = true ∧
        (accounts.threads thread).data.freeing = some allocation := by
  simp [Accounts.living]

theorem Sound.initial : Sound limits (Accounts.initial count) fun _ => ⟨none, none, 0, 0⟩ := by
  refine ⟨⟨?_, ?_, ?_, ?_, ?_, ?_, ?_⟩, ?_, ?_, Nat.zero_le _⟩
  · intro thread owner owned
    cases owned
  · intro slot _
    exact ⟨rfl, rfl, rfl⟩
  · rintro thread other slot ⟨owner, owned, -⟩
    cases owned
  · intro slot
    rfl
  · simp [Memory.allocated, Memory.live, Accounts.initial, Memory.empty, Slot.new]
  · simp [Memory.held, Accounts.initial, Memory.empty, Slot.new]
  · intro thread
    rfl
  · intro thread
    refine ⟨rfl, ⟨rfl, rfl, rfl⟩, ?_⟩
    intro allocation freeing
    cases freeing
  · intro allocation member
    rcases mem_living.mp member with live | ⟨thread, -, freeing⟩
    · cases live
    · cases freeing

/-- What lives after an operation lived before. -/
theorem living_advance {next : Answer op → Prog Unit}
    (rest : (accounts.threads thread).rest = .perform op next)
    (member : allocation ∈ Accounts.living (accounts.advance respond thread)) :
    allocation ∈ accounts.living := by
  have busy : (accounts.threads thread).busy = true := by rw [Thread.busy, rest]
  rw [mem_living] at member ⊢
  simp only [Pool.advance, rest] at member
  rcases member with live | ⟨other, working, freeing⟩
  · left
    simpa using live
  · right
    by_cases here : other = thread
    · subst here
      refine ⟨other, busy, ?_⟩
      simpa using freeing
    · rw [Function.update_of_ne here] at working freeing
      exact ⟨other, working, freeing⟩

theorem Sound.advance (sound : Sound limits accounts ghosts) (thread : Fin count)
    (guarded : unsaturated accounts (.advance thread) = true) :
    ∃ ghosts, Sound limits (accounts.advance respond thread) ghosts := by
  cases rest : (accounts.threads thread).rest with
  | done value =>
      refine ⟨ghosts, ?_⟩
      rw [Pool.advance, rest]
      exact sound
  | perform op next =>
      simp only [unsaturated, rest, Bool.and_eq_true] at guarded
      obtain ⟨fits, outruns⟩ := guarded
      have paying := sound.paying thread
      have owes := paying.owes
      rw [rest] at owes
      obtain ⟨permits, goes⟩ := owes
      obtain ⟨after, turned, session, consistent⟩ :=
        sound.consistent.respond op permits fits paying.session
      refine ⟨Function.update ghosts thread after, ?_⟩
      rw [Pool.advance_eq rest]
      refine ⟨consistent, ?_, ?_, respond_reserved permits sound.within⟩
      · apply forall_update sound.paying
        refine ⟨session, goes _ after turned, ?_⟩
        intro allocation freeing
        rw [respond_freeing] at freeing
        have frees := paying.frees allocation freeing
        rw [rest] at frees
        exact frees.2 _ after turned
      · intro allocation member
        rw [← Pool.advance_eq rest] at member
        have lives := living_advance rest member
        obtain ⟨generation, born, young⟩ := sound.aged allocation lives
        refine ⟨generation, ?_⟩
        rcases respond_epoch op allocation.tag.slot with same | ⟨⟨next, rfl⟩, later⟩
        · rw [same]
          exact ⟨born, young⟩
        · rw [later]
          have outrun := List.all_eq_true.mp outruns allocation lives
          exact ⟨Nat.le_succ_of_le born, of_decide_eq_true outrun rfl⟩

/-- What a thread begins owes from its start the bytes allocated or freed. -/
structure Started (limits : Limits) (memory : Memory) (ghost : Ghost) (debt : ℤ) (own : Running)
    (allocations : List Allocation) (process : Prog Unit) : Prop where
  allocated : { memory with allocations := allocations : Memory }.allocated =
    memory.allocated + debt
  session : own.session = ghost.session
  owes : Owes limits process { ghost with bytes := debt } settled
  frees : ∀ allocation, own.freeing = some allocation → allocation ∈ memory.allocations ∧
    Pays (MayFree allocation.tag) Turns process { ghost with bytes := debt } fun _ _ => True
  aged : ∀ allocation ∈ allocations, allocation ∈ memory.allocations ∨ allocation.Aged memory

/-- Nothing is allocated or freed. -/
theorem Started.quiet (done : ghost.Settled) (session : ghost.session = own.session)
    (fresh : own.freeing = none) (owes : Owes limits process ghost settled) :
    Started limits memory ghost 0 own memory.allocations process := by
  refine ⟨(add_zero _).symm, session.symm, ?_, ?_, ?_⟩
  · rw [← done.1]
    exact owes
  · intro allocation freeing
    rw [fresh] at freeing
    cases freeing
  · intro allocation member
    exact .inl member

theorem startOf_started {after : Running} {allocations : List Allocation} {what : Begin}
    (starts : startOf limits own memory what = some (after, allocations, process))
    (done : ghost.Settled) (session : ghost.session = own.session) (fresh : own.freeing = none)
    (matches_ : ∀ owner, ghost.owner = some owner → Matches (memory.slots owner.slot) owner) :
    ∃ debt, Started limits memory ghost debt after allocations process := by
  cases what <;> simp only [startOf, Option.map_eq_some_iff, Option.ite_none_right_eq_some,
    Option.some.injEq] at starts
  case claim =>
    obtain ⟨free, ⟨⟩⟩ := starts
    refine ⟨0, Started.quiet done session fresh (owes_claim done ?_)⟩
    exact done.free (session.trans free)
  case alloc bytes =>
    obtain ⟨tag, running, ⟨⟩⟩ := starts
    have mine := session.trans running
    obtain ⟨owner, owned, -, slot, current⟩ := done.owned mine
    obtain ⟨-, epoch, -⟩ := matches_ owner owned
    refine ⟨bytes, ?_, session.symm, owes_charge done mine, ?_, ?_⟩
    · simp [Memory.allocated]
    · intro allocation freeing
      rw [fresh] at freeing
      cases freeing
    · intro allocation member
      rcases List.mem_append.mp member with old | new
      · exact .inl old
      · right
        obtain rfl := List.mem_singleton.mp new
        refine ⟨?_, le_refl _, ?_⟩
        · rw [current, slot, epoch]
        · exact Nat.lt_add_of_pos_right (Nat.two_pow_pos 30)
  case free allocation unaccounted =>
    obtain ⟨live, ⟨⟩⟩ := starts
    have current : (if unaccounted then none else own.session) = none ∨
        (if unaccounted then none else own.session) = ghost.session := by
      cases unaccounted with
      | true => exact .inl rfl
      | false => exact .inr session.symm
    refine ⟨-allocation.bytes, ?_, session.symm, owes_refund done current, ?_, ?_⟩
    · have sum := List.sum_map_erase (fun allocation => (allocation.bytes : ℤ)) live
      simp only [Memory.allocated]
      omega
    · intro other freeing
      cases freeing
      exact ⟨live, frees_refund done current _⟩
    · intro other member
      exact .inl (List.mem_of_mem_erase member)
  case release =>
    obtain ⟨tag, running, ⟨⟩⟩ := starts
    exact ⟨0, .quiet done session fresh (owes_release done (session.trans running))⟩
  case rebalance =>
    cases starts
    exact ⟨0, .quiet done session fresh (owes_quiet.pays_rebalance done)⟩
  case currentOver =>
    obtain ⟨tag, running, ⟨⟩⟩ := starts
    exact ⟨0, .quiet done session fresh (owes_currentOver done)⟩
  case checkRetained =>
    obtain ⟨tag, running, ⟨⟩⟩ := starts
    exact ⟨0, .quiet done session fresh (owes_checkRetained done (session.trans running))⟩
  case makeRoom bytes =>
    obtain ⟨tag, running, ⟨⟩⟩ := starts
    refine ⟨0, .quiet done session fresh (Pays.bind (owes_quiet.pays_makeRoom ?_))⟩
    intro granted
    exact done

theorem Sound.begin_ (sound : Sound limits accounts ghosts) (thread : Fin count) (what : Begin) :
    ∃ ghosts, Sound limits (accounts.step limits (.begin_ thread what)) ghosts := by
  rcases step_begin limits accounts thread what with
    same | ⟨own, allocations, process, idle, starts, began⟩
  · rw [same]
    exact ⟨ghosts, sound⟩
  · have paying := sound.paying thread
    have done : (ghosts thread).Settled := by
      have owes := paying.owes
      rw [Thread.rest_of_not_busy idle] at owes
      exact owes
    obtain ⟨debt, started⟩ := startOf_started starts done paying.session rfl
      (sound.consistent.own thread)
    rw [began]
    refine ⟨Function.update ghosts thread { ghosts thread with bytes := debt }, ?_, ?_, ?_,
      sound.within⟩
    · refine sound.consistent.pool rfl rfl ?_ rfl (sound.consistent.owed thread)
      have allocated := started.allocated
      have settled := done.1
      dsimp only
      omega
    · apply forall_update sound.paying
      refine ⟨started.session.symm, started.owes, ?_⟩
      intro allocation freeing
      exact (started.frees allocation freeing).2
    · intro allocation member
      have lived : allocation ∈ accounts.living ∨ allocation.Aged accounts.shared := by
        rcases mem_living.mp member with live | ⟨other, busy, freeing⟩
        · rcases started.aged allocation live with old | aged
          · exact .inl (mem_living.mpr (.inl old))
          · exact .inr aged
        · left
          dsimp only at busy freeing
          by_cases here : other = thread
          · subst here
            rw [Function.update_self] at freeing
            exact mem_living.mpr (.inl (started.frees allocation freeing).1)
          · rw [Function.update_of_ne here] at busy freeing
            exact mem_living.mpr (.inr ⟨other, busy, freeing⟩)
      rcases lived with lives | aged
      · exact sound.aged allocation lives
      · exact aged

theorem sound_of_meets {actions : List (Action count)}
    (guarded : Run.meets (Accounts.step limits) unsaturated (.initial count) actions = true) :
    ∃ ghosts, Sound limits (actions.foldl (Accounts.step limits) (.initial count)) ghosts := by
  apply Run.invariant_of_meets (fun accounts => ∃ ghosts, Sound limits accounts ghosts) ?_
    ⟨_, Sound.initial⟩ guarded
  rintro accounts action met ⟨ghosts, sound⟩
  cases action with
  | advance thread => exact sound.advance thread met
  | begin_ thread what => exact sound.begin_ thread what

end Runs

section Conservation

/-- A slot that is not active holds nothing. -/
theorem Consistent.inactive (consistent : Consistent memory ghosts)
    (inactive : ¬(memory.slots slot).active = true) :
    (memory.slots slot).held = 0 ∧ (memory.slots slot).word.live = 0 := by
  apply (consistent.vacant slot ?_).2
  rintro thread ⟨owner, owned, rfl⟩
  exact inactive (consistent.own thread owner owned).1

theorem Consistent.live_active (consistent : Consistent memory ghosts) :
    ∑ slot with (memory.slots slot).active = true, ((memory.slots slot).word.live : ℤ) =
      memory.live := by
  apply Finset.sum_filter_of_ne
  intro slot _ some_
  by_contra inactive
  simp [(consistent.inactive inactive).2] at some_

theorem Consistent.held_active (consistent : Consistent memory ghosts) :
    ∑ slot with (memory.slots slot).active = true, ((memory.slots slot).held : ℤ) =
      memory.held := by
  apply Finset.sum_filter_of_ne
  intro slot _ some_
  by_contra inactive
  simp [(consistent.inactive inactive).1] at some_

theorem Sound.settled_of_idle (sound : Sound limits accounts ghosts) (idle : accounts.Idle)
    (thread : Fin count) : (ghosts thread).Settled := by
  have owes := (sound.paying thread).owes
  rw [Thread.rest_of_not_busy (idle thread)] at owes
  exact owes

theorem Sound.balanced (sound : Sound limits accounts ghosts) (idle : accounts.Idle) :
    accounts.shared.live + accounts.shared.orphan = accounts.shared.allocated ∧
      (accounts.shared.reserved : ℤ) = accounts.shared.held := by
  have bytes := sound.consistent.bytes
  have room := sound.consistent.room
  rw [Finset.sum_eq_zero fun thread _ => (sound.settled_of_idle idle thread).1] at bytes
  rw [Finset.sum_eq_zero fun thread _ => (sound.settled_of_idle idle thread).2.1] at room
  constructor <;> omega

/-- The tag of an ended session is not that of the session now using its slot. -/
theorem Allocation.Aged.ended (aged : allocation.Aged memory)
    (ended : (memory.slots allocation.tag.slot).epoch ≠ allocation.born) :
    (memory.slots allocation.tag.slot).epoch % generations ≠ allocation.tag.generation := by
  obtain ⟨generation, born, young⟩ := aged
  rw [generation]
  intro same
  have apart := Nat.sub_mod_eq_zero_of_mod_eq same
  rw [Nat.mod_eq_of_lt (by omega)] at apart
  omega

theorem Sound.refund_ended (sound : Sound limits accounts ghosts)
    (freeing : (accounts.threads thread).data.freeing = some allocation)
    (ended : (accounts.shared.slots allocation.tag.slot).epoch ≠ allocation.born) :
    (accounts.advance respond thread).shared.slots = accounts.shared.slots ∧
      (accounts.advance respond thread).shared.asked = accounts.shared.asked := by
  cases rest : (accounts.threads thread).rest with
  | done value =>
      rw [Pool.advance, rest]
      exact ⟨rfl, rfl⟩
  | perform op next =>
      have busy : (accounts.threads thread).busy = true := by rw [Thread.busy, rest]
      have aged := sound.aged allocation (mem_living.mpr (.inr ⟨thread, busy, freeing⟩))
      have other := aged.ended ended
      have frees := (sound.paying thread).frees allocation freeing
      rw [rest] at frees
      rw [Pool.advance_eq rest]
      have may := frees.1
      cases op
      case subLive tag bytes =>
        obtain rfl : tag = allocation.tag := may
        simp only [respond]
        rw [if_neg]
        · exact ⟨rfl, rfl⟩
        · rw [sound.consistent.generation]
          exact other
      case storeHeld slot bytes =>
        obtain ⟨rfl, owner, owned, slot, generation⟩ := may
        obtain ⟨-, epoch, -⟩ := sound.consistent.own thread owner owned
        rw [slot] at epoch
        rw [← epoch] at generation
        exact absurd generation other
      case loadHeld => exact ⟨rfl, rfl⟩
      case addOrphan => exact ⟨rfl, rfl⟩
      case unreserve => exact ⟨rfl, rfl⟩
      all_goals cases may

/-- What the accounts of the sessions are about. -/
structure Conserving (limits : Limits) (accounts : Accounts count) : Prop where
  /-- When no step is in progress the counters are what is allocated and what is held. -/
  balanced : accounts.Idle →
    ∑ slot with (accounts.shared.slots slot).active = true,
        ((accounts.shared.slots slot).word.live : ℤ) + accounts.shared.orphan =
      (accounts.shared.allocations.map fun allocation => (allocation.bytes : ℤ)).sum ∧
    (accounts.shared.reserved : ℤ) =
      ∑ slot with (accounts.shared.slots slot).active = true,
        ((accounts.shared.slots slot).held : ℤ)
  /-- A refund for a session that ended touches no slot, nor which session is asked to end. -/
  ended : ∀ thread allocation,
    (accounts.threads thread).data.freeing = some allocation →
    (accounts.shared.slots allocation.tag.slot).epoch ≠ allocation.born →
    (accounts.step limits (.advance thread)).shared.slots = accounts.shared.slots ∧
      (accounts.step limits (.advance thread)).shared.asked = accounts.shared.asked
  within : accounts.shared.reserved ≤ limits.ceiling + limits.overdraftCap

/-- Session memory accounting conserves bytes, whatever the schedule. -/
theorem memory_conserved (limits : Limits) (actions : List (Action count))
    (guarded : Run.meets (Accounts.step limits) unsaturated (.initial count) actions = true) :
    Conserving limits (actions.foldl (Accounts.step limits) (.initial count)) := by
  obtain ⟨ghosts, sound⟩ := sound_of_meets guarded
  refine ⟨?_, ?_, sound.within⟩
  · intro idle
    obtain ⟨bytes, room⟩ := sound.balanced idle
    rw [sound.consistent.live_active, sound.consistent.held_active]
    exact ⟨bytes, room⟩
  · intro thread allocation freeing ended
    exact sound.refund_ended freeing ended

/-- What the first session of the first claimable slot allocates. -/
def firstAllocation : Allocation :=
  ⟨⟨⟨1, by decide⟩, 0⟩, 0, 100000⟩

/-- A session allocates and ends, its slot is claimed again, then another thread frees. -/
def lateFree : List (Action 2) :=
  doing firstThread .claim 6 ++ doing firstThread (.alloc 100000) 8 ++
  doing firstThread .release 10 ++ doing firstThread .claim 6 ++
  [.begin_ secondThread (.free firstAllocation false)]

theorem memory_conserved_late_free :
    configure 1048576 4 1048576 = some tightLimits ∧
      Run.meets (Accounts.step tightLimits) unsaturated (.initial 2) lateFree = true ∧
      Conserving tightLimits (lateFree.foldl (Accounts.step tightLimits) (.initial 2)) ∧
      ((lateFree.foldl (Accounts.step tightLimits) (.initial 2)).threads 1).data.freeing =
        some firstAllocation ∧
      ((lateFree.foldl (Accounts.step tightLimits) (.initial 2)).shared.slots
        firstAllocation.tag.slot).epoch ≠ firstAllocation.born := by
  refine ⟨by decide, by decide +kernel, ?_, by decide +kernel, by decide +kernel⟩
  apply memory_conserved
  decide +kernel

end Conservation

end Propolis.SessionMemory
