import Propolis.Lib.Threads

/-!
# Session memory accounts

The slots and the pool that the accounting allocator of a sensor touches, and the functions that
touch them, one atomic operation at a time.  A slot's generation and live bytes are one word.

`epoch` counts the sessions that ended in a slot and `allocations` what is allocated: no function
reads them, they are there to say what the counters are about.  The limits are set once, before any
session, and read as constants.
-/

namespace Propolis.SessionMemory

open Interaction Threads

def u64Max : ℕ := 2 ^ 64 - 1

def slotCount : ℕ := 2048

theorem one_lt_slotCount : 1 < slotCount := by
  decide

def chunkBytes : ℕ := 64 * 1024

def liveMask : ℕ := 2 ^ 34 - 1

def generations : ℕ := 2 ^ 30

def lineWorkingSetBytes : ℕ := 5 * 4194304 + 1048576

def minFloorBytes : ℕ := 64 * 1024

abbrev Index := Fin slotCount

section State

/-- A slot's word: generation in the high bits, live bytes in the low ones. -/
structure Word where
  generation : ℕ
  live : ℕ
  deriving DecidableEq

structure Tag where
  slot : Index
  generation : ℕ
  deriving DecidableEq

structure Slot where
  word : Word
  active : Bool
  held : ℕ
  over_ : Bool
  refused : Bool
  epoch : ℕ
  deriving DecidableEq

def Slot.new : Slot :=
  ⟨⟨0, 0⟩, false, 0, false, false, 0⟩

/-- What the pool and the sessions are limited to. -/
structure Limits where
  ceiling : ℕ
  floor : ℕ
  overdraftCap : ℕ
  retained : ℕ
  deriving DecidableEq

def Limits.peak (limits : Limits) : ℕ :=
  min (limits.retained + lineWorkingSetBytes) u64Max

/-- `configure`: an equal share for each session, and no bound on what floors may overdraw. -/
def configure (ceiling maxConcurrent retained : ℕ) : Option Limits :=
  let sessions := max maxConcurrent 1
  if slotCount ≤ sessions then none
  else if ceiling / sessions < minFloorBytes then none
  else some ⟨ceiling, ceiling / sessions, u64Max, retained⟩

/-- A live allocation: the tag in its header, the epoch of its slot when it was made, its size. -/
structure Allocation where
  tag : Tag
  born : ℕ
  bytes : ℕ
  deriving DecidableEq

structure Memory where
  slots : Index → Slot
  reserved : ℕ
  orphan : ℤ
  /-- The one session asked to let go. -/
  asked : Option Tag
  refusals : ℕ
  allocations : List Allocation

def Memory.empty : Memory :=
  ⟨fun _ => .new, 0, 0, none, 0, []⟩

end State

section Operations

/-- The atomic operations. -/
inductive Op
  | loadWord (slot : Index)
  | addLive (slot : Index) (bytes : ℕ)
  | subLive (tag : Tag) (bytes : ℕ)
  | swapWord (slot : Index) (next : Word)
  | loadActive (slot : Index)
  | takeSlot (slot : Index)
  | freeSlot (slot : Index)
  | loadHeld (slot : Index)
  | addHeld (slot : Index) (bytes : ℕ)
  | storeHeld (slot : Index) (bytes : ℕ)
  | takeHeld (slot : Index)
  | loadOver (slot : Index)
  | storeOver (slot : Index) (value : Bool)
  | loadRefused (slot : Index)
  | storeRefused (slot : Index) (value : Bool)
  | takeRefused (slot : Index)
  | loadOrphan
  | addOrphan (bytes : ℤ)
  | loadReserved
  | reserve (bytes limit : ℕ)
  | unreserve (bytes : ℕ)
  | loadAsked
  | swapAsked (old new : Option Tag)
  | countRefusal
  /-- The thread runs the session from here on. -/
  | enter (tag : Tag)
  /-- The thread has ended its session. -/
  | leave
  /-- A question about the session is answered. -/
  | answer (value : Bool)

@[reducible]
def Answer : Op → Type
  | .loadWord _ | .addLive _ _ | .swapWord _ _ => Word
  | .subLive _ _ => Option Word
  | .loadActive _ | .takeSlot _ | .loadOver _ | .loadRefused _ | .takeRefused _ => Bool
  | .loadHeld _ | .takeHeld _ | .loadReserved => ℕ
  | .loadOrphan => ℤ
  | .reserve _ _ => Bool
  | .loadAsked => Option Tag
  | _ => Unit

/-- The session a thread runs, the allocation it frees, and its answers so far. -/
structure Running where
  session : Option Tag
  freeing : Option Allocation
  answers : List Bool

abbrev Prog := Process Op Answer

/-- One slot changed. -/
def Memory.setSlot (memory : Memory) (slot : Index) (change : Slot → Slot) : Memory :=
  { memory with slots := Function.update memory.slots slot (change (memory.slots slot)) }

/-- More live bytes; a counter at its end stays there. -/
def Word.add (word : Word) (bytes : ℕ) : Word :=
  { word with live := min (word.live + bytes) liveMask }

def Word.sub (word : Word) (bytes : ℕ) : Word :=
  { word with live := word.live - min word.live bytes }

def respond : (op : Op) → Running → Memory → Answer op × Running × Memory
  | .loadWord slot, own, memory => ((memory.slots slot).word, own, memory)
  | .addLive slot bytes, own, memory => ((memory.slots slot).word, own,
      memory.setSlot slot fun s => { s with word := s.word.add bytes })
  | .subLive tag bytes, own, memory =>
      if (memory.slots tag.slot).word.generation = tag.generation then
        (some (memory.slots tag.slot).word, own,
          memory.setSlot tag.slot fun s => { s with word := s.word.sub bytes })
      else (none, own, memory)
  | .swapWord slot next, own, memory => ((memory.slots slot).word, own,
      memory.setSlot slot fun s => { s with word := next, epoch := s.epoch + 1 })
  | .loadActive slot, own, memory => ((memory.slots slot).active, own, memory)
  | .takeSlot slot, own, memory =>
      if (memory.slots slot).active then (false, own, memory)
      else (true, own, memory.setSlot slot fun s => { s with active := true })
  | .freeSlot slot, own, memory =>
      ((), own, memory.setSlot slot fun s => { s with active := false })
  | .loadHeld slot, own, memory => ((memory.slots slot).held, own, memory)
  | .addHeld slot bytes, own, memory =>
      ((), own, memory.setSlot slot fun s => { s with held := s.held + bytes })
  | .storeHeld slot bytes, own, memory =>
      ((), own, memory.setSlot slot fun s => { s with held := bytes })
  | .takeHeld slot, own, memory =>
      ((memory.slots slot).held, own, memory.setSlot slot fun s => { s with held := 0 })
  | .loadOver slot, own, memory => ((memory.slots slot).over_, own, memory)
  | .storeOver slot value, own, memory =>
      ((), own, memory.setSlot slot fun s => { s with over_ := value })
  | .loadRefused slot, own, memory => ((memory.slots slot).refused, own, memory)
  | .storeRefused slot value, own, memory =>
      ((), own, memory.setSlot slot fun s => { s with refused := value })
  | .takeRefused slot, own, memory =>
      ((memory.slots slot).refused, own, memory.setSlot slot fun s => { s with refused := false })
  | .loadOrphan, own, memory => (memory.orphan, own, memory)
  | .addOrphan bytes, own, memory => ((), own, { memory with orphan := memory.orphan + bytes })
  | .loadReserved, own, memory => (memory.reserved, own, memory)
  | .reserve bytes limit, own, memory =>
      if memory.reserved + bytes ≤ u64Max ∧ memory.reserved + bytes ≤ limit then
        (true, own, { memory with reserved := memory.reserved + bytes })
      else (false, own, memory)
  | .unreserve bytes, own, memory => ((), own, { memory with reserved := memory.reserved - bytes })
  | .loadAsked, own, memory => (memory.asked, own, memory)
  | .swapAsked old new, own, memory =>
      ((), own, if memory.asked = old then { memory with asked := new } else memory)
  | .countRefusal, own, memory => ((), own, { memory with refusals := memory.refusals + 1 })
  | .enter tag, own, memory => ((), { own with session := some tag }, memory)
  | .leave, own, memory => ((), { own with session := none }, memory)
  | .answer value, own, memory => ((), { own with answers := own.answers ++ [value] }, memory)

section Effects

variable {memory : Memory} {own : Running}

theorem slots_setSlot (slot other : Index) (change : Slot → Slot) :
    (memory.setSlot slot change).slots other =
      if other = slot then change (memory.slots slot) else memory.slots other :=
  Function.update_apply _ _ _ _

/-- The words of the slots keep the generations of their epochs. -/
theorem generation_setSlot {slot : Index} {change : Slot → Slot}
    (each : ∀ slot, (memory.slots slot).word.generation = (memory.slots slot).epoch % generations)
    (here : (change (memory.slots slot)).word.generation =
      (change (memory.slots slot)).epoch % generations) (other : Index) :
    ((memory.setSlot slot change).slots other).word.generation =
      ((memory.setSlot slot change).slots other).epoch % generations := by
  rw [slots_setSlot]
  split
  · exact here
  · exact each other

@[simp]
theorem respond_allocations (op : Op) :
    (respond op own memory).2.2.allocations = memory.allocations := by
  cases op <;> simp only [respond]
  all_goals
    repeat' split
    all_goals rfl

@[simp]
theorem respond_freeing (op : Op) : (respond op own memory).2.1.freeing = own.freeing := by
  cases op <;> simp only [respond]
  all_goals
    repeat' split
    all_goals rfl

/-- An epoch ends only by the exchange of its slot's word. -/
theorem respond_epoch (op : Op) (slot : Index) :
    ((respond op own memory).2.2.slots slot).epoch = (memory.slots slot).epoch ∨
      (∃ next, op = .swapWord slot next) ∧
        ((respond op own memory).2.2.slots slot).epoch = (memory.slots slot).epoch + 1 := by
  have kept : ∀ (at_ : Index) (change : Slot → Slot), (∀ s, (change s).epoch = s.epoch) →
      ((memory.setSlot at_ change).slots slot).epoch = (memory.slots slot).epoch := by
    intro at_ change same
    rw [slots_setSlot]
    split
    case isTrue here => rw [same, here]
    case isFalse => rfl
  cases op
  case swapWord at_ next =>
    simp only [respond]
    by_cases here : slot = at_
    · subst here
      right
      refine ⟨⟨next, rfl⟩, ?_⟩
      rw [slots_setSlot, if_pos rfl]
    · left
      rw [slots_setSlot, if_neg here]
  all_goals
    left
    simp only [respond]
    repeat' split
    all_goals first
      | rfl
      | (dsimp only; apply kept; intro s; rfl)
      | (apply kept; intro s; rfl)

end Effects

end Operations

section Functions

variable (limits : Limits)

def call (op : Op) : Prog (Answer op) :=
  Process.call op

def roundUpChunks (bytes : ℕ) : ℕ :=
  min ((bytes + chunkBytes - 1) / chunkBytes * chunkBytes) u64Max

/-- Slot 0 is never claimed. -/
@[irreducible]
def claimable : List Index :=
  (List.finRange slotCount).filter (·.val ≠ 0)

/-- The slot a tag still names. -/
def slotOf : Option Tag → Prog (Option Index)
  | none => pure none
  | some tag => do
      let word : Word ← call (.loadWord tag.slot)
      pure (if word.generation = tag.generation then some tag.slot else none)

def poolLimit (orphan : ℤ) (pastCeiling : ℕ) : ℕ :=
  min (limits.ceiling - (max orphan 0).toNat + pastCeiling) u64Max

def poolTryReserve (bytes pastCeiling : ℕ) : Prog Bool := do
  let orphan : ℤ ← call .loadOrphan
  call (.reserve bytes (poolLimit limits orphan pastCeiling))

def countActive : List Index → ℕ → Prog ℕ
  | [], count => pure count
  | slot :: rest, count => do
      let active : Bool ← call (.loadActive slot)
      countActive rest (if active then count + 1 else count)

def fairShare : Prog ℕ := do
  let sessions ← countActive claimable 0
  let orphan : ℤ ← call .loadOrphan
  pure (max ((limits.ceiling - (max orphan 0).toNat) / max sessions 1) limits.floor)

def isAsked (slot : Index) (tag : Tag) : Prog Bool := do
  let isOver : Bool ← call (.loadOver slot)
  if isOver then pure true
  else do
    let asked : Option Tag ← call .loadAsked
    pure (decide (asked = some tag))

/-- The last of those with the most live bytes. -/
def better (best : Option (ℕ × Tag)) (live : ℕ) (tag : Tag) : Option (ℕ × Tag) :=
  match best with
  | some (most, other) => if most ≤ live then some (live, tag) else some (most, other)
  | none => some (live, tag)

/-- The slots' words, states and flags are read one after the other. -/
def findVictim (fair : ℕ) : List Index → Option (ℕ × Tag) → Prog (Option (ℕ × Tag))
  | [], best => pure best
  | slot :: rest, best => do
      let word : Word ← call (.loadWord slot)
      let active : Bool ← call (.loadActive slot)
      if active then do
        let isOver : Bool ← call (.loadOver slot)
        findVictim fair rest (if !isOver ∧ fair < word.live then
          better best word.live ⟨slot, word.generation⟩ else best)
      else findVictim fair rest best

def askVictim (fair : ℕ) : Prog Unit := do
  let victim ← findVictim fair claimable none
  match victim with
  | some (_, tag) => call (.swapAsked none (some tag))
  | none => pure ()

def askOne (fair : ℕ) : Prog Unit := do
  let asked : Option Tag ← call .loadAsked
  match asked with
  | none => askVictim fair
  | some tag => do
      let named ← slotOf (some tag)
      match named with
      | some _ => pure ()
      | none => do
          call (.swapAsked (some tag) none)
          askVictim fair

def sumLive : List Index → ℕ → Prog ℕ
  | [], sum => pure sum
  | slot :: rest, sum => do
      let active : Bool ← call (.loadActive slot)
      if active then do
        let word : Word ← call (.loadWord slot)
        sumLive rest (sum + word.live)
      else sumLive rest sum

def rebalance : Prog Unit := do
  let live ← sumLive claimable 0
  let orphan : ℤ ← call .loadOrphan
  if limits.ceiling < live + (max orphan 0).toNat then do
    let fair ← fairShare limits
    askOne fair
  else pure ()

/-- Mark the session over, if it is. -/
def markOver (slot : Index) (isOver : Bool) : Prog Unit :=
  if isOver then call (.storeOver slot true) else pure ()

/-- The pool is short: a session within its floor is granted the room all the same. -/
def grantWithinFloor (live need : ℕ) : Prog Bool :=
  if live ≤ limits.floor then poolTryReserve limits need limits.overdraftCap else pure false

def takeOrRefuse (slot : Index) (need : ℕ) (granted : Bool) : Prog Unit :=
  if granted then call (.addHeld slot need) else call (.storeRefused slot true)

def overdraw (slot : Index) (live need : ℕ) : Prog Unit := do
  call .countRefusal
  let granted ← grantWithinFloor limits live need
  takeOrRefuse slot need granted
  let fair ← fairShare limits
  askOne fair

/-- Room for the live bytes that are not reserved yet. -/
def reserveRoom (slot : Index) (live : ℕ) : Prog Unit := do
  let held : ℕ ← call (.loadHeld slot)
  if live ≤ held then pure ()
  else do
    let granted ← poolTryReserve limits (roundUpChunks (live - held)) 0
    if granted then call (.addHeld slot (roundUpChunks (live - held)))
    else do
      let refused : Bool ← call (.loadRefused slot)
      if refused then pure () else overdraw limits slot live (roundUpChunks (live - held))

def poolFree : Prog ℕ := do
  let reserved : ℕ ← call .loadReserved
  let orphan : ℤ ← call .loadOrphan
  pure (limits.ceiling - min (reserved + (max orphan 0).toNat) u64Max)

def askFair : Prog Unit := do
  let fair ← fairShare limits
  askOne fair

/-- The room is refused; to a session within its floor only because of the overdraft cap. -/
def refuseRoom (withinFloor : Bool) : Prog Bool := do
  call .countRefusal
  if withinFloor then do
    askFair limits
    pure false
  else pure false

def grantRoom : Prog Bool := do
  askFair limits
  pure true

/-- The pool is short of the room a session asks for. -/
def makeRoomShort (slot : Index) (bytes : ℕ) : Prog Bool := do
  let word : Word ← call (.loadWord slot)
  let orphan : ℤ ← call .loadOrphan
  let reserved : ℕ ← call .loadReserved
  if ¬min (word.live + bytes) u64Max ≤ limits.floor ∨
      poolLimit limits orphan limits.overdraftCap - reserved < bytes then
    refuseRoom limits (min (word.live + bytes) u64Max ≤ limits.floor)
  else grantRoom limits

/-- Whether the session may take more without waiting for another to end. -/
def makeRoom (tag : Tag) (bytes : ℕ) : Prog Bool := do
  let named ← slotOf (some tag)
  match named with
  | none => pure false
  | some slot => do
      let asked ← isAsked slot tag
      if asked then pure false
      else do
        let free ← poolFree limits
        if bytes ≤ free then pure true else makeRoomShort limits slot bytes

def charge (tag : Tag) (bytes : ℕ) : Prog Unit := do
  let named ← slotOf (some tag)
  match named with
  | none => pure ()
  | some slot => do
      let before : Word ← call (.addLive slot bytes)
      markOver slot (limits.peak < min (before.live + bytes) u64Max)
      let asked ← isAsked slot tag
      if asked then pure () else reserveRoom limits slot (min (before.live + bytes) u64Max)

/-- `current` is the session of the code that frees. -/
def refund (current : Option Tag) (tag : Tag) (bytes : ℕ) : Prog Unit := do
  let updated : Option Word ← call (.subLive tag bytes)
  match updated with
  | none => call (.addOrphan (-bytes))
  | some before =>
      if current ≠ some tag then pure ()
      else do
        let held : ℕ ← call (.loadHeld tag.slot)
        if roundUpChunks (before.live - bytes) + chunkBytes < held then do
          call (.storeHeld tag.slot (roundUpChunks (before.live - bytes)))
          call (.unreserve (held - roundUpChunks (before.live - bytes)))
        else pure ()

/-- The first slot that is free when it is tried. -/
def findFree : List Index → Prog (Option Index)
  | [] => pure none
  | slot :: rest => do
      let taken : Bool ← call (.takeSlot slot)
      if taken then pure (some slot) else findFree rest

def setUp (slot : Index) : Prog Unit := do
  call (.storeHeld slot 0)
  call (.storeOver slot false)
  call (.storeRefused slot false)
  let word : Word ← call (.loadWord slot)
  call (.enter ⟨slot, word.generation⟩)

def claim : ℕ → Prog Unit
  | 0 => pure ()
  | tries + 1 => do
      let found ← findFree claimable
      match found with
      | some slot => setUp slot
      | none => claim tries

def release (tag : Tag) : Prog Unit := do
  let named ← slotOf (some tag)
  match named with
  | none => pure ()
  | some slot => do
      let held : ℕ ← call (.takeHeld slot)
      call (.unreserve held)
      let left : Word ← call (.swapWord slot ⟨(tag.generation + 1) % generations, 0⟩)
      call (.addOrphan left.live)
      call (.swapAsked (some tag) none)
      call (.storeOver slot false)
      call (.storeRefused slot false)
      call .leave
      call (.freeSlot slot)

def currentOver (tag : Tag) : Prog Unit := do
  let named ← slotOf (some tag)
  match named with
  | none => call (.answer false)
  | some slot => do
      let asked ← isAsked slot tag
      if asked then call (.answer true)
      else do
        let refused : Bool ← call (.loadRefused slot)
        call (.answer refused)

/-- A session that was refused room is over when it holds more than its room and its share. -/
def endIfShort (slot : Index) (live : ℕ) (refused : Bool) : Prog Unit :=
  if refused then do
    let held : ℕ ← call (.loadHeld slot)
    let fair ← fairShare limits
    markOver slot (max held fair < live)
  else pure ()

def checkRetained (tag : Tag) : Prog Unit := do
  let named ← slotOf (some tag)
  match named with
  | none => call (.answer false)
  | some slot => do
      let word : Word ← call (.loadWord slot)
      markOver slot (limits.retained < word.live)
      let refused : Bool ← call (.takeRefused slot)
      endIfShort limits slot word.live refused
      let asked ← isAsked slot tag
      call (.answer asked)

end Functions

section Machine

/-- What a thread can begin. -/
inductive Begin
  | claim
  | alloc (bytes : ℕ)
  | free (allocation : Allocation) (unaccounted : Bool)
  | release
  | rebalance
  | currentOver
  | checkRetained
  | makeRoom (bytes : ℕ)
  deriving DecidableEq

inductive Action (count : ℕ)
  | advance (thread : Fin count)
  | begin_ (thread : Fin count) (what : Begin)
  deriving DecidableEq

abbrev Accounts (count : ℕ) := Pool Op Answer Memory Running count

def Accounts.initial (count : ℕ) : Accounts count :=
  ⟨.empty, fun _ => ⟨⟨none, none, []⟩, .done ()⟩⟩

/-- What a thread runs next, and the allocations then.  A thread without a session claims a slot,
one with a session allocates in it, asks about it or ends it; any thread frees and rebalances. -/
def startOf (limits : Limits) (own : Running) (memory : Memory) :
    Begin → Option (Running × List Allocation × Prog Unit)
  | .claim =>
      if own.session = none then some (own, memory.allocations, claim slotCount) else none
  | .alloc bytes => own.session.map fun tag =>
      (own, memory.allocations ++ [⟨tag, (memory.slots tag.slot).epoch, bytes⟩],
        charge limits tag bytes)
  | .free allocation unaccounted =>
      if allocation ∈ memory.allocations then
        some ({ own with freeing := some allocation }, memory.allocations.erase allocation,
          refund (if unaccounted then none else own.session) allocation.tag allocation.bytes)
      else none
  | .release => own.session.map fun tag => (own, memory.allocations, release tag)
  | .rebalance => some (own, memory.allocations, rebalance limits)
  | .currentOver => own.session.map fun tag => (own, memory.allocations, currentOver tag)
  | .checkRetained => own.session.map fun tag =>
      (own, memory.allocations, checkRetained limits tag)
  | .makeRoom bytes => own.session.map fun tag =>
      (own, memory.allocations, makeRoom limits tag bytes >>= fun _ => pure ())

/-- One step: an operation of a thread, or a thread that is done begins something. -/
def Accounts.step {count : ℕ} (limits : Limits) (accounts : Accounts count) :
    Action count → Accounts count
  | .advance thread => accounts.advance respond thread
  | .begin_ thread what =>
      match (accounts.threads thread).rest with
      | .perform _ _ => accounts
      | .done _ =>
          match startOf limits { (accounts.threads thread).data with freeing := none }
              accounts.shared what with
          | none => accounts
          | some (own, allocations, process) =>
              ⟨{ accounts.shared with allocations := allocations },
                Function.update accounts.threads thread ⟨own, process⟩⟩

/-- A thread that is done begins something, or nothing happens. -/
theorem step_begin {count : ℕ} (limits : Limits) (accounts : Accounts count)
    (thread : Fin count) (what : Begin) :
    accounts.step limits (.begin_ thread what) = accounts ∨
      ∃ own allocations process, (accounts.threads thread).busy = false ∧
        startOf limits { (accounts.threads thread).data with freeing := none } accounts.shared
          what = some (own, allocations, process) ∧
        accounts.step limits (.begin_ thread what) =
          ⟨{ accounts.shared with allocations := allocations },
            Function.update accounts.threads thread ⟨own, process⟩⟩ := by
  simp only [Accounts.step, Thread.busy]
  cases (accounts.threads thread).rest with
  | perform op next => exact .inl rfl
  | done value =>
      dsimp only
      split
      case h_1 => exact .inl rfl
      case h_2 own allocations process starts =>
        exact .inr ⟨own, allocations, process, rfl, starts, rfl⟩

end Machine

section Samples

/-- The threads of a run of two. -/
def firstThread : Fin 2 := 0

def secondThread : Fin 2 := 1

/-- A thread begins something, and takes so many steps. -/
def doing (thread : Fin 2) (what : Begin) (steps : ℕ) : List (Action 2) :=
  .begin_ thread what :: List.replicate steps (.advance thread)

/-- Four sessions share what the ceiling gives. -/
def tightLimits : Limits :=
  ⟨1048576, 262144, u64Max, 1048576⟩

end Samples

end Propolis.SessionMemory
