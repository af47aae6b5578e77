import Propolis.SessionMemory.Looking

/-!
# What a thread owes

In the middle of a function the counters do not agree: an allocation is made before it is charged,
room is reserved before it is held.  `Ghost` says what a thread owes at each point, and which slot
is its own.  `Pays` is the obligation of a process: it touches only its own slot, and owes nothing
when it is done.  It is proved once for each function, whatever the other threads do meanwhile.
-/

namespace Propolis.SessionMemory

open Interaction Threads

variable {limits : Limits} {ghost : Ghost} {op : Op} {Value : Type} {tag : Tag} {owner : Owner}
  {bytes need live : ℕ}

section Obligations

/-- A slot a thread has taken: until it closes it, a session runs in it. -/
structure Owner where
  slot : Index
  epoch : ℕ
  held : ℕ
  isOpen : Bool

/-- What a thread owes: bytes to the live counts and the orphan, room to what is held. -/
structure Ghost where
  session : Option Tag
  owner : Option Owner
  bytes : ℤ
  room : ℤ

def Ghost.owns (ghost : Ghost) (slot : Index) : Prop :=
  ∃ owner, ghost.owner = some owner ∧ owner.slot = slot

/-- What an operation answers and makes of the ghost, as far as the thread can tell. -/
def Turns : (op : Op) → Ghost → Answer op → Ghost → Prop
  | .loadWord slot, ghost, word, after => after = ghost ∧
      ∀ owner, ghost.owner = some owner → owner.slot = slot →
        word.generation = owner.epoch % generations
  | .addLive _ bytes, ghost, _, after => after = { ghost with bytes := ghost.bytes - bytes }
  | .subLive _ bytes, ghost, before, after =>
      after = { ghost with bytes := ghost.bytes + if before.isSome then (bytes : ℤ) else 0 }
  | .swapWord _ _, ghost, left, after => ∀ owner, ghost.owner = some owner →
      after = { ghost with
        owner := some { owner with epoch := owner.epoch + 1, isOpen := false }
        bytes := ghost.bytes + left.live }
  | .takeSlot slot, ghost, taken, after =>
      if taken then ∃ epoch, after = { ghost with owner := some ⟨slot, epoch, 0, true⟩ }
      else after = ghost
  | .freeSlot _, ghost, _, after => after = { ghost with owner := none }
  | .loadHeld slot, ghost, held, after => after = ghost ∧
      ∀ owner, ghost.owner = some owner → owner.slot = slot → held = owner.held
  | .addHeld _ bytes, ghost, _, after => ∀ owner, ghost.owner = some owner →
      after = { ghost with
        owner := some { owner with held := owner.held + bytes }, room := ghost.room - bytes }
  | .storeHeld _ bytes, ghost, _, after => ∀ owner, ghost.owner = some owner →
      after = { ghost with
        owner := some { owner with held := bytes }, room := ghost.room + owner.held - bytes }
  | .takeHeld _, ghost, held, after => ∀ owner, ghost.owner = some owner → held = owner.held ∧
      after = { ghost with
        owner := some { owner with held := 0 }, room := ghost.room + owner.held }
  | .addOrphan bytes, ghost, _, after => after = { ghost with bytes := ghost.bytes - bytes }
  | .reserve bytes _, ghost, granted, after =>
      after = { ghost with room := ghost.room + if granted then (bytes : ℤ) else 0 }
  | .unreserve bytes, ghost, _, after => after = { ghost with room := ghost.room - bytes }
  | .enter tag, ghost, _, after => after = { ghost with session := some tag }
  | .leave, ghost, _, after => after = { ghost with session := none }
  | _, ghost, _, after => after = ghost

/-- What an operation requires of the thread. -/
def Permits (limits : Limits) : Op → Ghost → Prop
  | .addLive slot _, ghost => ∃ owner, ghost.owner = some owner ∧ owner.slot = slot ∧
      owner.isOpen = true
  | .swapWord slot next, ghost => ∃ owner, ghost.owner = some owner ∧ owner.slot = slot ∧
      next = ⟨(owner.epoch + 1) % generations, 0⟩
  | .takeSlot _, ghost => ghost.owner = none
  | .freeSlot slot, ghost => ∃ owner, ghost.owner = some owner ∧ owner.slot = slot ∧
      owner.held = 0 ∧ owner.isOpen = false
  | .storeHeld slot bytes, ghost => ∃ owner, ghost.owner = some owner ∧ owner.slot = slot ∧
      bytes ≤ owner.held
  | .addHeld slot bytes, ghost => ghost.owns slot ∧ (bytes : ℤ) ≤ ghost.room
  | .takeHeld slot, ghost | .storeOver slot _, ghost | .storeRefused slot _, ghost
  | .takeRefused slot, ghost => ghost.owns slot
  | .reserve _ limit, _ => limit ≤ limits.ceiling + limits.overdraftCap
  | .unreserve bytes, ghost => (bytes : ℤ) ≤ ghost.room
  | _, _ => True

/-- The obligation of a process. -/
abbrev Owes {Value : Type} (limits : Limits) (process : Prog Value) (ghost : Ghost)
    (ends : Value → Ghost → Prop) : Prop :=
  Pays (Permits limits) Turns process ghost ends

/-- An operation that requires and changes nothing. -/
def Op.isLook : Op → Bool
  | .swapAsked _ _ | .answer _ => true
  | op => op.isLoad

theorem quiet_look (op : Op) (looks : op.isLook = true) :
    Permits limits op ghost ∧ ∀ answer after, Turns op ghost answer after → after = ghost := by
  cases op <;> cases looks
  all_goals
    refine ⟨trivial, ?_⟩
    intro answer after turned
  case loadWord | loadHeld => exact turned.1
  all_goals exact turned

theorem isLook_of_isLoad (loads : op.isLoad = true) : op.isLook = true := by
  cases op <;> first | exact loads | rfl

theorem owes_look {rest : Answer op → Prog Value} {ends : Value → Ghost → Prop}
    (looks : op.isLook = true) (follows : ∀ answer, Owes limits (rest answer) ghost ends) :
    Owes limits (call op >>= rest) ghost ends := by
  obtain ⟨permitted, kept⟩ := quiet_look op looks
  apply Pays.perform permitted
  intro answer after turned
  rw [kept answer after turned]
  exact follows answer

/-- What only looks owes nothing more than what follows. -/
theorem Looks.owes {process : Prog Value} {returns : Value → Prop} {ends : Value → Ghost → Prop}
    (looks : Looks process returns) (follows : ∀ value, ends value ghost) :
    Owes limits process ghost ends := by
  apply Only.pays looks
  · intro op loads
    exact quiet_look op (isLook_of_isLoad loads)
  · intro value _
    exact follows value

end Obligations

section Looking

/-- The tag of the thread's own session names its slot. -/
theorem owes_slotOf_own {ends : Option Index → Ghost → Prop} (owned : ghost.owner = some owner)
    (slot : tag.slot = owner.slot) (generation : tag.generation = owner.epoch % generations)
    (follows : ends (some owner.slot) ghost) : Owes limits (slotOf (some tag)) ghost ends := by
  apply Pays.perform trivial
  rintro word after ⟨rfl, known⟩
  have same := known owner owned slot.symm
  rw [generation, if_pos same, slot]
  exact follows

theorem owes_quiet : Quiet limits (Permits limits) Turns (fun _ => True) ghost where
  load op loads := quiet_look op (isLook_of_isLoad loads)
  swap old new _ := quiet_look (.swapAsked old new) rfl
  nobody := trivial
  victim _ _ := (looks_findVictim _ _ _).owes fun _ => ⟨rfl, trivial⟩

/-- Room that is granted is owed to what is held. -/
theorem owes_poolTryReserve {past : ℕ} {ends : Bool → Ghost → Prop}
    (within : past ≤ limits.overdraftCap)
    (follows : ∀ granted, ends granted
      { ghost with room := ghost.room + if granted then (bytes : ℤ) else 0 }) :
    Owes limits (poolTryReserve limits bytes past) ghost ends := by
  apply owes_look rfl
  intro orphan
  apply Pays.call
  · simp only [Permits, poolLimit]
    omega
  · rintro granted after rfl
    exact follows granted

end Looking

section Functions

variable {current : Option Tag} {ends : Unit → Ghost → Prop}

/-- The thread owes nothing, and its slot is that of its session. -/
def Ghost.Settled (ghost : Ghost) : Prop :=
  ghost.bytes = 0 ∧ ghost.room = 0 ∧
    match ghost.owner with
    | none => ghost.session = none
    | some owner => owner.isOpen = true ∧
        ghost.session = some ⟨owner.slot, owner.epoch % generations⟩

def settled : Unit → Ghost → Prop :=
  fun _ ghost => ghost.Settled

theorem Ghost.Settled.free (settled : ghost.Settled) (session : ghost.session = none) :
    ghost.owner = none := by
  obtain ⟨-, -, runs⟩ := settled
  cases owned : ghost.owner with
  | none => rfl
  | some owner =>
      rw [owned] at runs
      rw [runs.2] at session
      cases session

theorem Ghost.Settled.owned (settled : ghost.Settled)
    (session : ghost.session = some tag) : ∃ owner, ghost.owner = some owner ∧
      owner.isOpen = true ∧ tag.slot = owner.slot ∧
      tag.generation = owner.epoch % generations := by
  obtain ⟨-, -, runs⟩ := settled
  cases owned : ghost.owner with
  | none =>
      rw [owned] at runs
      rw [runs] at session
      cases session
  | some owner =>
      rw [owned] at runs
      rw [runs.2] at session
      cases session
      exact ⟨owner, rfl, runs.1, rfl, rfl⟩

theorem room_refused (ghost : Ghost) (need : ℕ) :
    { ghost with room := ghost.room + if false = true then (need : ℤ) else 0 } = ghost := by
  simp

/-- Room that was granted is held, and the thread owes nothing again. -/
theorem owes_hold (done : ghost.Settled) (owned : ghost.owner = some owner)
    (follows : ∀ after : Ghost, after.Settled → ends () after) :
    Owes limits (call (.addHeld owner.slot need)) { ghost with room := ghost.room + need }
      ends := by
  obtain ⟨bytes, room, runs⟩ := done
  apply Pays.call
  · refine ⟨⟨owner, owned, rfl⟩, ?_⟩
    simp [room]
  · intro _ after turned
    obtain rfl := turned owner owned
    apply follows
    refine ⟨bytes, ?_, ?_⟩
    · simp [room]
    · rw [owned] at runs
      exact runs

theorem owes_flag {ends : Answer op → Ghost → Prop}
    (flag : (∃ value, op = .storeOver owner.slot value) ∨
      (∃ value, op = .storeRefused owner.slot value) ∨ op = .takeRefused owner.slot)
    (owned : ghost.owner = some owner) (follows : ∀ answer, ends answer ghost) :
    Owes limits (call op) ghost ends := by
  rcases flag with ⟨value, rfl⟩ | ⟨value, rfl⟩ | rfl
  all_goals
    apply Pays.call ⟨owner, owned, rfl⟩
    rintro answer after rfl
    exact follows answer

theorem owes_markOver {isOver : Bool} (owned : ghost.owner = some owner) (follows : ends () ghost) :
    Owes limits (markOver owner.slot isOver) ghost ends := by
  cases isOver with
  | true =>
      apply owes_flag (.inl ⟨true, rfl⟩) owned
      intro _
      exact follows
  | false => exact follows

section

variable (done : ghost.Settled) (owned : ghost.owner = some owner)
include done owned

theorem owes_takeOrRefuse {granted : Bool}
    (follows : ∀ after : Ghost, after.Settled → ends () after) :
    Owes limits (takeOrRefuse owner.slot need granted)
      { ghost with room := ghost.room + if granted then (need : ℤ) else 0 } ends := by
  cases granted with
  | true => exact owes_hold done owned follows
  | false =>
      rw [room_refused]
      apply owes_flag (.inr (.inl ⟨true, rfl⟩)) owned
      intro _
      exact follows ghost done

theorem owes_overdraw : Owes limits (overdraw limits owner.slot live need) ghost settled := by
  have takes : ∀ granted, Owes limits (takeOrRefuse owner.slot need granted >>= fun _ =>
      askFair limits)
      { ghost with room := ghost.room + if granted then (need : ℤ) else 0 } settled := by
    intro granted
    apply Pays.bind
    apply owes_takeOrRefuse done owned
    intro after done
    exact owes_quiet.pays_askFair done
  apply owes_look rfl
  intro _
  apply Pays.bind
  rw [grantWithinFloor]
  split
  · exact owes_poolTryReserve (Nat.le_refl _) takes
  · have refused := takes false
    rw [room_refused] at refused
    exact refused

theorem owes_reserveRoom : Owes limits (reserveRoom limits owner.slot live) ghost settled := by
  apply owes_look rfl
  intro held
  split
  · exact done
  · apply Pays.bind
    apply owes_poolTryReserve (Nat.zero_le _)
    intro granted
    cases granted with
    | true => exact owes_hold done owned fun _ done => done
    | false =>
        rw [room_refused]
        apply owes_look rfl
        intro refused
        cases refused with
        | true => exact done
        | false => exact owes_overdraw done owned

end

theorem owes_charge (done : ghost.Settled) (session : ghost.session = some tag) :
    Owes limits (charge limits tag bytes) { ghost with bytes := bytes } settled := by
  obtain ⟨owner, owned, isOpen, slot, generation⟩ := done.owned session
  have paid : { ghost with bytes := (bytes : ℤ) - bytes } = ghost := by
    rw [sub_self, ← done.1]
  have indebted : { ghost with bytes := (bytes : ℤ) }.owner = some owner := owned
  apply Pays.bind
  apply owes_slotOf_own indebted slot generation
  refine Pays.perform ⟨owner, indebted, rfl, isOpen⟩ ?_
  rintro before after rfl
  rw [paid]
  apply Pays.bind
  apply owes_markOver owned
  apply Pays.bind
  apply (looks_isAsked _ _).owes
  intro asked
  cases asked with
  | true => exact done
  | false => exact owes_reserveRoom done owned

/-- The code that frees runs the session of the allocation. -/
theorem session_of_current (own : ¬current ≠ some tag)
    (session : current = none ∨ current = ghost.session) : ghost.session = some tag := by
  rw [not_not] at own
  rcases session with none_ | same
  · rw [none_] at own
    cases own
  · rw [← same, own]

theorem owes_refund (done : ghost.Settled) (session : current = none ∨ current = ghost.session) :
    Owes limits (refund current tag bytes) { ghost with bytes := -bytes } settled := by
  have paid : { ghost with bytes := (-bytes : ℤ) + bytes } = ghost := by
    rw [neg_add_cancel, ← done.1]
  apply Pays.perform trivial
  rintro updated after rfl
  cases updated with
  | none =>
      apply Pays.call trivial
      rintro _ after rfl
      simp only [Option.isSome_none, Bool.false_eq_true, if_false, add_zero, sub_neg_eq_add]
      rw [paid]
      exact done
  | some before =>
      simp only [Option.isSome_some, if_true]
      rw [paid]
      split
      · exact done
      case isFalse own =>
        obtain ⟨owner, owned, isOpen, slot, -⟩ := done.owned (session_of_current own session)
        apply Pays.perform trivial
        rintro held after ⟨rfl, known⟩
        have same := known owner owned slot.symm
        split
        case isTrue more =>
          apply Pays.perform ⟨owner, owned, slot.symm, by rw [← same]; omega⟩
          intro _ after turned
          obtain rfl := turned owner owned
          obtain ⟨noBytes, noRoom, runs⟩ := done
          apply Pays.call
          · simp only [Permits, ← same]
            omega
          · rintro _ after rfl
            refine ⟨noBytes, ?_, ?_⟩
            · simp only [← same]
              omega
            · rw [owned] at runs
              exact runs
        case isFalse => exact done

theorem owes_findFree {slots : List Index} {ends : Option Index → Ghost → Prop}
    (free : ghost.owner = none) (missed : ends none ghost)
    (found : ∀ slot epoch, ends (some slot) { ghost with owner := some ⟨slot, epoch, 0, true⟩ }) :
    Owes limits (findFree slots) ghost ends := by
  induction slots with
  | nil => exact missed
  | cons slot rest ih =>
      apply Pays.perform (show Permits limits (.takeSlot slot) ghost from free)
      intro taken after turned
      cases taken with
      | true =>
          obtain ⟨epoch, rfl⟩ := turned
          exact found slot epoch
      | false =>
          obtain rfl : after = ghost := turned
          exact ih

theorem owes_setUp {slot : Index} {epoch : ℕ} (bytes : ghost.bytes = 0) (room : ghost.room = 0) :
    Owes limits (setUp slot) { ghost with owner := some ⟨slot, epoch, 0, true⟩ } settled := by
  apply Pays.perform ⟨_, rfl, rfl, Nat.le_refl _⟩
  intro _ after turned
  obtain rfl := turned _ rfl
  apply Pays.perform ⟨_, rfl, rfl⟩
  rintro _ after rfl
  apply Pays.perform ⟨_, rfl, rfl⟩
  rintro _ after rfl
  apply Pays.perform trivial
  rintro word after ⟨rfl, known⟩
  have same : word.generation = epoch % generations := known _ rfl rfl
  apply Pays.call trivial
  rintro _ after rfl
  refine ⟨bytes, ?_, rfl, ?_⟩
  · simpa using room
  · rw [same]

section

variable (done : ghost.Settled)
include done

theorem owes_claim {tries : ℕ} (free : ghost.owner = none) :
    Owes limits (claim tries) ghost settled := by
  induction tries with
  | zero => exact done
  | succ tries ih =>
      apply Pays.bind
      apply owes_findFree free
      · exact ih
      · intro slot epoch
        exact owes_setUp done.1 done.2.1

theorem owes_release (session : ghost.session = some tag) :
    Owes limits (release tag) ghost settled := by
  obtain ⟨owner, owned, isOpen, slot, generation⟩ := done.owned session
  obtain ⟨bytes, room, -⟩ := done
  apply Pays.bind
  apply owes_slotOf_own owned slot generation
  apply Pays.perform ⟨owner, owned, rfl⟩
  intro held after turned
  obtain ⟨rfl, rfl⟩ := turned owner owned
  apply Pays.bind
  apply Pays.call
  · simp [Permits, room]
  rintro _ after rfl
  apply Pays.bind
  apply Pays.call
  · refine ⟨_, rfl, rfl, ?_⟩
    rw [generation, Nat.mod_add_mod]
  intro left after turned
  obtain rfl := turned _ rfl
  apply Pays.perform trivial
  rintro _ after rfl
  apply owes_look rfl
  intro _
  apply Pays.perform ⟨_, rfl, rfl⟩
  rintro _ after rfl
  apply Pays.perform ⟨_, rfl, rfl⟩
  rintro _ after rfl
  apply Pays.perform trivial
  rintro _ after rfl
  apply Pays.call ⟨_, rfl, rfl, rfl, rfl⟩
  rintro _ after rfl
  refine ⟨?_, ?_, rfl⟩
  · simp [bytes]
  · simp [room]

theorem owes_currentOver : Owes limits (currentOver tag) ghost settled := by
  have answers : ∀ value, Owes limits (call (.answer value)) ghost settled := by
    intro value
    apply owes_look rfl
    intro _
    exact done
  apply Pays.bind
  apply (looks_slotOf _).owes
  rintro (_ | slot)
  · exact answers false
  · apply Pays.bind
    apply (looks_isAsked _ _).owes
    intro asked
    cases asked with
    | true => exact answers true
    | false =>
        apply owes_look rfl
        intro refused
        exact answers refused

theorem owes_checkRetained (session : ghost.session = some tag) :
    Owes limits (checkRetained limits tag) ghost settled := by
  obtain ⟨owner, owned, isOpen, slot, generation⟩ := done.owned session
  apply Pays.bind
  apply owes_slotOf_own owned slot generation
  apply owes_look rfl
  intro word
  apply Pays.bind
  apply owes_markOver owned
  apply Pays.bind
  apply owes_flag (.inr (.inr rfl)) owned
  intro refused
  have asks : Owes limits (isAsked owner.slot tag >>= fun asked => call (.answer asked)) ghost
      settled := by
    apply Pays.bind
    apply (looks_isAsked _ _).owes
    intro asked
    apply owes_look rfl
    intro _
    exact done
  apply Pays.bind
  cases refused with
  | false => exact asks
  | true =>
      apply owes_look rfl
      intro held
      apply Pays.bind
      apply looks_fairShare.owes
      intro fair
      exact owes_markOver owned asks

end

/-- What a refund for the tag does.  Room is given back only by the session of the tag. -/
def MayFree (tag : Tag) : Op → Ghost → Prop
  | .subLive other _, _ => other = tag
  | .storeHeld slot _, ghost => slot = tag.slot ∧ ∃ owner, ghost.owner = some owner ∧
      owner.slot = slot ∧ owner.epoch % generations = tag.generation
  | .addOrphan _, _ | .loadHeld _, _ | .unreserve _, _ => True
  | _, _ => False

theorem frees_refund (done : ghost.Settled)
    (session : current = none ∨ current = ghost.session) (debt : ℤ) :
    Pays (MayFree tag) Turns (refund current tag bytes) { ghost with bytes := debt }
      fun _ _ => True := by
  refine Pays.perform rfl ?_
  rintro updated after rfl
  cases updated with
  | none => exact Pays.call trivial fun _ _ _ => trivial
  | some before =>
      dsimp only
      split
      · trivial
      case isFalse own =>
        obtain ⟨owner, owned, -, slot, generation⟩ :=
          done.owned (session_of_current own session)
        apply Pays.perform trivial
        rintro held after ⟨rfl, -⟩
        split
        · refine Pays.perform ⟨rfl, owner, owned, slot.symm, generation.symm⟩ ?_
          intro _ after _
          exact Pays.call trivial fun _ _ _ => trivial
        · trivial

end Functions

end Propolis.SessionMemory
