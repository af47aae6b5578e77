import Propolis.SessionMemory.Sheltered

/-!
# Small sessions are spared, for a while

A session within its floor is never told to end, if less than a round of generations ended in its
slot before it (`small_session_sheltered`).

After a round its tag is that of the first session.  The watchdog chooses a session that holds too
much, and is held up before it asks it to end.  The session ends by itself, and so many sessions end
in its slot.  What the watchdog then does asks the next one to end, though it holds nothing.
-/

namespace Propolis.SessionMemory

open Interaction Threads

section Spared

variable {limits : Limits} {count : ℕ} {ward : Ward limits} {accounts : Accounts count}
  {views : Fin count → View}

/-- Nothing that was claimed says that the session of the slot at the epoch must end. -/
structure Sheltered (accounts : Accounts count) (slot : Index) (epoch : ℕ) : Prop where
  asked : accounts.shared.asked ≠ some ⟨slot, epoch % generations⟩
  flags : ∀ thread,
    (accounts.threads thread).data.session = some ⟨slot, epoch % generations⟩ →
    (accounts.shared.slots slot).over_ = false ∧ (accounts.shared.slots slot).refused = false
  answers : ∀ thread value next,
    (accounts.threads thread).data.session = some ⟨slot, epoch % generations⟩ →
    (accounts.threads thread).rest = .perform (.answer value) next → value = false

theorem Guarded.sheltered (guarded : Guarded ward accounts views)
    (now : (accounts.shared.slots ward.slot).epoch = ward.epoch) :
    Sheltered accounts ward.slot ward.epoch := by
  have tag : (⟨ward.slot, ward.epoch % generations⟩ : Tag) = ward.tag :=
    Ward.tag_of_isAt ⟨rfl, rfl⟩
  -- the thread that runs the ward holds its slot, at its epoch
  have held : ∀ thread, (accounts.threads thread).data.session = some ward.tag →
      ∃ holder, (views thread).holder = some holder ∧ ward.isAt holder.slot holder.epoch := by
    intro thread running
    have session := (guarded.heeding thread).session.trans running
    obtain ⟨holder, held, slot⟩ := (guarded.watched.calm thread).1 _ session
    refine ⟨holder, held, slot, ?_⟩
    rw [← (guarded.watched.own thread holder held).2.1, slot]
    exact now
  refine ⟨?_, ?_, ?_⟩
  · rw [tag]
    exact guarded.watched.asked
  · intro thread running
    rw [tag] at running
    obtain ⟨holder, held, here⟩ := held thread running
    obtain ⟨-, -, over_, refused⟩ := guarded.watched.own thread holder held
    rw [here.1] at over_ refused
    rw [over_, refused]
    exact (guarded.watched.calm thread).2 holder
      ((guarded.heeding thread).session.trans running) held here
  · intro thread value next running rest
    rw [tag] at running
    obtain ⟨holder, held, here⟩ := held thread running
    have keeps := (guarded.heeding thread).keeps
    rw [rest] at keeps
    exact keeps.1 holder held here

/-- A session within its floor, in whose slot few enough sessions ended before, is never marked
over, refused or asked to end, and is never told that it must end: whatever the others do. -/
theorem small_session_sheltered {ceiling maxConcurrent retained : ℕ}
    (configured : configure ceiling maxConcurrent retained = some limits)
    (kept : limits.floor ≤ limits.retained) (slot : Index) (epoch : ℕ)
    (early : epoch < generations) (actions : List (Action count))
    (met : Run.meets (Accounts.step limits) (modest limits slot epoch) (.initial count) actions =
      true)
    (now : ((actions.foldl (Accounts.step limits) (.initial count)).shared.slots slot).epoch =
      epoch) :
    Sheltered (actions.foldl (Accounts.step limits) (.initial count)) slot epoch := by
  have unbounded : limits.overdraftCap = u64Max := by
    simp only [configure] at configured
    split at configured
    · cases configured
    · split at configured
      · cases configured
      · cases configured
        rfl
  let ward : Ward limits := ⟨slot, epoch, early, unbounded, kept⟩
  obtain ⟨views, guarded⟩ := @guarded_of_meets limits count ward actions met now.le
  exact guarded.sheltered now

/-- A session allocates and ends, and the next one in its slot asks whether it must end. -/
def reusedSlot : List (Action 2) :=
  doing firstThread .claim 6 ++ doing firstThread (.alloc 100000) 8 ++
  doing firstThread .release 10 ++ doing secondThread .claim 6 ++
  doing secondThread (.alloc 1000) 8 ++ doing secondThread .currentOver 4

theorem small_session_sheltered_reused :
    configure 1048576 4 1048576 = some tightLimits ∧
      Run.meets (Accounts.step tightLimits) (modest tightLimits ⟨1, by decide⟩ 1) (.initial 2)
        reusedSlot = true ∧
      Sheltered (reusedSlot.foldl (Accounts.step tightLimits) (.initial 2)) ⟨1, by decide⟩ 1 := by
  have configured : configure 1048576 4 1048576 = some tightLimits := by
    decide
  have met : Run.meets (Accounts.step tightLimits) (modest tightLimits ⟨1, by decide⟩ 1)
      (.initial 2) reusedSlot = true := by
    decide +kernel
  refine ⟨configured, met, ?_⟩
  apply small_session_sheltered configured (by decide) _ _ (by decide) _ met
  decide +kernel

end Spared

variable {memory : Memory} {own : Running} {slot : Slot} {orphan : ℤ} {generation epoch live : ℕ}
  {over_ : Bool} {threads : Fin 2 → Thread Op Answer Running}

section Setting

def firstSlot : Index :=
  ⟨1, one_lt_slotCount⟩

/-- More than a session may come to hold. -/
def bigBytes : ℕ :=
  33554432

/-- What the guard asks of an operation, for the session that gets the tag of the first. -/
def allowedOp (op : Op) (memory : Memory) : Bool :=
  op.modest tightLimits firstSlot generations memory && op.countable memory

/-- What is in the first slot, when no session is asked to end. -/
structure Calm (memory : Memory) (slot : Slot) (orphan : ℤ) : Prop where
  slot : memory.slots firstSlot = slot
  asked : memory.asked = none
  orphan : memory.orphan = orphan

section

variable (calm : Calm memory slot orphan)
include calm

theorem Calm.setSlot (change : Slot → Slot) :
    Calm (memory.setSlot firstSlot change) (change slot) orphan := by
  refine { calm with slot := ?_ }
  rw [slots_setSlot, if_pos rfl, calm.slot]

/-- An operation that writes to the slot. -/
theorem Calm.write {op : Op} {Value : Type} (answer : Answer op) (change : Slot → Slot)
    {rest : Answer op → Prog Value} {ends : Value → Running → Memory → Prop}
    (permitted : allowedOp op memory = true)
    (acts : Calm memory slot orphan →
      respond op own memory = (answer, own, memory.setSlot firstSlot change))
    (follows : ∀ memory, Calm memory (change slot) orphan →
      Alone respond allowedOp (rest answer) own memory ends) :
    Alone respond allowedOp (call op >>= rest) own memory ends := by
  refine Alone.call permitted ?_
  rw [acts calm]
  exact follows _ (calm.setSlot change)

end

theorem claimable_eq : ∃ others, claimable = firstSlot :: others := by
  apply List.head?_eq_some_iff.mp
  decide +kernel

end Setting

section Functions

theorem alone_claim
    (calm : Calm memory ⟨⟨generation, 0⟩, false, 0, false, false, epoch⟩ orphan) :
    Alone respond allowedOp (claim slotCount) own memory fun _ after memory =>
      after = { own with session := some ⟨firstSlot, generation⟩ } ∧
        Calm memory ⟨⟨generation, 0⟩, true, 0, false, false, epoch⟩ orphan := by
  obtain ⟨others, same⟩ := claimable_eq
  apply Alone.bind
  rw [same]
  refine calm.write true (fun s => { s with active := true }) rfl ?_ fun memory calm => ?_
  · intro calm
    simp only [respond, calm.slot]
    rfl
  refine calm.write () (fun s => { s with held := 0 }) rfl (fun _ => rfl) fun memory calm => ?_
  refine calm.write () (fun s => { s with over_ := false }) rfl (fun _ => rfl)
    fun memory calm => ?_
  refine calm.write () (fun s => { s with refused := false }) rfl (fun _ => rfl)
    fun memory calm => ?_
  refine Alone.call rfl ⟨rfl, ?_, calm⟩
  simp only [respond, calm.slot]

/-- What the session holds is left over when it ends. -/
theorem alone_release
    (calm : Calm memory ⟨⟨epoch % generations, live⟩, true, 0, over_, false, epoch⟩ orphan) :
    Alone respond allowedOp (release ⟨firstSlot, epoch % generations⟩) own memory
      fun _ after memory => after = { own with session := none } ∧
        Calm memory ⟨⟨(epoch + 1) % generations, 0⟩, false, 0, false, false, epoch + 1⟩
          (orphan + live) := by
  apply Alone.bind
  refine Alone.call rfl ?_
  simp only [respond, calm.slot]
  refine calm.write 0 (fun s => { s with held := 0 }) rfl ?_ fun memory calm => ?_
  · intro calm
    simp only [respond, calm.slot]
  refine Alone.call rfl ?_
  refine calm.write (Word.mk (epoch % generations) live) (fun s => { s with
    word := ⟨(epoch % generations + 1) % generations, 0⟩, epoch := s.epoch + 1 }) rfl ?_
    fun memory calm => ?_
  · intro calm
    simp only [respond, calm.slot]
  refine Alone.call rfl (Alone.call rfl ?_)
  have calm : Calm { memory with orphan := memory.orphan + live } _ (orphan + live) :=
    { calm with orphan := congrArg (· + (live : ℤ)) calm.orphan }
  simp only [respond, calm.asked]
  refine calm.write () (fun s => { s with over_ := false }) rfl (fun _ => rfl)
    fun memory calm => ?_
  refine calm.write () (fun s => { s with refused := false }) rfl (fun _ => rfl)
    fun memory calm => ?_
  refine Alone.call rfl ⟨rfl, rfl, ?_⟩
  have calm := calm.setSlot fun s => { s with active := false }
  rw [Nat.mod_add_mod] at calm
  exact calm

end Functions

section Machine

variable {memory' : Memory} {own' : Running} {process process' : Prog Unit}
  {what : Begin} {allocations : List Allocation}

abbrev Leads (accounts final : Accounts 2) : Prop :=
  Run.Reaches (Accounts.step tightLimits) (modest tightLimits firstSlot generations) accounts
    final

/-- A thread goes on while the other waits. -/
theorem leads_gets (thread : Fin 2) (at_ : threads thread = ⟨own, process⟩)
    (gets : Gets respond allowedOp process own memory process' own' memory') :
    Leads ⟨memory, threads⟩ ⟨memory', Function.update threads thread ⟨own', process'⟩⟩ := by
  induction gets generalizing threads with
  | here =>
      rw [← at_, Function.update_eq_self]
      exact .refl _
  | @step op next own own' memory memory' process permitted _ ih =>
      let accounts : Accounts 2 := ⟨memory, threads⟩
      have rest : (accounts.threads thread).rest = .perform op next := congrArg Thread.rest at_
      have data : (accounts.threads thread).data = own := congrArg Thread.data at_
      have met : modest tightLimits firstSlot generations accounts (.advance thread) = true := by
        simp only [modest, rest]
        exact permitted
      have stepped : Leads accounts (accounts.step tightLimits (.advance thread)) :=
        Run.Reaches.single met
      simp only [Accounts.step, Pool.advance_eq rest, data] at stepped
      apply stepped.trans
      have later := @ih (Function.update threads thread _) (Function.update_self ..)
      rw [Function.update_idem] at later
      exact later

variable (thread : Fin 2) (at_ : threads thread = ⟨own, .done ()⟩)
  (starts : startOf tightLimits { own with freeing := none } memory what =
    some (own', allocations, process))
include at_ starts

/-- A thread that is done begins something. -/
theorem leads_start :
    Leads ⟨memory, threads⟩ ⟨{ memory with allocations := allocations },
      Function.update threads thread ⟨own', process⟩⟩ := by
  let accounts : Accounts 2 := ⟨memory, threads⟩
  have stepped : Leads accounts (accounts.step tightLimits (.begin_ thread what)) :=
    Run.Reaches.single rfl
  have began : accounts.step tightLimits (.begin_ thread what) =
      ⟨{ memory with allocations := allocations },
        Function.update threads thread ⟨own', process⟩⟩ := by
    simp only [Accounts.step, accounts, at_, starts]
  rw [began] at stepped
  exact stepped

/-- A function of a thread, from its beginning to its end. -/
theorem leads_function {ends : Unit → Running → Memory → Prop}
    (runs : Alone respond allowedOp process own' { memory with allocations := allocations } ends) :
    ∃ after memory', ends () after memory' ∧
      Leads ⟨memory, threads⟩ ⟨memory', Function.update threads thread ⟨after, .done ()⟩⟩ := by
  obtain ⟨_, after, memory', ended, gets⟩ := runs.ended
  have leads := (leads_start thread at_ starts).trans
    (leads_gets thread (Function.update_self ..) gets)
  rw [Function.update_idem] at leads
  exact ⟨after, memory', ended, leads⟩

end Machine

section Around

/-- The session ends and the next one begins. -/
theorem leads_next (at_ : threads 1 = ⟨own, .done ()⟩)
    (calm : Calm memory ⟨⟨epoch % generations, live⟩, true, 0, over_, false, epoch⟩ orphan)
    (session : own.session = some ⟨firstSlot, epoch % generations⟩) :
    ∃ after memory', after.session = some ⟨firstSlot, (epoch + 1) % generations⟩ ∧
      Calm memory' ⟨⟨(epoch + 1) % generations, 0⟩, true, 0, false, false, epoch + 1⟩
        (orphan + live) ∧
      Leads ⟨memory, threads⟩ ⟨memory', Function.update threads 1 ⟨after, .done ()⟩⟩ := by
  have releases : startOf tightLimits { own with freeing := none } memory .release =
      some ({ own with freeing := none }, memory.allocations,
        release ⟨firstSlot, epoch % generations⟩) := by
    simp [startOf, session]
  obtain ⟨between, idle, ⟨ended, free⟩, released⟩ :=
    leads_function 1 at_ releases (alone_release calm)
  have claims : startOf tightLimits { between with freeing := none } idle .claim =
      some ({ between with freeing := none }, idle.allocations, claim slotCount) := by
    simp [startOf, ended]
  obtain ⟨after, memory', ⟨began, taken⟩, claimed⟩ :=
    leads_function 1 (Function.update_self 1 _ threads) claims (alone_claim free)
  rw [Function.update_idem] at claimed
  exact ⟨after, memory', congrArg Running.session began, taken, released.trans claimed⟩

theorem leads_later (at_ : threads 1 = ⟨own, .done ()⟩) (later : ℕ)
    (calm : Calm memory ⟨⟨epoch % generations, 0⟩, true, 0, false, false, epoch⟩ orphan)
    (session : own.session = some ⟨firstSlot, epoch % generations⟩) :
    ∃ after memory', after.session = some ⟨firstSlot, (epoch + later) % generations⟩ ∧
      Calm memory' ⟨⟨(epoch + later) % generations, 0⟩, true, 0, false, false, epoch + later⟩
        orphan ∧
      Leads ⟨memory, threads⟩ ⟨memory', Function.update threads 1 ⟨after, .done ()⟩⟩ := by
  induction later with
  | zero =>
      refine ⟨own, memory, session, calm, ?_⟩
      rw [← at_, Function.update_eq_self]
      exact .refl _
  | succ later ih =>
      obtain ⟨after, memory', session, calm, leads⟩ := ih
      obtain ⟨last, final, session, calm, next⟩ :=
        leads_next (Function.update_self 1 _ threads) calm session
      rw [Nat.cast_zero, add_zero] at calm
      rw [Function.update_idem] at next
      exact ⟨last, final, session, calm, leads.trans next⟩

/-- The watchdog is about to ask the first session to end. -/
def asksFirst : Prog Unit → Bool
  | .perform (.swapAsked none (some tag)) _ => tag = ⟨firstSlot, 0⟩
  | _ => false

theorem asksFirst_eq {process : Prog Unit} (asks : asksFirst process = true) :
    ∃ next, process = .perform (.swapAsked none (some ⟨firstSlot, 0⟩)) next := by
  unfold asksFirst at asks
  split at asks
  · rename_i tag next
    exact ⟨next, by rw [of_decide_eq_true asks]⟩
  · cases asks

/-- The first session has added what it allocates when the watchdog looks through the slots; then it
is marked over. -/
def heldUp : List (Action 2) :=
  doing secondThread .claim 6 ++ doing secondThread (.alloc bigBytes) 2 ++
  doing firstThread .rebalance 8193 ++ List.replicate 2 (.advance secondThread)

/-- The watchdog is held up before it asks a session that holds too much. -/
def isHeldUp (accounts : Accounts 2) : Bool :=
  asksFirst (accounts.threads firstThread).rest && !(accounts.threads secondThread).busy &&
    decide ((accounts.threads secondThread).data.session = some ⟨firstSlot, 0⟩ ∧
      accounts.shared.slots firstSlot = ⟨⟨0, bigBytes⟩, true, 0, true, false, 0⟩ ∧
      accounts.shared.asked = none ∧ accounts.shared.orphan = 0)

theorem heldUp_arrives :
    Run.arrives (Accounts.step tightLimits) (modest tightLimits firstSlot generations) isHeldUp
      (.initial 2) heldUp = true := by
  decide +kernel

theorem leads_held_up : ∃ memory threads own next,
    Leads (.initial 2) ⟨memory, threads⟩ ∧
    (threads 0).rest = .perform (.swapAsked none (some ⟨firstSlot, 0⟩)) next ∧
    threads 1 = ⟨own, .done ()⟩ ∧ own.session = some ⟨firstSlot, 0 % generations⟩ ∧
    Calm memory ⟨⟨0 % generations, bigBytes⟩, true, 0, true, false, 0⟩ 0 := by
  obtain ⟨⟨memory, threads⟩, checked, leads⟩ := Run.reaches_of_arrives heldUp_arrives
  simp only [isHeldUp, Bool.and_eq_true, Bool.not_eq_true', decide_eq_true_eq] at checked
  obtain ⟨⟨asks, idle⟩, session, slot, asked, orphan⟩ := checked
  obtain ⟨next, asking⟩ := asksFirst_eq asks
  refine ⟨memory, threads, _, next, leads, asking, ?_, session, slot, asked, orphan⟩
  rw [← Thread.rest_of_not_busy idle]
  rfl

theorem gets_currentOver
    (found : memory.slots firstSlot = ⟨⟨generation, 0⟩, true, 0, false, false, epoch⟩)
    (asked : memory.asked = some ⟨firstSlot, generation⟩) :
    Gets respond allowedOp (currentOver ⟨firstSlot, generation⟩) own memory
      (call (.answer true)) own memory := by
  apply Alone.gets
  refine Alone.call rfl ?_
  simp only [respond, found]
  apply Alone.gets
  refine Alone.call rfl ?_
  simp only [respond, found]
  refine Alone.call rfl ?_
  simp only [respond, asked]
  exact .here _ _ _

/-- A session that holds nothing is told to end: it has the tag of one that ended long ago. -/
theorem wrapped_session_told_to_end :
    configure 1048576 4 1048576 = some tightLimits ∧
      tightLimits.floor ≤ tightLimits.retained ∧
      ∃ actions : List (Action 2), ∃ accounts : Accounts 2,
        Run.meets (Accounts.step tightLimits) (modest tightLimits firstSlot generations)
          (.initial 2) actions = true ∧
        actions.foldl (Accounts.step tightLimits) (.initial 2) = accounts ∧
        (accounts.shared.slots firstSlot).epoch = generations ∧
        (accounts.shared.slots firstSlot).word.live = 0 ∧
        (accounts.threads 1).data.session = some ⟨firstSlot, generations % generations⟩ ∧
        ∃ next, (accounts.threads 1).rest = .perform (.answer true) next := by
  refine ⟨by decide, by decide, ?_⟩
  have around : 0 + 1 + (generations - 1) = generations := by decide
  obtain ⟨memory, threads, own, next, held, asking, at_, session, calm⟩ := leads_held_up
  obtain ⟨own, memory, session, calm, second⟩ := leads_next at_ calm session
  obtain ⟨own, memory, session, calm, wrapped⟩ :=
    leads_later (Function.update_self 1 _ threads) (generations - 1) calm session
  rw [around] at session calm
  rw [Function.update_idem] at wrapped
  -- the watchdog goes on, and the session asks whether it must end
  have asks : Gets respond allowedOp (.perform (.swapAsked none (some ⟨firstSlot, 0⟩)) next)
      (threads 0).data memory (next ()) (threads 0).data
      { memory with asked := some ⟨firstSlot, 0⟩ } := by
    refine .step rfl ?_
    simp only [respond, calm.asked, if_true]
    exact .here _ _ _
  have asked : (some ⟨firstSlot, 0⟩ : Option Tag) =
      some ⟨firstSlot, generations % generations⟩ := by
    rw [Nat.mod_self]
  have starts : startOf tightLimits { own with freeing := none }
      { memory with asked := some ⟨firstSlot, 0⟩ } .currentOver =
      some ({ own with freeing := none }, memory.allocations,
        currentOver ⟨firstSlot, generations % generations⟩) := by
    simp [startOf, session]
  have waits : Function.update threads 1 ⟨own, .done ()⟩ 0 = ⟨(threads 0).data, _⟩ :=
    congrArg (Thread.mk (threads 0).data) asking
  have leads := ((((held.trans second).trans wrapped).trans (leads_gets 0 waits asks)).trans
    (leads_start 1 rfl starts)).trans
      (leads_gets 1 (Function.update_self ..) (gets_currentOver calm.slot asked))
  obtain ⟨actions, met, reached⟩ := leads
  exact ⟨actions, _, met, reached, congrArg Slot.epoch calm.slot,
    congrArg (fun slot : Slot => slot.word.live) calm.slot, session, _, rfl⟩

end Around

end Propolis.SessionMemory
