import Propolis.SessionMemory.Looking
import Propolis.Lib.Holding
import Propolis.Lib.Run

/-!
# A small session is not punished for others

A ward is one session, the one that runs in a slot at an epoch, and it stays within its floor.
Every other thread may do what it likes.  `View` is what a thread can rely on: the slot it holds and
the flags of that slot, which only it writes.  What a thread must not do is to ask the ward to end,
to flag it, or to answer that it must end; `Ward.Keeps` is that obligation, proved for each
function.

A generation comes around after `generations` sessions of a slot, so a victim chosen that long ago
can have the ward's tag.  The ward's epoch is less than that.
-/

namespace Propolis.SessionMemory

open Interaction Threads

variable {limits : Limits} {slot : Index} {epoch : ℕ} {slots : List Index} {bytes need live : ℕ}
  {over_ refused : Bool} {count : ℕ} {memory : Memory} {thread : Fin count} {changed : Memory}
  {own : Running}

section Obligations

/-- A session to look after, where floors may overdraw the pool and no limit is below the floor. -/
structure Ward (limits : Limits) where
  slot : Index
  epoch : ℕ
  early : epoch < generations
  unbounded : limits.overdraftCap = u64Max
  retained : limits.floor ≤ limits.retained

def Ward.tag (ward : Ward limits) : Tag :=
  ⟨ward.slot, ward.epoch⟩

def Ward.isAt (ward : Ward limits) (slot : Index) (epoch : ℕ) : Prop :=
  slot = ward.slot ∧ epoch = ward.epoch

/-- A slot a thread holds, and its flags. -/
structure Holder where
  slot : Index
  epoch : ℕ
  over_ : Bool
  refused : Bool

structure View where
  session : Option Tag
  holder : Option Holder

namespace Ward

/-- What an operation answers and makes of the view, as far as the thread can tell. -/
def Turns (ward : Ward limits) : (op : Op) → View → Answer op → View → Prop
  | .loadWord slot, view, word, after => after = view ∧
      (∀ holder, view.holder = some holder → holder.slot = slot →
        word.generation = holder.epoch % generations) ∧
      (slot = ward.slot → word.generation = ward.epoch → word.live ≤ limits.floor)
  | .addLive slot bytes, view, before, after => after = view ∧
      ∀ holder, view.holder = some holder → holder.slot = slot →
        ward.isAt holder.slot holder.epoch → before.live + bytes ≤ limits.floor
  | .swapWord _ _, view, _, after => ∀ holder, view.holder = some holder →
      after = { view with holder := some { holder with epoch := holder.epoch + 1 } }
  | .takeSlot slot, view, taken, after =>
      if taken then ∃ epoch over_ refused,
        after = { view with holder := some ⟨slot, epoch, over_, refused⟩ }
      else after = view
  | .freeSlot _, view, _, after => after = { view with holder := none }
  | .loadOver slot, view, isOver, after => after = view ∧
      ∀ holder, view.holder = some holder → holder.slot = slot → isOver = holder.over_
  | .storeOver _ value, view, _, after => ∀ holder, view.holder = some holder →
      after = { view with holder := some { holder with over_ := value } }
  | .loadRefused slot, view, refused, after => after = view ∧
      ∀ holder, view.holder = some holder → holder.slot = slot → refused = holder.refused
  | .storeRefused _ value, view, _, after => ∀ holder, view.holder = some holder →
      after = { view with holder := some { holder with refused := value } }
  | .takeRefused _, view, refused, after => ∀ holder, view.holder = some holder →
      refused = holder.refused ∧
        after = { view with holder := some { holder with refused := false } }
  | .loadAsked, view, asked, after => after = view ∧ asked ≠ some ward.tag
  | .reserve _ limit, view, granted, after => after = view ∧ (limit = u64Max → granted = true)
  | .enter tag, view, _, after => after = { view with session := some tag }
  | .leave, view, _, after => after = { view with session := none }
  | _, view, _, after => after = view

/-- What an operation requires of the thread. -/
def Permits (ward : Ward limits) : Op → View → Prop
  | .addLive slot _, view | .takeRefused slot, view => ∃ holder, view.holder = some holder ∧
      holder.slot = slot
  | .swapWord slot next, view => ∃ holder, view.holder = some holder ∧ holder.slot = slot ∧
      next = ⟨(holder.epoch + 1) % generations, 0⟩ ∧
      view.session ≠ some ⟨slot, (holder.epoch + 1) % generations⟩
  | .takeSlot _, view => view.session = none ∧ view.holder = none
  | .freeSlot slot, view => view.session = none ∧ ∃ holder, view.holder = some holder ∧
      holder.slot = slot
  | .storeOver slot value, view | .storeRefused slot value, view =>
      ∃ holder, view.holder = some holder ∧ holder.slot = slot ∧
        (value = true → ¬ward.isAt holder.slot holder.epoch)
  | .swapAsked _ new, _ => new ≠ some ward.tag
  | .enter tag, view => ∃ holder, view.holder = some holder ∧
      tag = ⟨holder.slot, holder.epoch % generations⟩ ∧ holder.over_ = false ∧
      holder.refused = false
  | .answer value, view => ∀ holder, view.holder = some holder →
      ward.isAt holder.slot holder.epoch → value = false
  | _, _ => True

/-- The obligation of a process. -/
abbrev Keeps {Value : Type} (ward : Ward limits) (process : Prog Value) (view : View)
    (ends : Value → View → Prop) : Prop :=
  Pays ward.Permits ward.Turns process view ends

/-- The thread runs a session; the ward's flags are not set. -/
def Runs (ward : Ward limits) (slot : Index) (epoch : ℕ) (view : View) : Prop :=
  ∃ over_ refused, view = ⟨some ⟨slot, epoch % generations⟩,
    some ⟨slot, epoch, over_, refused⟩⟩ ∧
    (ward.isAt slot epoch → over_ = false ∧ refused = false)

/-- Between functions a thread runs a session or none. -/
def Settled (ward : Ward limits) (view : View) : Prop :=
  view = ⟨none, none⟩ ∨ ∃ slot epoch, ward.Runs slot epoch view

end Ward

end Obligations

variable {ward : Ward limits} {view : View} {views : Fin count → View} {holder holder' : Holder}

section Looking

variable {fair : ℕ}

/-- What only looks may be done by anyone. -/
theorem quiet_load (op : Op) (loads : op.isLoad = true) : ward.Permits op view ∧
    ∀ answer after, ward.Turns op view answer after → after = view := by
  cases op <;> cases loads
  all_goals
    refine ⟨trivial, ?_⟩
    intro answer after turned
  case loadWord | loadOver | loadRefused | loadAsked => exact turned.1
  all_goals exact turned

/-- The ward is never a victim: within its floor it does not hold more than a share. -/
theorem keeps_findVictim (share : limits.floor ≤ fair) {best : Option (ℕ × Tag)}
    {ends : Option (ℕ × Tag) → View → Prop} (spared : best.map Prod.snd ≠ some ward.tag)
    (follows : ∀ best : Option (ℕ × Tag), best.map Prod.snd ≠ some ward.tag → ends best view) :
    ward.Keeps (findVictim fair slots best) view ends := by
  induction slots generalizing best with
  | nil => exact follows best spared
  | cons slot rest ih =>
      apply Pays.perform trivial
      rintro word after ⟨rfl, -, small⟩
      apply Pays.perform trivial
      rintro active after rfl
      cases active with
      | false => exact ih spared
      | true =>
          apply Pays.perform trivial
          rintro isOver after ⟨rfl, -⟩
          apply ih
          split
          case isFalse => exact spared
          case isTrue chosen =>
            have other : (⟨slot, word.generation⟩ : Tag) ≠ ward.tag := by
              intro same
              obtain ⟨rfl, generation⟩ := Tag.mk.inj same
              have := small rfl generation
              omega
            unfold better
            split
            · split
              · simpa using other
              · exact spared
            · simpa using other

theorem keeps_quiet : Quiet limits ward.Permits ward.Turns (· ≠ some ward.tag) view where
  load := quiet_load
  swap _ _ other := ⟨other, fun _ _ turned => turned⟩
  nobody := nofun
  victim _ share := keeps_findVictim share nofun fun _ spared => ⟨rfl, spared⟩

end Looking

section Functions

variable {ends : Bool → View → Prop}

/-- The tag of the thread's own session names its slot. -/
theorem keeps_slotOf {ends : Option Index → View → Prop} (runs : ward.Runs slot epoch view)
    (follows : ends (some slot) view) :
    ward.Keeps (slotOf (some ⟨slot, epoch % generations⟩)) view ends := by
  obtain ⟨over_, refused, rfl, -⟩ := runs
  apply Pays.perform trivial
  rintro word after ⟨rfl, known, -⟩
  rw [if_pos (known _ rfl rfl)]
  exact follows

/-- The ward's own tag. -/
theorem Ward.tag_of_isAt (here : ward.isAt slot epoch) :
    (⟨slot, epoch % generations⟩ : Tag) = ward.tag := by
  obtain ⟨rfl, rfl⟩ := here
  rw [Nat.mod_eq_of_lt ward.early, Ward.tag]

theorem keeps_isAsked (runs : ward.Runs slot epoch view)
    (follows : ∀ asked, (ward.isAt slot epoch → asked = false) → ends asked view) :
    ward.Keeps (isAsked slot ⟨slot, epoch % generations⟩) view ends := by
  obtain ⟨over_, refused, rfl, calm⟩ := runs
  apply Pays.perform trivial
  rintro isOver after ⟨rfl, known⟩
  obtain rfl : isOver = over_ := known _ rfl rfl
  cases isOver with
  | true =>
      apply follows
      intro here
      exact (calm here).1
  | false =>
      apply Pays.perform trivial
      rintro asked after ⟨rfl, other⟩
      apply follows
      intro here
      rw [Ward.tag_of_isAt here]
      exact decide_eq_false other

theorem keeps_loadRefused (runs : ward.Runs slot epoch view)
    (follows : ∀ refused, (ward.isAt slot epoch → refused = false) → ends refused view) :
    ward.Keeps (call (.loadRefused slot)) view ends := by
  obtain ⟨over_, refused, rfl, calm⟩ := runs
  apply Pays.call trivial
  rintro answer after ⟨rfl, known⟩
  apply follows
  intro here
  rw [known _ rfl rfl]
  exact (calm here).2

theorem keeps_markOver {isOver : Bool} {ends : Unit → View → Prop}
    (runs : ward.Runs slot epoch view) (spared : isOver = true → ¬ward.isAt slot epoch)
    (follows : ∀ after, ward.Runs slot epoch after → ends () after) :
    ward.Keeps (markOver slot isOver) view ends := by
  cases isOver with
  | false => exact follows view runs
  | true =>
      obtain ⟨over_, refused, rfl, -⟩ := runs
      refine Pays.call ⟨_, rfl, rfl, spared⟩ ?_
      intro _ after turned
      obtain rfl := turned _ rfl
      apply follows
      refine ⟨true, refused, rfl, ?_⟩
      intro here
      exact absurd here (spared rfl)

theorem keeps_poolTryReserve {past : ℕ}
    (follows : ∀ granted, (past = limits.overdraftCap → granted = true) → ends granted view) :
    ward.Keeps (poolTryReserve limits bytes past) view ends := by
  apply keeps_quiet.pays_load rfl
  intro orphan
  apply Pays.call trivial
  rintro granted after ⟨rfl, always⟩
  apply follows
  intro cap
  apply always
  rw [poolLimit, cap, ward.unbounded]
  omega

section

variable (runs : ward.Runs slot epoch view)
include runs

theorem keeps_takeOrRefuse {granted : Bool} {ends : Unit → View → Prop}
    (given : ward.isAt slot epoch → granted = true)
    (follows : ∀ after, ward.Runs slot epoch after → ends () after) :
    ward.Keeps (takeOrRefuse slot need granted) view ends := by
  cases granted with
  | true =>
      apply Pays.call trivial
      rintro _ after rfl
      exact follows after runs
  | false =>
      have other : ¬ward.isAt slot epoch := by
        intro here
        cases given here
      obtain ⟨over_, refused, rfl, -⟩ := runs
      refine Pays.call ⟨_, rfl, rfl, fun _ => other⟩ ?_
      intro _ after turned
      obtain rfl := turned _ rfl
      apply follows
      refine ⟨over_, true, rfl, ?_⟩
      intro here
      exact absurd here other

theorem keeps_overdraw (small : ward.isAt slot epoch → live ≤ limits.floor) :
    ward.Keeps (overdraw limits slot live need) view fun _ => ward.Runs slot epoch := by
  have takes : ∀ granted, (ward.isAt slot epoch → granted = true) →
      ward.Keeps (takeOrRefuse slot need granted >>= fun _ => askFair limits) view
        fun _ => ward.Runs slot epoch := by
    intro granted given
    apply Pays.bind
    apply keeps_takeOrRefuse runs given
    intro after runs
    exact keeps_quiet.pays_askFair runs
  apply keeps_quiet.pays_load rfl
  intro _
  apply Pays.bind
  rw [grantWithinFloor]
  split
  case isTrue =>
    apply keeps_poolTryReserve
    intro granted always
    exact takes granted fun _ => always rfl
  case isFalse large =>
    apply Pays.pure
    apply takes
    intro here
    exact absurd (small here) large

theorem keeps_reserveRoom (small : ward.isAt slot epoch → live ≤ limits.floor) :
    ward.Keeps (reserveRoom limits slot live) view fun _ => ward.Runs slot epoch := by
  apply keeps_quiet.pays_load rfl
  intro held
  split
  · exact runs
  apply Pays.bind
  apply keeps_poolTryReserve
  rintro (_ | _) -
  · apply keeps_quiet.pays_load rfl
    rintro (_ | _)
    · exact keeps_overdraw runs small
    · exact runs
  · apply Pays.call trivial
    rintro _ after rfl
    exact runs

theorem keeps_charge :
    ward.Keeps (charge limits ⟨slot, epoch % generations⟩ bytes) view
      fun _ => ward.Runs slot epoch := by
  apply Pays.bind
  apply keeps_slotOf runs
  apply Pays.bind
  obtain ⟨over_, refused, rfl, calm⟩ := runs
  refine Pays.call ⟨_, rfl, rfl⟩ ?_
  rintro before after ⟨rfl, known⟩
  have small : ward.isAt slot epoch → min (before.live + bytes) u64Max ≤ limits.floor := by
    intro here
    have := known _ rfl rfl here
    omega
  apply Pays.bind
  apply keeps_markOver ⟨over_, refused, rfl, calm⟩
  · intro isOver here
    -- within its floor a session is within every limit
    have peak := of_decide_eq_true isOver
    have live := small here
    have retained := ward.retained
    rw [Limits.peak] at peak
    omega
  · intro after runs
    apply Pays.bind
    apply keeps_isAsked runs
    rintro (_ | _) -
    · exact keeps_reserveRoom runs small
    · exact runs

end

theorem keeps_refund {current : Option Tag} {tag : Tag} {ends : Unit → View → Prop}
    (follows : ends () view) : ward.Keeps (refund current tag bytes) view ends := by
  apply Pays.perform trivial
  rintro (_ | before) after rfl
  · apply Pays.call trivial
    rintro _ after rfl
    exact follows
  · dsimp only
    split
    · exact follows
    apply keeps_quiet.pays_load rfl
    intro held
    split
    · apply Pays.perform trivial
      rintro _ after rfl
      apply Pays.call trivial
      rintro _ after rfl
      exact follows
    · exact follows

theorem keeps_setUp :
    ward.Keeps (setUp slot) ⟨none, some ⟨slot, epoch, over_, refused⟩⟩
      fun _ => ward.Runs slot epoch := by
  apply Pays.perform trivial
  rintro _ after rfl
  refine Pays.perform ⟨_, rfl, rfl, fun isTrue => nomatch isTrue⟩ ?_
  intro _ after turned
  obtain rfl := turned _ rfl
  refine Pays.perform ⟨_, rfl, rfl, fun isTrue => nomatch isTrue⟩ ?_
  intro _ after turned
  obtain rfl := turned _ rfl
  apply Pays.perform trivial
  rintro word after ⟨rfl, known, -⟩
  have generation := known _ rfl rfl
  refine Pays.call ⟨_, rfl, ?_, rfl, rfl⟩ ?_
  · rw [generation]
  · rintro _ after rfl
    refine ⟨false, false, ?_, fun _ => ⟨rfl, rfl⟩⟩
    rw [generation]

theorem keeps_findFree {ends : Option Index → View → Prop} (full : ends none ⟨none, none⟩)
    (found : ∀ slot epoch over_ refused,
      ends (some slot) ⟨none, some ⟨slot, epoch, over_, refused⟩⟩) :
    ward.Keeps (findFree slots) ⟨none, none⟩ ends := by
  induction slots with
  | nil => exact full
  | cons slot rest ih =>
      apply Pays.perform ⟨rfl, rfl⟩
      rintro (_ | _) after turned
      · obtain rfl : after = ⟨none, none⟩ := turned
        exact ih
      · obtain ⟨epoch, over_, refused, rfl⟩ := turned
        exact found slot epoch over_ refused

theorem keeps_claim {tries : ℕ} :
    ward.Keeps (claim tries) ⟨none, none⟩ fun _ => ward.Settled := by
  induction tries with
  | zero => exact .inl rfl
  | succ tries ih =>
      apply Pays.bind
      apply keeps_findFree
      · exact ih
      · intro slot epoch over_ refused
        apply Pays.mono keeps_setUp
        intro _ after runs
        exact .inr ⟨slot, epoch, runs⟩

variable (runs : ward.Runs slot epoch view)
include runs

theorem keeps_release :
    ward.Keeps (release ⟨slot, epoch % generations⟩) view fun _ => ward.Settled := by
  apply Pays.bind
  apply keeps_slotOf runs
  obtain ⟨over_, refused, rfl, -⟩ := runs
  apply Pays.perform trivial
  rintro held after rfl
  apply Pays.perform trivial
  rintro _ after rfl
  refine Pays.perform ⟨_, rfl, rfl, ?_, ?_⟩ ?_
  · rw [Nat.mod_add_mod]
  · intro same
    have wraps := congrArg Tag.generation (Option.some.inj same)
    simp only [generations] at wraps
    omega
  intro left_ after turned
  obtain rfl := turned _ rfl
  apply Pays.perform trivial
  rintro _ after rfl
  refine Pays.perform ?_ ?_
  · simp [Ward.Permits]
  rintro _ after rfl
  refine Pays.perform ⟨_, rfl, rfl, fun isTrue => nomatch isTrue⟩ ?_
  intro _ after turned
  obtain rfl := turned _ rfl
  refine Pays.perform ⟨_, rfl, rfl, fun isTrue => nomatch isTrue⟩ ?_
  intro _ after turned
  obtain rfl := turned _ rfl
  apply Pays.perform trivial
  rintro _ after rfl
  refine Pays.call ⟨rfl, _, rfl, rfl⟩ ?_
  rintro _ after rfl
  exact .inl rfl

theorem keeps_answer {value : Bool} (spared : ward.isAt slot epoch → value = false) :
    ward.Keeps (call (.answer value)) view fun _ => ward.Runs slot epoch := by
  refine Pays.call ?_ ?_
  · obtain ⟨over_, refused, rfl, -⟩ := runs
    intro holder held here
    cases held
    exact spared here
  · rintro _ after rfl
    exact runs

theorem keeps_currentOver :
    ward.Keeps (currentOver ⟨slot, epoch % generations⟩) view fun _ => ward.Runs slot epoch := by
  apply Pays.bind
  apply keeps_slotOf runs
  apply Pays.bind
  apply keeps_isAsked runs
  rintro (_ | _) spared
  · apply Pays.bind
    apply keeps_loadRefused runs
    intro refused spared
    exact keeps_answer runs spared
  · exact keeps_answer runs spared

theorem keeps_endIfShort {ends : Unit → View → Prop}
    (spared : ward.isAt slot epoch → refused = false)
    (follows : ∀ after, ward.Runs slot epoch after → ends () after) :
    ward.Keeps (endIfShort limits slot live refused) view ends := by
  cases refused with
  | false => exact follows view runs
  | true =>
      apply keeps_quiet.pays_load rfl
      intro held
      apply Pays.bind
      apply keeps_quiet.pays_looks looks_fairShare
      intro fair _
      apply keeps_markOver runs _ follows
      intro _ here
      cases spared here

theorem keeps_takeRefused (follows : ∀ refused after, (ward.isAt slot epoch → refused = false) →
      ward.Runs slot epoch after → ends refused after) :
    ward.Keeps (call (.takeRefused slot)) view ends := by
  obtain ⟨over_, refused, rfl, calm⟩ := runs
  refine Pays.call ⟨_, rfl, rfl⟩ ?_
  intro answer after turned
  obtain ⟨rfl, rfl⟩ := turned _ rfl
  apply follows
  · intro here
    exact (calm here).2
  · refine ⟨over_, false, rfl, ?_⟩
    intro here
    exact ⟨(calm here).1, rfl⟩

theorem keeps_checkRetained :
    ward.Keeps (checkRetained limits ⟨slot, epoch % generations⟩) view
      fun _ => ward.Runs slot epoch := by
  apply Pays.bind
  apply keeps_slotOf runs
  apply Pays.perform trivial
  rintro word after ⟨rfl, known, small⟩
  apply Pays.bind
  apply keeps_markOver runs
  · intro isOver here
    obtain ⟨over_, refused, rfl, -⟩ := runs
    have live : word.live ≤ limits.floor := by
      apply small here.1
      rw [known _ rfl rfl]
      exact congrArg Tag.generation (Ward.tag_of_isAt here)
    have large := of_decide_eq_true isOver
    have retained := ward.retained
    omega
  · intro after runs
    apply Pays.bind
    apply keeps_takeRefused runs
    intro refused after spared runs
    apply Pays.bind
    apply keeps_endIfShort runs spared
    intro after runs
    apply Pays.bind
    apply keeps_isAsked runs
    intro asked spared
    exact keeps_answer runs spared

end Functions

section Watching

variable {after : View}

/-- The slot is as its holder knows it. -/
def Holder.Fits (holder : Holder) (slot : Slot) : Prop :=
  slot.active = true ∧ slot.epoch = holder.epoch ∧ slot.over_ = holder.over_ ∧
    slot.refused = holder.refused

/-- A session runs in a slot its thread holds, and the ward's flags are not set. -/
def Ward.Calm (ward : Ward limits) (view : View) : Prop :=
  (∀ tag, view.session = some tag → ∃ holder, view.holder = some holder ∧
    holder.slot = tag.slot) ∧
  ∀ holder, view.session = some ward.tag → view.holder = some holder →
    ward.isAt holder.slot holder.epoch → holder.over_ = false ∧ holder.refused = false

theorem Ward.calm_of_none (session : view.session = none) : ward.Calm view := by
  constructor
  · intro tag running
    rw [session] at running
    cases running
  · intro holder running
    rw [session] at running
    cases running

structure Watched (ward : Ward limits) (memory : Memory) (views : Fin count → View) : Prop where
  own : ∀ thread holder, (views thread).holder = some holder →
    holder.Fits (memory.slots holder.slot)
  apart : ∀ thread other holder holder', (views thread).holder = some holder →
    (views other).holder = some holder' → holder.slot = holder'.slot → thread = other
  generation : ∀ slot, (memory.slots slot).word.generation =
    (memory.slots slot).epoch % generations
  asked : memory.asked ≠ some ward.tag
  small : (memory.slots ward.slot).epoch = ward.epoch →
    (memory.slots ward.slot).word.live ≤ limits.floor
  calm : ∀ thread, ward.Calm (views thread)

/-- Each thread knows the slot it holds. -/
abbrev Keeping (memory : Memory) (views : Fin count → View) : Prop :=
  Holding View.holder Holder.slot Holder.Fits (fun _ => True) memory.slots views

variable (watched : Watched ward memory views)
include watched

theorem Watched.keeping : Keeping memory views := by
  refine ⟨watched.own, fun _ _ => trivial, ?_⟩
  rintro thread other _ ⟨holder, held, rfl⟩ ⟨holder', held', same⟩
  exact watched.apart thread other holder holder' held held' same.symm

theorem Watched.keep (keeping : Keeping changed (Function.update views thread after))
    (generation : ∀ slot, (changed.slots slot).word.generation =
      (changed.slots slot).epoch % generations)
    (asked : changed.asked ≠ some ward.tag)
    (small : (changed.slots ward.slot).epoch = ward.epoch →
      (changed.slots ward.slot).word.live ≤ limits.floor)
    (calm : ward.Calm after) : Watched ward changed (Function.update views thread after) := by
  refine ⟨keeping.own, ?_, generation, asked, small, ?_⟩
  · intro first second holder holder' firstHeld secondHeld same
    exact keeping.apart first second _ ⟨holder, firstHeld, rfl⟩ ⟨holder', secondHeld, same.symm⟩
  · exact (Function.forall_update_iff views fun _ view => ward.Calm view).mpr
      ⟨calm, fun other _ => watched.calm other⟩

/-- A step that leaves the slots alone. -/
theorem Watched.pool (slots : changed.slots = memory.slots) (asked : changed.asked ≠ some ward.tag)
    (holder : after.holder = (views thread).holder) (calm : ward.Calm after) :
    Watched ward changed (Function.update views thread after) := by
  apply watched.keep _ _ asked _ calm
  · rw [Keeping, slots]
    exact watched.keeping.keep holder (fun _ => id) (fun _ => id)
  · rw [slots]
    exact watched.generation
  · rw [slots]
    exact watched.small

/-- A step that changes at most how much a slot holds. -/
theorem Watched.amount (slot : Index)
    (change : Slot → Slot) (same : ∀ s, (change s).active = s.active ∧
      (change s).epoch = s.epoch ∧ (change s).over_ = s.over_ ∧
      (change s).refused = s.refused ∧ (change s).word.generation = s.word.generation)
    (small : slot = ward.slot → (memory.slots slot).epoch = ward.epoch →
      (change (memory.slots slot)).word.live ≤ limits.floor) :
    Watched ward (memory.setSlot slot change)
      (Function.update views thread (views thread)) := by
  have fits : ∀ holder : Holder, holder.Fits (memory.slots holder.slot) →
      holder.Fits ((memory.setSlot slot change).slots holder.slot) := by
    rintro holder ⟨active, epoch, over_, refused⟩
    rw [slots_setSlot]
    split
    case isTrue here =>
      rw [here] at active epoch over_ refused
      obtain ⟨active', epoch', over', refused', -⟩ := same (memory.slots slot)
      exact ⟨active'.trans active, epoch'.trans epoch, over'.trans over_,
        refused'.trans refused⟩
    case isFalse => exact ⟨active, epoch, over_, refused⟩
  refine watched.keep (watched.keeping.keep rfl fits fun _ => id) ?_ watched.asked ?_
    (watched.calm thread)
  · apply generation_setSlot watched.generation
    obtain ⟨-, epoch, -, -, generation⟩ := same (memory.slots slot)
    rw [generation, epoch]
    exact watched.generation slot
  · rw [slots_setSlot]
    split
    case isTrue here =>
      intro now
      rw [(same _).2.1] at now
      exact small here.symm now
    case isFalse => exact watched.small

/-- A thread changes the slot it holds. -/
theorem Watched.ownSlot (change : Slot → Slot) (held : (views thread).holder = some holder)
    (held' : after.holder = some holder') (slot : holder'.slot = holder.slot)
    (fits : holder'.Fits (change (memory.slots holder.slot)))
    (generation : (change (memory.slots holder.slot)).word.generation =
      (change (memory.slots holder.slot)).epoch % generations)
    (small : holder.slot = ward.slot → (change (memory.slots holder.slot)).epoch = ward.epoch →
      (change (memory.slots holder.slot)).word.live ≤ limits.floor)
    (calm : ward.Calm after) :
    Watched ward (memory.setSlot holder.slot change) (Function.update views thread after) := by
  refine watched.keep ?_ ?_ watched.asked ?_ calm
  · apply watched.keeping.setCell
    · exact fun other holds => watched.keeping.apart other thread _ holds ⟨holder, held, rfl⟩
    · simp [held]
    · simp [held', slot, fits]
    · simp
  · exact generation_setSlot watched.generation generation
  · rw [slots_setSlot]
    split
    case isTrue here => exact small here.symm
    case isFalse => exact watched.small

/-- A free slot is taken. -/
theorem Watched.taken (session : (views thread).session = none)
    (free : (views thread).holder = none) (inactive : (memory.slots slot).active = false) :
    Watched ward (memory.setSlot slot fun s => { s with active := true })
      (Function.update views thread { views thread with holder := some ⟨slot,
        (memory.slots slot).epoch, (memory.slots slot).over_, (memory.slots slot).refused⟩ }) := by
  refine watched.keep ?_ ?_ watched.asked ?_ (Ward.calm_of_none session)
  · apply watched.keeping.setCell
    · rintro other ⟨holder, held, rfl⟩
      have active := (watched.own other holder held).1
      simp [active] at inactive
    · simp [free]
    · simp [Holder.Fits]
    · simp
  · exact generation_setSlot watched.generation (watched.generation slot)
  · rw [slots_setSlot]
    split
    case isTrue here =>
      rw [← here]
      exact watched.small
    case isFalse => exact watched.small

/-- A slot is given up. -/
theorem Watched.freed (session : (views thread).session = none)
    (held : (views thread).holder = some holder) :
    Watched ward (memory.setSlot holder.slot fun s => { s with active := false })
      (Function.update views thread { views thread with holder := none }) := by
  refine watched.keep ?_ ?_ watched.asked ?_ (Ward.calm_of_none session)
  · apply watched.keeping.setCell
    · exact fun other holds => watched.keeping.apart other thread _ holds ⟨holder, held, rfl⟩
    · simp [held]
    · simp
    · simp
  · exact generation_setSlot watched.generation (watched.generation holder.slot)
  · rw [slots_setSlot]
    split
    case isTrue here =>
      rw [← here]
      exact watched.small
    case isFalse => exact watched.small

end Watching

section Steps

/-- The session of a slot at an epoch does not come to hold more than its floor. -/
def Op.modest (limits : Limits) (slot : Index) (epoch : ℕ) : Op → Memory → Bool
  | .addLive other bytes, memory => other = slot ∧ (memory.slots slot).epoch = epoch →
      (memory.slots slot).word.live + bytes ≤ limits.floor
  | _, _ => true

/-- The pool's counter does not overflow. -/
def Op.countable : Op → Memory → Bool
  | .reserve bytes _, memory => memory.reserved + bytes ≤ u64Max
  | _, _ => true

variable (watched : Watched ward memory views)
include watched

theorem Watched.live_le (early : (memory.slots ward.slot).epoch ≤ ward.epoch)
    (here : slot = ward.slot) (generation : (memory.slots slot).word.generation = ward.epoch) :
    (memory.slots slot).word.live ≤ limits.floor := by
  subst here
  apply watched.small
  rw [watched.generation, Nat.mod_eq_of_lt (early.trans_lt ward.early)] at generation
  exact generation

/-- The flags of the slot a thread holds.  Those of the ward are not set. -/
theorem Watched.flag (held : (views thread).holder = some holder) (setOver setRefused : Slot → Bool)
    (isOver : setOver (memory.slots holder.slot) = over_)
    (isRefused : setRefused (memory.slots holder.slot) = refused)
    (spared : over_ = true → holder.over_ = true ∨ ¬ward.isAt holder.slot holder.epoch)
    (spared' : refused = true → holder.refused = true ∨ ¬ward.isAt holder.slot holder.epoch) :
    Watched ward
      (memory.setSlot holder.slot fun s =>
        { s with over_ := setOver s, refused := setRefused s })
      (Function.update views thread { views thread with
        holder := some { holder with over_ := over_, refused := refused } }) := by
  obtain ⟨active, epoch, -, -⟩ := watched.own thread holder held
  refine watched.ownSlot (fun s => { s with over_ := setOver s, refused := setRefused s }) held rfl
    rfl ⟨active, epoch, isOver, isRefused⟩ (watched.generation holder.slot) ?_ ⟨?_, ?_⟩
  · intro here now
    rw [here] at now ⊢
    exact watched.small now
  · intro tag running
    obtain ⟨before, same, at_⟩ := (watched.calm thread).1 tag running
    obtain rfl : holder = before := Option.some.inj (held.symm.trans same)
    exact ⟨_, rfl, at_⟩
  · intro own running same here
    cases same
    obtain ⟨notOver, notRefused⟩ := (watched.calm thread).2 holder running held here
    have unset : ∀ {flag before : Bool}, before = false →
        (flag = true → before = true ∨ ¬ward.isAt holder.slot holder.epoch) → flag = false := by
      rintro flag before rfl spared
      by_contra isSet
      exact (spared (by simpa using isSet)).elim Bool.noConfusion fun other => other here
    exact ⟨unset notOver spared, unset notRefused spared'⟩

/-- Every operation that is permitted keeps the watch, and turns the view as it should. -/
theorem Watched.respond (op : Op) (early : (memory.slots ward.slot).epoch ≤ ward.epoch)
    (permits : ward.Permits op (views thread))
    (modest : op.modest limits ward.slot ward.epoch memory = true)
    (countable : op.countable memory = true) (session : (views thread).session = own.session) :
    ∃ after, ward.Turns op (views thread) (respond op own memory).1 after ∧
      after.session = (SessionMemory.respond op own memory).2.1.session ∧
      Watched ward (SessionMemory.respond op own memory).2.2
        (Function.update views thread after) := by
  have calm := watched.calm thread
  have still : Watched ward memory (Function.update views thread (views thread)) := by
    rw [Function.update_eq_self]
    exact watched
  have holds : ∀ (slot : Index) (held : Slot → ℕ), Watched ward
      (memory.setSlot slot fun s => { s with held := held s })
      (Function.update views thread (views thread)) := by
    intro slot held
    apply watched.amount slot (fun s => { s with held := held s }) fun s =>
      ⟨rfl, rfl, rfl, rfl, rfl⟩
    rintro rfl now
    exact watched.small now
  cases op with
  | loadWord slot =>
      refine ⟨views thread, ⟨rfl, ?_, watched.live_le early⟩, session, still⟩
      rintro holder held rfl
      rw [← (watched.own thread holder held).2.1]
      exact watched.generation holder.slot
  | addLive slot bytes =>
      have small := of_decide_eq_true modest
      refine ⟨views thread, ⟨rfl, ?_⟩, session, ?_⟩
      · rintro holder held rfl ⟨here, now⟩
        rw [← (watched.own thread holder held).2.1] at now
        rw [here] at now small ⊢
        exact small ⟨rfl, now⟩
      · apply watched.amount slot fun s => { s with word := s.word.add bytes }
        · intro s
          exact ⟨rfl, rfl, rfl, rfl, rfl⟩
        · rintro rfl now
          exact (Nat.min_le_left _ _).trans (small ⟨rfl, now⟩)
  | subLive tag bytes =>
      simp only [SessionMemory.respond]
      split
      case isTrue =>
        refine ⟨views thread, rfl, session, ?_⟩
        apply watched.amount tag.slot fun s => { s with word := s.word.sub bytes }
        · intro s
          exact ⟨rfl, rfl, rfl, rfl, rfl⟩
        · intro here now
          rw [here] at now ⊢
          exact (Nat.sub_le _ _).trans (watched.small now)
      case isFalse => exact ⟨views thread, rfl, session, still⟩
  | swapWord =>
      obtain ⟨holder, held, rfl, rfl, other⟩ := permits
      obtain ⟨active, epoch, over_, refused⟩ := watched.own thread holder held
      refine ⟨{ views thread with holder := some { holder with epoch := holder.epoch + 1 } }, ?_,
        session, ?_⟩
      · simp [Ward.Turns, held]
      · refine watched.ownSlot (fun s => { s with
            word := ⟨(holder.epoch + 1) % generations, 0⟩, epoch := s.epoch + 1 }) held rfl rfl
          ⟨active, ?_, over_, refused⟩ ?_ (fun _ _ => Nat.zero_le _) ⟨?_, ?_⟩
        · rw [epoch]
        · rw [epoch]
        · intro tag running
          obtain ⟨before, same, at_⟩ := calm.1 tag running
          obtain rfl : holder = before := Option.some.inj (held.symm.trans same)
          exact ⟨_, rfl, at_⟩
        · -- the session that ends is not the ward, whose epoch begins here
          intro own running same here
          cases same
          exact absurd (running.trans (congrArg some (Ward.tag_of_isAt here).symm)) other
  | takeSlot slot =>
      simp only [SessionMemory.respond]
      split
      case isTrue => exact ⟨views thread, rfl, session, still⟩
      case isFalse inactive =>
        refine ⟨_, ⟨(memory.slots slot).epoch, (memory.slots slot).over_,
          (memory.slots slot).refused, rfl⟩, session, ?_⟩
        exact watched.taken permits.1 permits.2 (by simpa using inactive)
  | freeSlot slot =>
      obtain ⟨ended, holder, held, rfl⟩ := permits
      exact ⟨_, rfl, session, watched.freed ended held⟩
  | addHeld slot bytes => exact ⟨views thread, rfl, session, holds slot fun s => s.held + bytes⟩
  | storeHeld slot bytes => exact ⟨views thread, rfl, session, holds slot fun _ => bytes⟩
  | takeHeld slot => exact ⟨views thread, rfl, session, holds slot fun _ => 0⟩
  | loadOver slot =>
      refine ⟨views thread, ⟨rfl, ?_⟩, session, still⟩
      rintro holder held rfl
      exact (watched.own thread holder held).2.2.1
  | storeOver slot value =>
      obtain ⟨holder, held, rfl, spared⟩ := permits
      obtain ⟨-, -, -, refused⟩ := watched.own thread holder held
      refine ⟨_, ?_, ?_, watched.flag held (fun _ => value) (·.refused) rfl refused
        (fun isTrue => .inr (spared isTrue)) .inl⟩
      · simp [Ward.Turns, held]
      · exact session
  | loadRefused slot =>
      refine ⟨views thread, ⟨rfl, ?_⟩, session, still⟩
      rintro holder held rfl
      exact (watched.own thread holder held).2.2.2
  | storeRefused slot value =>
      obtain ⟨holder, held, rfl, spared⟩ := permits
      obtain ⟨-, -, over_, -⟩ := watched.own thread holder held
      refine ⟨_, ?_, ?_, watched.flag held (·.over_) (fun _ => value) over_ rfl .inl
        fun isTrue => .inr (spared isTrue)⟩
      · simp [Ward.Turns, held]
      · exact session
  | takeRefused slot =>
      obtain ⟨holder, held, rfl⟩ := permits
      obtain ⟨-, -, over_, refused⟩ := watched.own thread holder held
      refine ⟨_, ?_, ?_, watched.flag held (·.over_) (fun _ => false) over_ rfl .inl
        Bool.noConfusion⟩
      · simp [Ward.Turns, held, SessionMemory.respond, refused]
      · exact session
  | reserve =>
      have room := of_decide_eq_true countable
      simp only [SessionMemory.respond]
      split
      case isTrue =>
        exact ⟨views thread, ⟨rfl, fun _ => rfl⟩, session,
          watched.pool rfl watched.asked rfl calm⟩
      case isFalse short =>
        refine ⟨views thread, ⟨rfl, ?_⟩, session, still⟩
        rintro rfl
        exact absurd ⟨room, room⟩ short
  | loadAsked => exact ⟨views thread, ⟨rfl, watched.asked⟩, session, still⟩
  | swapAsked old new =>
      refine ⟨views thread, rfl, session, ?_⟩
      simp only [SessionMemory.respond]
      split
      · exact watched.pool rfl permits rfl calm
      · exact still
  | addOrphan _ | unreserve _ | countRefusal =>
      exact ⟨views thread, rfl, session, watched.pool rfl watched.asked rfl calm⟩
  | enter tag =>
      obtain ⟨holder, held, rfl, notOver, notRefused⟩ := permits
      refine ⟨_, rfl, rfl, watched.pool rfl watched.asked rfl ⟨?_, ?_⟩⟩
      · intro tag running
        cases running
        exact ⟨holder, held, rfl⟩
      · intro own _ same _
        obtain rfl : holder = own := Option.some.inj (held.symm.trans same)
        exact ⟨notOver, notRefused⟩
  | leave => exact ⟨_, rfl, rfl, watched.pool rfl watched.asked rfl (Ward.calm_of_none rfl)⟩
  | loadActive _ | loadHeld _ | loadOrphan | loadReserved | answer _ =>
      exact ⟨views thread, rfl, session, still⟩

end Steps

section Runs

variable {accounts : Accounts count} {after : Running} {process : Prog Unit}

theorem Ward.Settled.runs (done : ward.Settled view) {tag : Tag}
    (session : view.session = some tag) :
    ∃ slot epoch, tag = ⟨slot, epoch % generations⟩ ∧ ward.Runs slot epoch view := by
  rcases done with rfl | ⟨slot, epoch, runs⟩
  · cases session
  · refine ⟨slot, epoch, ?_, runs⟩
    obtain ⟨over_, refused, rfl, -⟩ := runs
    exact (Option.some.inj session).symm

theorem Ward.Settled.idle (done : ward.Settled view) (session : view.session = none) :
    view = ⟨none, none⟩ := by
  rcases done with none_ | ⟨slot, epoch, over_, refused, rfl, -⟩
  · exact none_
  · cases session

/-- Whatever a thread begins, it keeps to its obligation. -/
theorem startOf_keeps {allocations : List Allocation} {what : Begin}
    (starts : startOf limits own memory what = some (after, allocations, process))
    (done : ward.Settled view) (session : view.session = own.session) :
    after.session = own.session ∧ ward.Keeps process view fun _ => ward.Settled := by
  -- what a thread begins in its session, it ends in it
  have within : ∀ (body : Tag → Prog Unit) {tag : Tag}, own.session = some tag →
      (∀ slot epoch, ward.Runs slot epoch view →
        ward.Keeps (body ⟨slot, epoch % generations⟩) view fun _ => ward.Runs slot epoch) →
      ward.Keeps (body tag) view fun _ => ward.Settled := by
    intro body tag running keeps
    obtain ⟨slot, epoch, rfl, runs⟩ := done.runs (session.trans running)
    apply Pays.mono (keeps slot epoch runs)
    intro _ after runs
    exact .inr ⟨slot, epoch, runs⟩
  cases what <;> simp only [startOf, Option.map_eq_some_iff, Option.ite_none_right_eq_some,
    Option.some.injEq] at starts
  case claim =>
    obtain ⟨free, ⟨⟩⟩ := starts
    rw [done.idle (session.trans free)]
    exact ⟨rfl, keeps_claim⟩
  case alloc bytes =>
    obtain ⟨tag, running, ⟨⟩⟩ := starts
    refine ⟨rfl, within (fun tag => charge limits tag bytes) running ?_⟩
    intro slot epoch runs
    exact keeps_charge runs
  case free allocation unaccounted =>
    obtain ⟨live, ⟨⟩⟩ := starts
    exact ⟨rfl, keeps_refund done⟩
  case release =>
    obtain ⟨tag, running, ⟨⟩⟩ := starts
    obtain ⟨slot, epoch, rfl, runs⟩ := done.runs (session.trans running)
    exact ⟨rfl, keeps_release runs⟩
  case rebalance =>
    cases starts
    exact ⟨rfl, keeps_quiet.pays_rebalance done⟩
  case currentOver =>
    obtain ⟨tag, running, ⟨⟩⟩ := starts
    refine ⟨rfl, within currentOver running ?_⟩
    intro slot epoch runs
    exact keeps_currentOver runs
  case checkRetained =>
    obtain ⟨tag, running, ⟨⟩⟩ := starts
    refine ⟨rfl, within (checkRetained limits) running ?_⟩
    intro slot epoch runs
    exact keeps_checkRetained runs
  case makeRoom bytes =>
    obtain ⟨tag, running, ⟨⟩⟩ := starts
    refine ⟨rfl, Pays.bind (keeps_quiet.pays_makeRoom ?_)⟩
    intro granted
    exact done

/-- A thread as its view has it. -/
structure Heeding (ward : Ward limits) (thread : Thread Op Answer Running) (view : View) :
    Prop where
  session : view.session = thread.data.session
  keeps : ward.Keeps thread.rest view fun _ => ward.Settled

structure Guarded (ward : Ward limits) (accounts : Accounts count) (views : Fin count → View) :
    Prop where
  watched : Watched ward accounts.shared views
  heeding : ∀ thread, Heeding ward (accounts.threads thread) (views thread)

theorem Guarded.initial : Guarded ward (Accounts.initial count) fun _ => ⟨none, none⟩ := by
  refine ⟨⟨?_, ?_, ?_, ?_, ?_, ?_⟩, ?_⟩
  · intro thread holder held
    cases held
  · intro thread other holder holder' held
    cases held
  · intro slot
    rfl
  · intro asked
    cases asked
  · intro _
    exact Nat.zero_le _
  · intro thread
    exact Ward.calm_of_none rfl
  · intro thread
    exact ⟨rfl, .inl rfl⟩

/-- The session of the slot at the epoch stays within its floor, and the pool can count. -/
def modest (limits : Limits) (slot : Index) (epoch : ℕ) (accounts : Accounts count) :
    Action count → Bool
  | .begin_ _ _ => true
  | .advance thread =>
      match (accounts.threads thread).rest with
      | .done _ => true
      | .perform op _ =>
          op.modest limits slot epoch accounts.shared && op.countable accounts.shared

theorem Guarded.advance (guarded : Guarded ward accounts views)
    (early : (accounts.shared.slots ward.slot).epoch ≤ ward.epoch) (thread : Fin count)
    (met : modest limits ward.slot ward.epoch accounts (.advance thread) = true) :
    ∃ views, Guarded ward (accounts.advance respond thread) views := by
  cases rest : (accounts.threads thread).rest with
  | done value =>
      refine ⟨views, ?_⟩
      rw [Pool.advance, rest]
      exact guarded
  | perform op next =>
      simp only [modest, rest, Bool.and_eq_true] at met
      obtain ⟨session, keeps⟩ := guarded.heeding thread
      rw [rest] at keeps
      obtain ⟨after, turned, same, watched⟩ :=
        guarded.watched.respond op early keeps.1 met.1 met.2 session
      refine ⟨Function.update views thread after, ?_⟩
      rw [Pool.advance_eq rest]
      refine ⟨watched, ?_⟩
      apply forall_update guarded.heeding
      exact ⟨same, keeps.2 _ after turned⟩

theorem Guarded.begin_ (guarded : Guarded ward accounts views)
    (thread : Fin count) (what : Begin) :
    ∃ views, Guarded ward (accounts.step limits (.begin_ thread what)) views := by
  rcases step_begin limits accounts thread what with
    same | ⟨own, allocations, process, idle, starts, began⟩
  · rw [same]
    exact ⟨views, guarded⟩
  · obtain ⟨session, keeps⟩ := guarded.heeding thread
    rw [Thread.rest_of_not_busy idle] at keeps
    obtain ⟨same, keeps⟩ := startOf_keeps starts keeps session
    refine ⟨Function.update views thread (views thread), ?_⟩
    rw [began]
    refine ⟨guarded.watched.pool rfl guarded.watched.asked rfl (guarded.watched.calm thread), ?_⟩
    apply forall_update guarded.heeding
    exact ⟨session.trans same.symm, keeps⟩

/-- Epochs only grow. -/
theorem epoch_le_step (action : Action count) (slot : Index) :
    (accounts.shared.slots slot).epoch ≤
      ((accounts.step limits action).shared.slots slot).epoch := by
  cases action with
  | begin_ thread what =>
      rcases step_begin limits accounts thread what with same | ⟨own, allocations, process, -, -,
        began⟩
      · rw [same]
      · rw [began]
  | advance thread =>
      cases rest : (accounts.threads thread).rest with
      | done value => simp [Accounts.step, Pool.advance, rest]
      | perform op next =>
          simp only [Accounts.step, Pool.advance_eq rest]
          rcases respond_epoch op slot with same | ⟨-, later⟩
          · rw [same]
          · rw [later]
            exact Nat.le_succ _

theorem guarded_of_meets {actions : List (Action count)}
    (met : Run.meets (Accounts.step limits) (modest limits ward.slot ward.epoch)
      (.initial count) actions = true) :
    ((actions.foldl (Accounts.step limits) (.initial count)).shared.slots ward.slot).epoch ≤
        ward.epoch →
      ∃ views, Guarded ward (actions.foldl (Accounts.step limits) (.initial count)) views := by
  apply Run.invariant_of_meets (fun accounts =>
    (accounts.shared.slots ward.slot).epoch ≤ ward.epoch → ∃ views, Guarded ward accounts views)
    ?_ (fun _ => ⟨_, Guarded.initial⟩) met
  intro accounts action met guarded early
  have before := (epoch_le_step action ward.slot).trans early
  obtain ⟨views, guarded⟩ := guarded before
  cases action with
  | advance thread => exact guarded.advance before thread met
  | begin_ thread what => exact guarded.begin_ thread what

end Runs

end Propolis.SessionMemory
