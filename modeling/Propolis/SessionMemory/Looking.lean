import Propolis.SessionMemory.Accounts

/-!
# Functions that only look

Most of what a thread does is to read the slots one after the other.  Whatever it reads, it does
nothing else; what it finds is all that the other obligations need to know.
-/

namespace Propolis.SessionMemory

open Interaction Threads

/-- An operation that changes nothing a session depends on. -/
def Op.isLoad : Op → Bool
  | .loadWord _ | .loadActive _ | .loadHeld _ | .loadOver _ | .loadRefused _ | .loadOrphan
  | .loadReserved | .loadAsked | .countRefusal => true
  | _ => false

abbrev Looks {Value : Type} (process : Prog Value) (returns : Value → Prop) : Prop :=
  Only (fun op => op.isLoad = true) process returns

variable {limits : Limits} {Value : Type} {returns : Value → Prop}

theorem Looks.load {op : Op} {next : Answer op → Prog Value} (loads : op.isLoad = true)
    (each : ∀ answer, Looks (next answer) returns) : Looks (call op >>= next) returns :=
  ⟨loads, fun answer _ _ => each answer⟩

theorem looks_slotOf (tag : Option Tag) : Looks (slotOf tag) fun _ => True := by
  cases tag with
  | none => trivial
  | some tag =>
      apply Looks.load rfl
      intro word
      trivial

theorem looks_countActive (slots : List Index) (count : ℕ) :
    Looks (countActive slots count) fun _ => True := by
  induction slots generalizing count with
  | nil => trivial
  | cons slot rest ih =>
      apply Looks.load rfl
      intro active
      exact ih _

/-- A share is never less than the floor. -/
theorem looks_fairShare : Looks (fairShare limits) fun fair => limits.floor ≤ fair := by
  apply Pays.bind
  apply (looks_countActive claimable 0).mono
  intro sessions _ _
  apply Looks.load rfl
  intro orphan
  exact le_max_right _ _

theorem looks_isAsked (slot : Index) (tag : Tag) : Looks (isAsked slot tag) fun _ => True := by
  apply Looks.load rfl
  intro isOver
  cases isOver with
  | true => trivial
  | false =>
      apply Looks.load rfl
      intro asked
      trivial

theorem looks_findVictim (fair : ℕ) (slots : List Index) (best : Option (ℕ × Tag)) :
    Looks (findVictim fair slots best) fun _ => True := by
  induction slots generalizing best with
  | nil => trivial
  | cons slot rest ih =>
      apply Looks.load rfl
      intro word
      apply Looks.load rfl
      intro active
      cases active with
      | true =>
          apply Looks.load rfl
          intro isOver
          exact ih _
      | false => exact ih _

theorem looks_sumLive (slots : List Index) (sum : ℕ) :
    Looks (sumLive slots sum) fun _ => True := by
  induction slots generalizing sum with
  | nil => trivial
  | cons slot rest ih =>
      apply Looks.load rfl
      intro active
      cases active with
      | true =>
          apply Looks.load rfl
          intro word
          exact ih _
      | false => exact ih _

theorem looks_poolFree : Looks (poolFree limits) fun _ => True := by
  apply Looks.load rfl
  intro reserved
  apply Looks.load rfl
  intro orphan
  trivial

section Asking

variable {Ghost : Type} {permits : Op → Ghost → Prop}
  {turns : (op : Op) → Ghost → Answer op → Ghost → Prop} {may : Option Tag → Prop} {ghost : Ghost}

/-- Looking is permitted and so is asking those who may be asked; neither changes the ghost. -/
structure Quiet (limits : Limits) (permits : Op → Ghost → Prop)
    (turns : (op : Op) → Ghost → Answer op → Ghost → Prop) (may : Option Tag → Prop)
    (ghost : Ghost) : Prop where
  load : ∀ op, op.isLoad = true →
    permits op ghost ∧ ∀ answer after, turns op ghost answer after → after = ghost
  swap : ∀ old new, may new → permits (.swapAsked old new) ghost ∧
    ∀ answer after, turns (.swapAsked old new) ghost answer after → after = ghost
  nobody : may none
  victim : ∀ fair, limits.floor ≤ fair → Pays permits turns (findVictim fair claimable none) ghost
    fun best after => after = ghost ∧ may (best.map Prod.snd)

variable (quiet : Quiet limits permits turns may ghost) {ends : Unit → Ghost → Prop}
include quiet

theorem Quiet.pays_looks {process : Prog Value}
    {ends : Value → Ghost → Prop} (looks : Looks process returns)
    (follows : ∀ value, returns value → ends value ghost) :
    Pays permits turns process ghost ends :=
  Only.pays looks quiet.load follows

theorem Quiet.pays_load {op : Op} {rest : Answer op → Prog Value}
    {ends : Value → Ghost → Prop} (loads : op.isLoad = true)
    (follows : ∀ answer, Pays permits turns (rest answer) ghost ends) :
    Pays permits turns (call op >>= rest) ghost ends := by
  have looks : Looks (call op) fun _ => True := ⟨loads, fun _ _ _ => trivial⟩
  exact Pays.bind (quiet.pays_looks looks fun answer _ => follows answer)

theorem Quiet.pays_swap {old new : Option Tag} (allowed : may new)
    (follows : ends () ghost) : Pays permits turns (call (.swapAsked old new)) ghost ends := by
  obtain ⟨permitted, kept⟩ := quiet.swap old new allowed
  apply Pays.call permitted
  intro answer after turned
  rw [kept answer after turned]
  exact follows

theorem Quiet.pays_askVictim {fair : ℕ} (share : limits.floor ≤ fair)
    (follows : ends () ghost) :
    Pays permits turns (askVictim fair) ghost ends := by
  apply Pays.bind
  apply (quiet.victim fair share).mono
  rintro (_ | ⟨live, tag⟩) after ⟨rfl, allowed⟩
  · exact follows
  · exact quiet.pays_swap allowed follows

theorem Quiet.pays_askFair (follows : ends () ghost) :
    Pays permits turns (askFair limits) ghost ends := by
  apply Pays.bind
  apply quiet.pays_looks looks_fairShare
  intro fair share
  apply quiet.pays_load rfl
  rintro (_ | tag)
  · exact quiet.pays_askVictim share follows
  · apply Pays.bind
    apply quiet.pays_looks (looks_slotOf _)
    rintro (_ | slot) -
    · apply Pays.bind
      exact quiet.pays_swap quiet.nobody (quiet.pays_askVictim share follows)
    · exact follows

theorem Quiet.pays_rebalance (follows : ends () ghost) :
    Pays permits turns (rebalance limits) ghost ends := by
  apply Pays.bind
  apply quiet.pays_looks (looks_sumLive _ _)
  intro live _
  apply quiet.pays_load rfl
  intro orphan
  split
  · exact quiet.pays_askFair follows
  · exact follows

theorem Quiet.pays_makeRoom {tag : Tag} {bytes : ℕ} {ends : Bool → Ghost → Prop}
    (follows : ∀ granted, ends granted ghost) :
    Pays permits turns (makeRoom limits tag bytes) ghost ends := by
  have asks : ∀ granted,
      Pays permits turns (askFair limits >>= fun _ => pure granted) ghost ends :=
    fun granted => Pays.bind (quiet.pays_askFair (follows granted))
  apply Pays.bind
  apply quiet.pays_looks (looks_slotOf _)
  rintro (_ | slot) -
  · exact follows false
  apply Pays.bind
  apply quiet.pays_looks (looks_isAsked _ _)
  rintro (_ | _) -
  · apply Pays.bind
    apply quiet.pays_looks looks_poolFree
    intro free _
    split
    · exact follows true
    apply quiet.pays_load rfl
    intro word
    apply quiet.pays_load rfl
    intro orphan
    apply quiet.pays_load rfl
    intro reserved
    split
    · apply quiet.pays_load rfl
      intro _
      split
      · exact asks false
      · exact follows false
    · exact asks true
  · exact follows false

end Asking

end Propolis.SessionMemory
