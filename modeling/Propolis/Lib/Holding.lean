import Mathlib.Logic.Function.Basic

/-!
# Who holds which place

Threads hold places of a memory they share.  No place is held by two, a thread knows the cell of
the place it holds, and a cell that is not held is vacant.  A thread takes a place, changes its
cell or leaves it; what the others hold stays as it is.
-/

namespace Threads

variable {Thread Place Cell View Claim : Type}

section

variable (claim : View → Option Claim) (place : Claim → Place) (fits : Claim → Cell → Prop)
  (vacant : Cell → Prop)

def Holds (view : View) (at_ : Place) : Prop :=
  ∃ own, claim view = some own ∧ place own = at_

structure Holding (cells : Place → Cell) (views : Thread → View) : Prop where
  own : ∀ thread own, claim (views thread) = some own → fits own (cells (place own))
  vacant : ∀ at_, (∀ thread, ¬Holds claim place (views thread) at_) → vacant (cells at_)
  apart : ∀ thread other at_, Holds claim place (views thread) at_ →
    Holds claim place (views other) at_ → thread = other

end

namespace Holding

variable {claim : View → Option Claim} {place : Claim → Place} {fits : Claim → Cell → Prop}
  {vacant : Cell → Prop} {cells changed : Place → Cell} {views : Thread → View} {thread : Thread}
  {after : View} {at_ : Place} {cell : Cell} [DecidableEq Thread]
  (holding : Holding claim place fits vacant cells views)
include holding

/-- Cells that change for their holders as they do for everyone. -/
theorem keep (same : claim after = claim (views thread))
    (fit : ∀ own, fits own (cells (place own)) → fits own (changed (place own)))
    (empty : ∀ at_, vacant (cells at_) → vacant (changed at_)) :
    Holding claim place fits vacant changed (Function.update views thread after) := by
  have claims : ∀ other,
      claim (Function.update views thread after other) = claim (views other) := by
    intro other
    by_cases here : other = thread
    · rw [here, Function.update_self, same]
    · rw [Function.update_of_ne here]
  refine ⟨?_, ?_, ?_⟩
  · intro other own held
    rw [claims] at held
    exact fit own (holding.own other own held)
  · simp only [Holds, claims]
    exact fun at_ unheld => empty at_ (holding.vacant at_ unheld)
  · simp only [Holds, claims]
    exact holding.apart

variable [DecidableEq Place]

/-- A thread that held no other place than this holds no other now. -/
theorem setCell (alone : ∀ other, Holds claim place (views other) at_ → other = thread)
    (before : ∀ own ∈ claim (views thread), place own = at_)
    (now : ∀ own ∈ claim after, place own = at_ ∧ fits own cell)
    (left_ : claim after = none → vacant cell) :
    Holding claim place fits vacant (Function.update cells at_ cell)
      (Function.update views thread after) := by
  have holds : ∀ holder other, Holds claim place (Function.update views thread after holder) other →
      holder = thread ∧ other = at_ ∨ holder ≠ thread ∧ other ≠ at_ ∧
        Holds claim place (views holder) other := by
    intro holder other holds
    by_cases here : holder = thread
    · rw [here, Function.update_self] at holds
      obtain ⟨own, held, rfl⟩ := holds
      exact .inl ⟨here, (now own held).1⟩
    · rw [Function.update_of_ne here] at holds
      exact .inr ⟨here, fun same => here (alone holder (same ▸ holds)), holds⟩
  refine ⟨?_, ?_, ?_⟩
  · intro holder own held
    rcases holds holder _ ⟨own, held, rfl⟩ with ⟨rfl, same⟩ | ⟨other, apart, -⟩
    · rw [Function.update_self] at held
      rw [same, Function.update_self]
      exact (now own held).2
    · rw [Function.update_of_ne other] at held
      rw [Function.update_of_ne apart]
      exact holding.own holder own held
  · intro other unheld
    by_cases here : other = at_
    · rw [here, Function.update_self]
      apply left_
      by_contra some_
      obtain ⟨own, held⟩ := Option.ne_none_iff_exists'.mp some_
      apply unheld thread
      rw [Function.update_self]
      exact ⟨own, held, (now own held).1.trans here.symm⟩
    · rw [Function.update_of_ne here]
      apply holding.vacant
      intro holder held
      by_cases mine : holder = thread
      · obtain ⟨own, claimed, rfl⟩ := held
        exact here (before own (mine ▸ claimed))
      · apply unheld holder
        rw [Function.update_of_ne mine]
        exact held
  · intro first second other firstHolds secondHolds
    rcases holds first other firstHolds with ⟨rfl, here⟩ | ⟨-, apart, firstHeld⟩
    · rcases holds second other secondHolds with ⟨rfl, -⟩ | ⟨-, apart, -⟩
      · rfl
      · exact absurd here apart
    · rcases holds second other secondHolds with ⟨-, here⟩ | ⟨-, -, secondHeld⟩
      · exact absurd here apart
      · exact holding.apart first second other firstHeld secondHeld

end Holding

end Threads
