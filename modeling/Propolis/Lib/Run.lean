import Mathlib.Data.List.Basic

/-!
# Runs under a guard

A system is a step function on states; a run is a list of actions.  `meets` says
that every step of a run satisfies a guard in the state it is taken from.  What
holds at the start and survives every guarded step holds at the end of every run
that meets the guard, and so, a beginning of such a run being one too, in every
state on the way.
-/

namespace Run

variable {State Action : Type} (step : State → Action → State) (guard : State → Action → Bool)
  {state : State} {actions : List Action}

def meets : State → List Action → Bool
  | _, [] => true
  | state, action :: later => guard state action && meets (step state action) later

variable {step guard}

theorem invariant_of_meets (invariant : State → Prop)
    (keeps : ∀ state action, guard state action = true → invariant state →
      invariant (step state action))
    (start : invariant state)
    (guarded : meets step guard state actions = true) : invariant (actions.foldl step state) := by
  induction actions generalizing state with
  | nil => exact start
  | cons action later ih =>
      simp only [meets, Bool.and_eq_true] at guarded
      exact ih (keeps state action guarded.1 start) guarded.2

section Taking

variable {Source Item : Type} {wanted : Action → Prop} {ready : State → Prop}
  {taken : State → List Item} {items : List Item}

variable (step guard wanted ready taken) in
/-- Runs take these items, in this order; where the state is ready, as many steps as there are
items left take all of them. -/
def Yields (state : State) (items : List Item) : Prop :=
  ∀ actions, meets step guard state actions = true →
    taken (actions.foldl step state) <+: items ∧
      (ready state → (∀ action ∈ actions, wanted action) →
        items.length ≤ (taken state).length + actions.length →
        taken (actions.foldl step state) = items)

/-- Steps that take items from the front of a source they leave alone take them in order, and all
of them where each takes one while there is one left. -/
theorem yields_of_meets (invariant : State → Prop) (source : State → Source)
    (gone whole : Source → List Item)
    (keeps : ∀ state action, guard state action = true → invariant state →
      invariant (step state action))
    (fixed : ∀ state action, source (step state action) = source state)
    (still : ∀ state action, ready state → ready (step state action))
    (grows : ∀ state action, taken state <+: taken (step state action))
    (within : ∀ state, invariant state →
      gone (source state) ++ taken state <+: whole (source state))
    (more : ∀ state action, guard state action = true → wanted action → invariant state →
      ready state → whole (source state) = gone (source state) ++ taken state ∨
        (taken state).length < (taken (step state action)).length)
    (start : invariant state) (split : whole (source state) = gone (source state) ++ items) :
    Yields step guard wanted ready taken state items := by
  intro actions guarded
  induction actions generalizing state with
  | nil =>
      have here := within state start
      rw [split, List.prefix_append_right_inj] at here
      exact ⟨here, fun _ _ enough => here.eq_of_length_le enough⟩
  | cons action later ih =>
      simp only [meets, Bool.and_eq_true] at guarded
      have next := ih (keeps state action guarded.1 start) (by rw [fixed, split]) guarded.2
      refine ⟨next.1, ?_⟩
      intro open_ each enough
      rw [List.forall_mem_cons] at each
      apply next.2 (still state action open_) each.2
      rw [List.length_cons] at enough
      rcases more state action guarded.1 each.1 start open_ with complete | further
      · rw [split, List.append_cancel_left_eq] at complete
        rw [complete]
        exact Nat.le_add_right_of_le (grows state action).length_le
      · omega

end Taking

theorem meets_append {first second : List Action} :
    meets step guard state (first ++ second) =
      (meets step guard state first && meets step guard (first.foldl step state) second) := by
  induction first generalizing state with
  | nil => rfl
  | cons action later ih => simp [meets, ih, Bool.and_assoc]

theorem meets_and {other : State → Action → Bool} :
    meets step (fun state action => guard state action && other state action) state actions =
        true ↔
      meets step guard state actions = true ∧ meets step other state actions = true := by
  induction actions generalizing state with
  | nil => simp [meets]
  | cons action later ih =>
      simp only [meets, Bool.and_eq_true, ih]
      tauto

variable (step guard) in
/-- Some run that meets the guard leads from one state to the other. -/
def Reaches (state final : State) : Prop :=
  ∃ actions, meets step guard state actions = true ∧ actions.foldl step state = final

theorem Reaches.refl (state : State) : Reaches step guard state state :=
  ⟨[], rfl, rfl⟩

theorem Reaches.trans {first second third : State} (left_ : Reaches step guard first second)
    (right_ : Reaches step guard second third) : Reaches step guard first third := by
  obtain ⟨before, metBefore, rfl⟩ := left_
  obtain ⟨after, metAfter, rfl⟩ := right_
  refine ⟨before ++ after, ?_, List.foldl_append⟩
  rw [meets_append, metBefore, metAfter]
  rfl

theorem Reaches.single {action : Action} (met : guard state action = true) :
    Reaches step guard state (step state action) := by
  refine ⟨[action], ?_, rfl⟩
  simp [meets, met]

variable (step guard) in
/-- The run meets the guard, and what it leads to passes the check. -/
def arrives (check : State → Bool) : State → List Action → Bool
  | state, [] => check state
  | state, action :: later => guard state action && arrives check (step state action) later

theorem reaches_of_arrives {check : State → Bool}
    (arrived : arrives step guard check state actions = true) :
    ∃ final, check final = true ∧ Reaches step guard state final := by
  induction actions generalizing state with
  | nil => exact ⟨state, arrived, .refl state⟩
  | cons action later ih =>
      obtain ⟨met, arrived⟩ := Bool.and_eq_true_iff.mp arrived
      obtain ⟨final, checked, reached⟩ := ih arrived
      exact ⟨final, checked, (Reaches.single met).trans reached⟩

end Run
