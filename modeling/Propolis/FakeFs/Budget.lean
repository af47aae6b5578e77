import Propolis.Lib.Paths

/-!
# The filesystem's share of a connection budget

What `ConnectionBudget` counts for the fake filesystem: bytes held and overlay slots taken.
The counters are 64 bits wide and saturate.
-/

namespace Propolis.Filesystem

open Bytes Paths

def u64Max : ℕ := 2 ^ 64 - 1

structure BudgetLimits where
  ownedBytes : ℕ
  overlayNodes : ℕ
  pathMax : ℕ
  componentMax : ℕ
  deriving DecidableEq

def BudgetLimits.standard : BudgetLimits :=
  ⟨196608, 4096, 4096, 255⟩

inductive BudgetError
  | noSpace
  | tooLarge
  | nameTooLong
  deriving DecidableEq

/-- The counter a refusal came from. -/
inductive Resource
  | ownedBytes
  | nodes
  deriving DecidableEq

structure ConnectionBudget where
  ownedBytes : ℕ
  overlayNodes : ℕ
  lastRefusal : Option Resource
  limits : BudgetLimits
  deriving DecidableEq

namespace ConnectionBudget

def new (limits : BudgetLimits) : ConnectionBudget :=
  ⟨0, 0, none, limits⟩

def refuse (budget : ConnectionBudget) (which : Resource) : ConnectionBudget :=
  { budget with lastRefusal := some which }

def checkName (budget : ConnectionBudget) (path : Bytes) : Except BudgetError Unit :=
  if budget.limits.pathMax < path.length ∨
      (path.splitOn slash).any fun component => budget.limits.componentMax < component.length then
    .error .nameTooLong
  else .ok ()

/-- Swap bytes charged before for new ones, in one check against the cap. -/
def replaceBytes (budget : ConnectionBudget) (old new : ℕ) :
    Except BudgetError Unit × ConnectionBudget :=
  if budget.limits.ownedBytes < new then (.error .tooLarge, budget.refuse .ownedBytes)
  else if budget.ownedBytes - old + new ≤ u64Max ∧
      budget.ownedBytes - old + new ≤ budget.limits.ownedBytes then
    (.ok (), { budget with ownedBytes := budget.ownedBytes - old + new })
  else (.error .noSpace, budget.refuse .ownedBytes)

def chargeBytes (budget : ConnectionBudget) (add : ℕ) :
    Except BudgetError Unit × ConnectionBudget :=
  budget.replaceBytes 0 add

def refundBytes (budget : ConnectionBudget) (sub : ℕ) : ConnectionBudget :=
  { budget with ownedBytes := budget.ownedBytes - sub }

def chargeNode (budget : ConnectionBudget) : Except BudgetError Unit × ConnectionBudget :=
  if budget.overlayNodes < budget.limits.overlayNodes then
    (.ok (), { budget with overlayNodes := min (budget.overlayNodes + 1) u64Max })
  else (.error .noSpace, budget.refuse .nodes)

/-- The slot of a tombstone, which is never refused. -/
def chargeNodeUnchecked (budget : ConnectionBudget) : ConnectionBudget :=
  { budget with overlayNodes := min (budget.overlayNodes + 1) u64Max }

/-- The two budgets count the same. -/
def SameCounters (budget after : ConnectionBudget) : Prop :=
  after.ownedBytes = budget.ownedBytes ∧ after.overlayNodes = budget.overlayNodes ∧
    after.limits = budget.limits

variable {budget after : ConnectionBudget}

theorem sameCounters_refuse (budget : ConnectionBudget) (which : Resource) :
    SameCounters budget (budget.refuse which) :=
  ⟨rfl, rfl, rfl⟩

theorem replaceBytes_error {old new : ℕ} {error : BudgetError}
    (refused : budget.replaceBytes old new = (.error error, after)) :
    SameCounters budget after := by
  rw [replaceBytes] at refused
  split at refused
  · cases refused
    exact sameCounters_refuse budget _
  · split at refused
    · cases refused
    · cases refused
      exact sameCounters_refuse budget _

theorem replaceBytes_ok {old new : ℕ} (fits : budget.replaceBytes old new = (.ok (), after)) :
    after = { budget with ownedBytes := budget.ownedBytes - old + new } ∧
      new ≤ budget.limits.ownedBytes ∧
      budget.ownedBytes - old + new ≤ budget.limits.ownedBytes := by
  rw [replaceBytes] at fits
  split at fits
  · cases fits
  case isFalse small =>
    split at fits
    case isTrue within =>
      cases fits
      exact ⟨rfl, Nat.le_of_not_lt small, within.2⟩
    case isFalse => cases fits

theorem chargeNode_error {error : BudgetError}
    (refused : budget.chargeNode = (.error error, after)) : after = budget.refuse .nodes := by
  rw [chargeNode] at refused
  split at refused
  · cases refused
  · cases refused
    rfl

theorem chargeNode_ok (fits : budget.chargeNode = (.ok (), after)) :
    budget.overlayNodes < budget.limits.overlayNodes ∧
      after = { budget with overlayNodes := min (budget.overlayNodes + 1) u64Max } := by
  rw [chargeNode] at fits
  split at fits
  case isTrue room =>
    cases fits
    exact ⟨room, rfl⟩
  case isFalse => cases fits

end ConnectionBudget

end Propolis.Filesystem
