import Mathlib

/-!
# Rows that name their parent

A table whose rows have a key and may name the key of a parent.  The generations below
a root are read off the table.  Where no key is named by more than `branching` rows, a
generation grows by that factor at most, and where a row is one level deeper than its
parent and the depth is bounded there are no more generations than levels.
-/

namespace Forest

variable {Row Key : Type} [DecidableEq Key] (key : Row → Key) (parent : Row → Option Key)
  (rows : List Row)

/-- The rows so many steps below the root. -/
def generation (root : Key) : ℕ → List Row
  | 0 => rows.filter fun row => key row = root
  | level + 1 => rows.filter fun row =>
      (generation root level).any fun above => parent row = some (key above)

/-- The rows of the first generations, the root among them. -/
def descendants (root : Key) (levels : ℕ) : List Row :=
  (List.range levels).flatMap (generation key parent rows root)

variable {key parent rows} {root : Key} {level branching deepest : ℕ}

theorem generation_mem {row : Row} (member : row ∈ generation key parent rows root level) :
    row ∈ rows := by
  cases level with
  | zero => exact List.mem_of_mem_filter member
  | succ level => exact List.mem_of_mem_filter member

theorem countP_or_le {Item : Type} (items : List Item) (one other : Item → Bool) :
    items.countP (fun item => one item || other item) ≤ items.countP one + items.countP other := by
  induction items with
  | nil => simp
  | cons item items ih =>
      simp only [List.countP_cons]
      cases one item <;> simp <;> omega

/-- What matches one of several conditions is counted for each of them. -/
theorem countP_any_le {Item Cond : Type} (items : List Item) (conditions : List Cond)
    (holds : Cond → Item → Bool) :
    items.countP (fun item => conditions.any fun condition => holds condition item) ≤
      (conditions.map fun condition => items.countP (holds condition)).sum := by
  induction conditions with
  | nil => simp
  | cons condition rest ih =>
      have both := countP_or_le items (holds condition) fun item =>
        rest.any fun condition => holds condition item
      simp only [List.any_cons, List.map_cons, List.sum_cons]
      omega

theorem sum_map_le {Item : Type} (items : List Item) (size : Item → ℕ) (most : ℕ)
    (each : ∀ item ∈ items, size item ≤ most) : (items.map size).sum ≤ items.length * most := by
  have bound := List.sum_le_card_nsmul (items.map size) most (by simpa using each)
  simpa using bound

theorem generation_length (unique : (rows.map key).Nodup)
    (few : ∀ above, rows.countP (fun row => parent row = some above) ≤ branching) (level : ℕ) :
    (generation key parent rows root level).length ≤ branching ^ level := by
  induction level with
  | zero =>
      have once := List.nodup_iff_count_le_one.mp unique root
      rw [List.count, List.countP_map] at once
      rw [generation, ← List.countP_eq_length_filter]
      exact once
  | succ level ih =>
      rw [generation, ← List.countP_eq_length_filter]
      calc rows.countP (fun row => (generation key parent rows root level).any fun above =>
              parent row = some (key above))
          ≤ ((generation key parent rows root level).map fun above =>
              rows.countP fun row => parent row = some (key above)).sum :=
            countP_any_le rows _ fun above row => decide (parent row = some (key above))
        _ ≤ (generation key parent rows root level).length * branching :=
            sum_map_le _ _ _ fun above _ => few (key above)
        _ ≤ branching ^ level * branching := Nat.mul_le_mul_right _ ih
        _ = branching ^ (level + 1) := (pow_succ _ _).symm

/-- A row of a generation is at least so deep. -/
theorem generation_depth {depth : Row → ℕ}
    (below : ∀ row ∈ rows, ∀ above ∈ rows, parent row = some (key above) →
      depth row = depth above + 1)
    {row : Row} (member : row ∈ generation key parent rows root level) : level ≤ depth row := by
  induction level generalizing row with
  | zero => exact Nat.zero_le _
  | succ level ih =>
      have stored := generation_mem member
      obtain ⟨above, aboveMember, named⟩ := List.any_eq_true.mp (List.mem_filter.mp member).2
      rw [below row stored above (generation_mem aboveMember) (by simpa using named)]
      exact Nat.succ_le_succ (ih aboveMember)

/-- However many generations are looked at, there are no more rows than a full tree has. -/
theorem descendants_length (unique : (rows.map key).Nodup)
    (few : ∀ above, rows.countP (fun row => parent row = some above) ≤ branching)
    {depth : Row → ℕ}
    (below : ∀ row ∈ rows, ∀ above ∈ rows, parent row = some (key above) →
      depth row = depth above + 1)
    (bounded : ∀ row ∈ rows, depth row ≤ deepest) (levels : ℕ) :
    (descendants key parent rows root levels).length ≤
      ∑ level ∈ Finset.range (deepest + 1), branching ^ level := by
  have upTo : (descendants key parent rows root levels).length ≤
      ∑ level ∈ Finset.range (min levels (deepest + 1)), branching ^ level := by
    induction levels with
    | zero => simp [descendants]
    | succ levels ih =>
        rw [descendants, List.range_succ, List.flatMap_append, List.length_append,
          List.flatMap_singleton]
        by_cases inside : levels ≤ deepest
        · rw [Nat.min_eq_left (by omega)] at ih ⊢
          rw [Finset.sum_range_succ]
          exact Nat.add_le_add ih (generation_length unique few levels)
        · have none : generation key parent rows root levels = [] := by
            apply List.eq_nil_iff_forall_not_mem.mpr
            intro row member
            have deep := generation_depth below member
            have most := bounded row (generation_mem member)
            omega
          rw [none]
          rw [Nat.min_eq_right (by omega)] at ih ⊢
          exact ih
  apply upTo.trans
  apply Finset.sum_le_sum_of_subset
  exact Finset.range_subset_range.mpr (Nat.min_le_right _ _)

end Forest
