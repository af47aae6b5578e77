import Mathlib.Data.List.Basic
import Mathlib.Data.List.Forall2
import Mathlib.Data.List.Induction

/-!
# Hash chains

Rows that carry the hash of the row before them and a hash of their own.  A walk
over the rows checks both; `firstBad` is where it stops.  What a chain that
passes the walk commits to is stated for any notion of content: if the link
function determines the previous hash and the content on the rows at hand
(`binds`), the last hash determines every row (`Linked.forall₂`), and no two rows
have the same place (`Linked.prev_ne`).
-/

namespace HashChain

/-- How the rows of a chain are read. -/
structure View (Row Hash : Type*) where
  link : Option Hash → Row → Hash
  prev : Row → Option Hash
  hash : Row → Hash

variable {Row Hash : Type*} {view : View Row Hash}

def Checks (view : View Row Hash) (prior : Option Hash) (row : Row) : Prop :=
  view.prev row = prior ∧ view.link prior row = view.hash row

instance [DecidableEq Hash] (view : View Row Hash) (prior : Option Hash) (row : Row) :
    Decidable (Checks view prior row) :=
  inferInstanceAs (Decidable (_ ∧ _))

/-- The hash the row after `rows` has to name. -/
def tip (view : View Row Hash) : Option Hash → List Row → Option Hash
  | prior, [] => prior
  | _, row :: rest => tip view (some (view.hash row)) rest

def Linked (view : View Row Hash) : Option Hash → List Row → Prop
  | _, [] => True
  | prior, row :: rest => Checks view prior row ∧ Linked view (some (view.hash row)) rest

/-- The first row that fails a check. -/
def firstBad [DecidableEq Hash] (view : View Row Hash) : Option Hash → List Row → Option Row
  | _, [] => none
  | prior, row :: rest =>
      if Checks view prior row then firstBad view (some (view.hash row)) rest else some row

theorem tip_append (prior : Option Hash) (front back : List Row) :
    tip view prior (front ++ back) = tip view (tip view prior front) back := by
  induction front generalizing prior with
  | nil => rfl
  | cons row rest ih => exact ih (some (view.hash row))

theorem tip_eq_getLast? (rows : List Row) : tip view none rows = rows.getLast?.map view.hash := by
  induction rows using List.reverseRecOn with
  | nil => rfl
  | append_singleton =>
      rw [tip_append, List.getLast?_concat]
      rfl

theorem linked_append {prior : Option Hash} {front back : List Row} :
    Linked view prior (front ++ back) ↔
      Linked view prior front ∧ Linked view (tip view prior front) back := by
  induction front generalizing prior with
  | nil => simp [Linked, tip]
  | cons row rest ih => simp [Linked, tip, ih, and_assoc]

theorem linked_singleton {prior : Option Hash} {row : Row} :
    Linked view prior [row] ↔ Checks view prior row := by
  simp [Linked]

section Walk

variable [DecidableEq Hash] {prior : Option Hash} {front back : List Row}

theorem firstBad_eq_none {rows : List Row} :
    firstBad view prior rows = none ↔ Linked view prior rows := by
  induction rows generalizing prior with
  | nil => simp [firstBad, Linked]
  | cons row rest ih =>
      rw [firstBad, Linked]
      split_ifs with checks
      · rw [ih]
        exact (and_iff_right checks).symm
      · simp [checks]

theorem firstBad_append :
    firstBad view prior (front ++ back) =
      (firstBad view prior front).or (firstBad view (tip view prior front) back) := by
  induction front generalizing prior with
  | nil => rfl
  | cons row rest ih =>
      rw [List.cons_append, firstBad, firstBad]
      split_ifs
      · exact ih
      · rfl

theorem mem_of_firstBad {rows : List Row} {bad : Row}
    (found : firstBad view prior rows = some bad) : bad ∈ rows := by
  induction rows generalizing prior with
  | nil => cases found
  | cons row rest ih =>
      rw [firstBad] at found
      split_ifs at found with checks
      · exact List.mem_cons_of_mem row (ih found)
      · rw [Option.some.injEq] at found
        rw [← found]
        exact List.mem_cons_self

/-- A changed chain that still starts as a linked one did is found bad behind that start. -/
theorem firstBad_of_not_linked
    (linked : Linked view prior front) (broken : ¬Linked view prior (front ++ back)) :
    ∃ bad ∈ back, firstBad view prior (front ++ back) = some bad := by
  rw [firstBad_append, firstBad_eq_none.mpr linked]
  cases found : firstBad view (tip view prior front) back with
  | none => exact absurd (linked_append.mpr ⟨linked, firstBad_eq_none.mp found⟩) broken
  | some bad => exact ⟨bad, mem_of_firstBad found, rfl⟩

end Walk

section Places

variable {rows : List Row} {prior : Option Hash} {row : Row}

theorem Linked.checks (linked : Linked view prior rows)
    (member : row ∈ rows) : view.link (view.prev row) row = view.hash row := by
  induction rows generalizing prior with
  | nil => cases member
  | cons first rest ih =>
      rcases List.mem_cons.mp member with rfl | later
      · rw [linked.1.1, linked.1.2]
      · exact ih linked.2 later

theorem Linked.prev_zero (linked : Linked view prior rows)
    (first : rows[0]? = some row) : view.prev row = prior := by
  cases rows with
  | nil => cases first
  | cons =>
      cases first
      exact linked.1.1

theorem Linked.prev_succ (linked : Linked view prior rows) {index : ℕ}
    (here : rows[index + 1]? = some row) :
    ∃ before, rows[index]? = some before ∧ view.prev row = some (view.hash before) := by
  induction rows generalizing prior index with
  | nil => cases here
  | cons head rest ih =>
      cases index with
      | zero => exact ⟨head, rfl, linked.2.prev_zero here⟩
      | succ index => exact ih linked.2 here

/-- Rows at different places of a chain name different rows before them. -/
theorem Linked.prev_ne (linked : Linked view none rows)
    (binds : ∀ first ∈ rows, ∀ second ∈ rows,
      view.link (view.prev first) first = view.link (view.prev second) second →
        view.prev first = view.prev second)
    {earlier later : ℕ} (before : earlier < later) {first second : Row}
    (firstHere : rows[earlier]? = some first) (secondHere : rows[later]? = some second) :
    view.prev first ≠ view.prev second := by
  induction earlier generalizing later first second with
  | zero =>
      obtain ⟨index, rfl⟩ : ∃ index, later = index + 1 := ⟨later - 1, by omega⟩
      rcases linked.prev_succ secondHere with ⟨prior, -, named⟩
      rw [linked.prev_zero firstHere, named]
      exact (Option.some_ne_none _).symm
  | succ earlier ih =>
      obtain ⟨index, rfl⟩ : ∃ index, later = index + 1 := ⟨later - 1, by omega⟩
      rcases linked.prev_succ firstHere with ⟨firstPrior, firstPriorHere, firstNamed⟩
      rcases linked.prev_succ secondHere with ⟨secondPrior, secondPriorHere, secondNamed⟩
      rw [firstNamed, secondNamed, ne_eq, Option.some.injEq]
      intro sameHash
      have firstMem := List.mem_of_getElem? firstPriorHere
      have secondMem := List.mem_of_getElem? secondPriorHere
      rw [← linked.checks firstMem, ← linked.checks secondMem] at sameHash
      exact ih (by omega) firstPriorHere secondPriorHere
        (binds firstPrior firstMem secondPrior secondMem sameHash)

end Places

/-- The last hash commits to every row. -/
theorem Linked.forall₂ {agree : Row → Row → Prop} {first second : List Row}
    (firstLinked : Linked view none first) (secondLinked : Linked view none second)
    (binds : ∀ row ∈ first, ∀ other ∈ second,
      view.link (view.prev row) row = view.link (view.prev other) other →
        view.prev row = view.prev other ∧ agree row other)
    (sameLength : first.length = second.length)
    (sameTip : tip view none first = tip view none second) :
    List.Forall₂ (fun row other => view.prev row = view.prev other ∧
      view.hash row = view.hash other ∧ agree row other) first second := by
  induction first using List.reverseRecOn generalizing second with
  | nil =>
      rw [List.eq_nil_of_length_eq_zero sameLength.symm]
      exact List.Forall₂.nil
  | append_singleton front row ih =>
      rcases List.eq_nil_or_concat' second with rfl | ⟨back, other, rfl⟩
      · simp at sameLength
      · rw [linked_append, linked_singleton] at firstLinked secondLinked
        rw [tip_append, tip_append] at sameTip
        have hashes : view.hash row = view.hash other := Option.some.inj sameTip
        have links : view.link (view.prev row) row = view.link (view.prev other) other := by
          rw [firstLinked.2.1, secondLinked.2.1, firstLinked.2.2, secondLinked.2.2, hashes]
        rcases binds row (by simp) other (by simp) links with ⟨prevs, agrees⟩
        have tips : tip view none front = tip view none back := by
          rw [← firstLinked.2.1, ← secondLinked.2.1, prevs]
        have frontBinds : ∀ row ∈ front, ∀ other ∈ back,
            view.link (view.prev row) row = view.link (view.prev other) other →
              view.prev row = view.prev other ∧ agree row other :=
          fun row member other otherMember =>
            binds row (by simp [member]) other (by simp [otherMember])
        have sameFront : front.length = back.length := by simpa using sameLength
        exact List.rel_append (ih firstLinked.1 secondLinked.1 frontBinds sameFront tips)
          (List.Forall₂.cons ⟨prevs, hashes, agrees⟩ List.Forall₂.nil)

end HashChain
