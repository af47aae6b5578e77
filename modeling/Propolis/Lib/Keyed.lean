import Mathlib.Algebra.BigOperators.Group.List.Basic
import Mathlib.Data.List.Nodup
import Mathlib.Order.Lattice
import Mathlib.Tactic.SplitIfs
import Mathlib.Tactic.Tauto

/-!
# Tables with one entry for a key

An association list in which every key stands once.  The entry of a key splits the
table; updating and erasing it leave the two parts as they are.
-/

namespace Keyed

variable {Key Value : Type} {table : List (Key × Value)} {key : Key} {value : Value}
  {holds : Key × Value → Prop}

/-- Every key stands once. -/
def Unique (table : List (Key × Value)) : Prop :=
  (table.map Prod.fst).Nodup

section Looking

variable [BEq Key]

theorem lookup_map {Other : Type} (image : Value → Other) (key : Key)
    (table : List (Key × Value)) :
    (table.map fun entry => (entry.1, image entry.2)).lookup key =
      (table.lookup key).map image := by
  induction table with
  | nil => rfl
  | cons entry rest ih =>
      obtain ⟨first, content⟩ := entry
      rw [List.map_cons, List.lookup_cons, List.lookup_cons]
      cases key == first with
      | true => rfl
      | false => exact ih

variable [LawfulBEq Key]

theorem lookup_eq_none : table.lookup key = none ↔ ∀ entry ∈ table, entry.1 ≠ key := by
  rw [List.lookup_eq_none_iff]
  simp [ne_comm]

theorem lookup_isSome : (table.lookup key).isSome = true ↔ ∃ entry ∈ table, entry.1 = key := by
  rw [Option.isSome_iff_ne_none, ne_eq, lookup_eq_none]
  simp [not_forall, not_not]

theorem lookup_filter (keep : Key → Bool) (key : Key) (table : List (Key × Value)) :
    (table.filter fun entry => keep entry.1).lookup key =
      if keep key then table.lookup key else none := by
  induction table with
  | nil => simp
  | cons entry rest ih =>
      obtain ⟨first, content⟩ := entry
      rw [List.filter_cons]
      by_cases same : key = first
      · subst same
        cases kept : keep key with
        | true => simp
        | false => simpa [kept] using ih
      · have other : (key == first) = false := beq_eq_false_iff_ne.mpr same
        cases kept : keep first with
        | true => simpa [List.lookup_cons, other] using ih
        | false => simpa [List.lookup_cons, other] using ih

theorem mem_of_lookup (found : table.lookup key = some value) : (key, value) ∈ table := by
  rcases List.lookup_eq_some_iff.mp found with ⟨front, back, rfl, -⟩
  simp

theorem forall_getD {absent : Value}
    (each : ∀ entry ∈ table, holds entry) (without : holds (key, absent)) :
    holds (key, (table.lookup key).getD absent) := by
  cases found : table.lookup key with
  | none => exact without
  | some value => exact each _ (mem_of_lookup found)

/-- The entry of a key, and the parts before and behind it, which do not have the key. -/
theorem split_of_lookup (unique : Unique table) (found : table.lookup key = some value) :
    ∃ front back, table = front ++ (key, value) :: back ∧
      (∀ entry ∈ front, entry.1 ≠ key) ∧ ∀ entry ∈ back, entry.1 ≠ key := by
  obtain ⟨front, back, rfl, before⟩ := List.lookup_eq_some_iff.mp found
  refine ⟨front, back, rfl, ?_, ?_⟩
  · intro entry member same
    simpa [same] using before entry member
  · intro entry member same
    rw [Unique, List.map_append] at unique
    have apart := (List.nodup_cons.mp (List.nodup_append.mp unique).2.1).1
    exact apart (List.mem_map.mpr ⟨entry, member, same⟩)

end Looking

section Changing

variable [DecidableEq Key] {front back : List (Key × Value)} {Weight : Type}

def update (key : Key) (change : Value → Value) (table : List (Key × Value)) :
    List (Key × Value) :=
  table.map fun entry => if entry.1 = key then (key, change entry.2) else entry

def erase (key : Key) (table : List (Key × Value)) : List (Key × Value) :=
  table.filter fun entry => entry.1 ≠ key

/-- The entry of the key is replaced, or added. -/
def insert (key : Key) (value : Value) (table : List (Key × Value)) : List (Key × Value) :=
  erase key table ++ [(key, value)]

theorem update_of_absent (absent : ∀ entry ∈ table, entry.1 ≠ key) (change : Value → Value) :
    update key change table = table := by
  conv_rhs => rw [← List.map_id table]
  apply List.map_congr_left
  intro entry member
  exact if_neg (absent entry member)

theorem erase_of_absent (absent : ∀ entry ∈ table, entry.1 ≠ key) : erase key table = table := by
  apply List.filter_eq_self.mpr
  intro entry member
  simpa using absent entry member

section

variable (before : ∀ entry ∈ front, entry.1 ≠ key) (behind : ∀ entry ∈ back, entry.1 ≠ key)
include before behind

theorem update_split (change : Value → Value) :
    update key change (front ++ (key, value) :: back) = front ++ (key, change value) :: back := by
  have parts : update key change (front ++ (key, value) :: back) =
      update key change front ++ (key, change value) :: update key change back := by
    simp [update]
  rw [parts, update_of_absent before, update_of_absent behind]

theorem erase_split : erase key (front ++ (key, value) :: back) = front ++ back := by
  have parts : erase key (front ++ (key, value) :: back) = erase key front ++ erase key back := by
    simp [erase]
  rw [parts, erase_of_absent before, erase_of_absent behind]

end

section

variable (key : Key) (change : Value → Value) (table : List (Key × Value))

theorem update_keys :
    (update key change table).map Prod.fst = table.map Prod.fst := by
  rw [update, List.map_map]
  apply List.map_congr_left
  intro entry _
  simp only [Function.comp]
  split
  case isTrue same => exact same.symm
  case isFalse => rfl

theorem update_length :
    (update key change table).length = table.length :=
  List.length_map _

end

theorem Unique.update (unique : Unique table) (key : Key) (change : Value → Value) :
    Unique (update key change table) := by
  rw [Unique, update_keys]
  exact unique

theorem Unique.erase (unique : Unique table) (key : Key) : Unique (erase key table) :=
  List.Nodup.sublist (List.filter_sublist.map _) unique

theorem Unique.insert (unique : Unique table) (key : Key) (value : Value) :
    Unique (insert key value table) := by
  rw [Unique, Keyed.insert, List.map_append]
  apply List.nodup_append.mpr
  refine ⟨unique.erase key, List.pairwise_singleton _ _, ?_⟩
  simp only [List.mem_map, List.map_cons, List.map_nil, List.mem_singleton]
  rintro _ ⟨entry, member, rfl⟩ _ rfl
  simpa [Keyed.erase] using (List.mem_filter.mp member).2

theorem forall_insert (old : ∀ entry ∈ table, holds entry)
    (new : holds (key, value)) : ∀ entry ∈ insert key value table, holds entry := by
  intro entry member
  rcases List.mem_append.mp member with kept | added
  · exact old entry (List.mem_filter.mp kept).1
  · exact List.mem_singleton.mp added ▸ new

theorem length_insert_of_absent (absent : ∀ entry ∈ table, entry.1 ≠ key) (value : Value) :
    (insert key value table).length = table.length + 1 := by
  simp [insert, erase_of_absent absent]

theorem erase_map {Other : Type} (image : Value → Other) (key : Key)
    (table : List (Key × Value)) :
    erase key (table.map fun entry => (entry.1, image entry.2)) =
      (erase key table).map fun entry => (entry.1, image entry.2) := by
  rw [erase, List.filter_map]
  rfl

theorem sum_insert [AddCommMonoid Weight] (key : Key) (value : Value)
    (table : List (Key × Value)) (weight : Key × Value → Weight) :
    ((insert key value table).map weight).sum =
      ((erase key table).map weight).sum + weight (key, value) := by
  simp [insert]

variable [BEq Key] [LawfulBEq Key]

theorem length_insert_of_lookup {old : Value} (unique : Unique table)
    (found : table.lookup key = some old) (value : Value) :
    (insert key value table).length = table.length := by
  rcases split_of_lookup unique found with ⟨front, back, rfl, before, behind⟩
  simp [insert, erase_split before behind]

theorem lookup_erase (key other : Key) (table : List (Key × Value)) :
    (erase key table).lookup other = if other = key then none else table.lookup other := by
  rw [erase, lookup_filter (fun entry => decide (entry ≠ key))]
  by_cases same : other = key <;> simp

theorem lookup_insert (key other : Key) (value : Value)
    (table : List (Key × Value)) :
    (insert key value table).lookup other =
      if other = key then some value else table.lookup other := by
  rw [insert, List.lookup_append, lookup_erase]
  by_cases same : other = key
  · simp [same]
  · simp [same, List.lookup_cons, beq_eq_false_iff_ne.mpr same]

/-- A sum over the table is that of the entry of a key and of the others. -/
theorem sum_erase [AddCommMonoid Weight]
    (unique : Unique table) (found : table.lookup key = some value)
    (weight : Key × Value → Weight) :
    (table.map weight).sum = weight (key, value) + ((erase key table).map weight).sum := by
  obtain ⟨front, back, rfl, before, behind⟩ := split_of_lookup unique found
  rw [erase_split before behind]
  simp only [List.map_append, List.sum_append]
  exact add_left_comm _ _ _

/-- The same where an absent key counts as a value of no weight. -/
theorem sum_insert_getD [AddCommMonoid Weight]
    (unique : Unique table) (key : Key) (weight : Key × Value → Weight) (absent : Value)
    (weightless : weight (key, absent) = 0) (value : Value) :
    ((insert key value table).map weight).sum + weight (key, (table.lookup key).getD absent) =
      (table.map weight).sum + weight (key, value) := by
  rw [sum_insert]
  cases found : table.lookup key with
  | none =>
      rw [erase_of_absent (lookup_eq_none.mp found), Option.getD_none, weightless, add_zero]
  | some old =>
      rw [sum_erase unique found weight, Option.getD_some, add_comm, ← add_assoc]

/-- A new value adds to a sum what it weighs more than the old one. -/
theorem sum_insert_added [AddCancelCommMonoid Weight]
    (unique : Unique table) (key : Key) (weight : Value → Weight) (absent : Value)
    (weightless : weight absent = 0) (value : Value) {extra : Weight}
    (added : weight value = weight ((table.lookup key).getD absent) + extra) :
    ((insert key value table).map fun entry => weight entry.2).sum =
      (table.map fun entry => weight entry.2).sum + extra := by
  have sum := sum_insert_getD unique key (fun entry => weight entry.2) absent weightless value
  simp only [added] at sum
  rw [add_comm _ extra, ← add_assoc] at sum
  exact add_right_cancel sum

end Changing

end Keyed
