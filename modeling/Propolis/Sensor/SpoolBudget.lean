import Mathlib.Algebra.BigOperators.Group.List.Basic
import Mathlib.Data.List.Perm.Basic
import Propolis.Lib.Run
import Propolis.Lib.Sha256

/-!
# The byte budget of the quarantine spool

`QuarantineSpool` (`sensor-framework/spool.rs`).  A store reserves its bytes under the lock,
writes and links its file without it, and settles the reservation under it again;
`prune_older_than` holds the lock while it removes files and recounts.  A rescan counts the
files and the reservations that are in flight, so a file that is linked while its reservation
is not settled is counted twice.

A rescan reads the directory at one moment, and a prune may find any file due.  Sizes are
natural numbers: neither the directory nor the budget comes to `2 ^ 64` bytes.
-/

namespace Propolis.Sensor

open Bytes

section Model

structure Accounting where
  used : ℕ
  inFlight : ℕ
  lastRescan : Option ℕ

/-- How far a store has come: its file was not there, its bytes are reserved, its file is linked,
or it has lost or failed and gives its reservation back. -/
inductive StoreStage where
  | missing
  | reserved
  | linked
  | unlinked
  deriving DecidableEq

structure Spool where
  /-- The files of the directory, with their sizes. -/
  files : List (Digest × ℕ)
  accounting : Accounting
  /-- The bodies of the stores in progress. -/
  stores : List (Bytes × StoreStage)
  /-- The sizes of the files removed by the prune that holds the lock. -/
  pruned : Option (List ℕ)

structure SpoolLimits where
  maxFileSize : ℕ
  globalBudget : ℕ

/-- A second, in nanoseconds. -/
def rescanMinInterval : ℕ := 1000000000

/-- What the calls do, one step at a time.  A store and a file are named by their positions. -/
inductive SpoolAction where
  | store (body : Bytes)
  | reserve (store now : ℕ)
  | publish (store : ℕ) (written : Bool)
  | settle (store : ℕ)
  | prune
  | remove (file : ℕ)
  | recount (now : ℕ)

def scanExistingUsage (files : List (Digest × ℕ)) : ℕ :=
  (files.map Prod.snd).sum

namespace Accounting

/-- The budget has no room for so many bytes, and the last rescan is long enough ago. -/
def mustRescan (accounting : Accounting) (limits : SpoolLimits) (size now : ℕ) : Bool :=
  limits.globalBudget < accounting.used + size ∧
    accounting.lastRescan.all fun last => last + rescanMinInterval ≤ now

def rescan (accounting : Accounting) (files : List (Digest × ℕ)) (now : ℕ) : Accounting :=
  { accounting with
    used := scanExistingUsage files + accounting.inFlight, lastRescan := some now }

/-- The count after `reserve_budget`, and whether the bytes were reserved. -/
def reserveBudget (accounting : Accounting) (limits : SpoolLimits) (files : List (Digest × ℕ))
    (size now : ℕ) : Accounting × Bool :=
  let counted := if accounting.mustRescan limits size now then accounting.rescan files now
    else accounting
  if counted.used + size ≤ limits.globalBudget then
    ({ counted with used := counted.used + size, inFlight := counted.inFlight + size }, true)
  else (counted, false)

def releaseBudget (accounting : Accounting) (size : ℕ) : Accounting :=
  { accounting with used := accounting.used - size, inFlight := accounting.inFlight - size }

def finishReservation (accounting : Accounting) (size : ℕ) : Accounting :=
  { accounting with inFlight := accounting.inFlight - size }

end Accounting

namespace Spool

def new (files : List (Digest × ℕ)) : Spool :=
  ⟨files, ⟨scanExistingUsage files, 0, none⟩, [], none⟩

variable (hash : Bytes → Digest) (limits : SpoolLimits)

def step (spool : Spool) : SpoolAction → Spool
  | .store body =>
      if body.length ≤ limits.maxFileSize ∧ spool.files.lookup (hash body) = none then
        { spool with stores := (body, .missing) :: spool.stores }
      else spool
  | .reserve store now =>
      match spool.pruned, spool.stores[store]? with
      | none, some (body, .missing) =>
          let reserved := spool.accounting.reserveBudget limits spool.files body.length now
          { spool with
            accounting := reserved.1
            stores := (if reserved.2 then [(body, .reserved)] else []) ++
              spool.stores.eraseIdx store }
      | _, _ => spool
  | .publish store written =>
      match spool.stores[store]? with
      | some (body, .reserved) =>
          if written ∧ spool.files.lookup (hash body) = none then
            { spool with
              files := (hash body, body.length) :: spool.files
              stores := (body, .linked) :: spool.stores.eraseIdx store }
          else { spool with stores := (body, .unlinked) :: spool.stores.eraseIdx store }
      | _ => spool
  | .settle store =>
      match spool.pruned, spool.stores[store]? with
      | none, some (body, .linked) =>
          { spool with
            accounting := spool.accounting.finishReservation body.length
            stores := spool.stores.eraseIdx store }
      | none, some (body, .unlinked) =>
          { spool with
            accounting := spool.accounting.releaseBudget body.length
            stores := spool.stores.eraseIdx store }
      | _, _ => spool
  | .prune => if spool.pruned = none then { spool with pruned := some [] } else spool
  | .remove file =>
      match spool.pruned, spool.files[file]? with
      | some removed, some (_, size) =>
          { spool with files := spool.files.eraseIdx file, pruned := some (size :: removed) }
      | _, _ => spool
  | .recount now =>
      match spool.pruned with
      | none => spool
      | some [] => { spool with pruned := none }
      | some _ => { spool with
          accounting := spool.accounting.rescan spool.files now
          pruned := none }

/-- The step scans the directory. -/
def rescans (spool : Spool) : SpoolAction → Bool
  | .reserve store now => spool.pruned = none ∧ spool.stores[store]?.any fun (body, stage) =>
      stage = .missing ∧ spool.accounting.mustRescan limits body.length now
  | .recount _ => spool.pruned.getD [] ≠ []
  | _ => false

/-- The directory is scanned while no store has linked its file and not yet settled. -/
def calm (spool : Spool) (action : SpoolAction) : Bool :=
  spool.rescans limits action = false ∨ spool.stores.all fun store => store.2 ≠ .linked

end Spool

end Model

section Balance

variable {hash : Bytes → Digest} {limits : SpoolLimits} {spool : Spool}

/-- The bytes a store has in flight. -/
def claimed : Bytes × StoreStage → ℕ
  | (_, .missing) => 0
  | (body, _) => body.length

/-- Those of them that no file holds. -/
def unpublished : Bytes × StoreStage → ℕ
  | (body, .reserved) | (body, .unlinked) => body.length
  | _ => 0

/-- The count is that of the files and of the reservations without a file. -/
structure Spool.Balanced (spool : Spool) : Prop where
  inFlight : spool.accounting.inFlight = (spool.stores.map claimed).sum
  used : spool.accounting.used = scanExistingUsage spool.files +
    (spool.stores.map unpublished).sum + (spool.pruned.getD []).sum

theorem sum_eraseIdx {Item : Type} {items : List Item} {index : ℕ} {item : Item}
    (found : items[index]? = some item) (weight : Item → ℕ) :
    (items.map weight).sum = weight item + ((items.eraseIdx index).map weight).sum := by
  obtain ⟨less, rfl⟩ := List.getElem?_eq_some_iff.mp found
  have sum := ((List.getElem_cons_eraseIdx_perm less).map weight).sum_eq
  rw [← sum, List.map_cons, List.sum_cons]

/-- Where no file is linked that is not settled, no file holds the bytes in flight. -/
theorem Spool.Balanced.inFlight_of_calm (balanced : spool.Balanced) {action : SpoolAction}
    (calm : spool.calm limits action = true) (rescans : spool.rescans limits action = true) :
    spool.accounting.inFlight = (spool.stores.map unpublished).sum := by
  rw [balanced.inFlight]
  congr 1
  apply List.map_congr_left
  rintro ⟨body, stage⟩ member
  cases stage with
  | linked =>
      simp only [Spool.calm, rescans, decide_eq_true_eq, Bool.true_eq_false, false_or] at calm
      simpa using List.all_eq_true.mp calm _ member
  | missing | reserved | unlinked => rfl

theorem Accounting.reserveBudget_spec {accounting : Accounting} {files : List (Digest × ℕ)}
    {waiting size now : ℕ} (used : accounting.used = scanExistingUsage files + waiting)
    (calm : accounting.mustRescan limits size now = true → accounting.inFlight = waiting) :
    (accounting.reserveBudget limits files size now).1.used = scanExistingUsage files + waiting +
        (if (accounting.reserveBudget limits files size now).2 then size else 0) ∧
      (accounting.reserveBudget limits files size now).1.inFlight = accounting.inFlight +
        (if (accounting.reserveBudget limits files size now).2 then size else 0) := by
  rw [reserveBudget]
  cases must : accounting.mustRescan limits size now with
  | true =>
      have waits := calm must
      simp only [if_true, rescan]
      split <;> simp [waits]
  | false =>
      simp only [Bool.false_eq_true, if_false]
      split <;> simp [used]

theorem Spool.Balanced.step (balanced : spool.Balanced) {action : SpoolAction}
    (calm : spool.calm limits action = true) : (spool.step hash limits action).Balanced := by
  have scanned := balanced.inFlight_of_calm calm
  obtain ⟨inFlight, used⟩ := balanced
  fun_cases Spool.step hash limits spool action with
  | case1 => exact ⟨by simpa [claimed] using inFlight, by simpa [unpublished] using used⟩
  | case3 store now body found free reserved =>
      have claims := sum_eraseIdx found claimed
      have waits := sum_eraseIdx found unpublished
      simp only [unpublished, Nat.zero_add] at claims waits
      have spec := @Accounting.reserveBudget_spec limits spool.accounting spool.files
        (spool.stores.map unpublished).sum body.length now (by simpa [free] using used)
        (fun must => scanned (by simp [Spool.rescans, free, found, must]))
      constructor
      · rw [spec.2]
        split <;> simp [claimed, inFlight, claims, Nat.add_comm]
      · rw [List.map_append, List.sum_append, spec.1, free, waits]
        split
        · simp only [List.map_cons, List.map_nil, List.sum_singleton, unpublished]
          rw [Option.getD_none, List.sum_nil, Nat.add_right_comm, Nat.add_assoc, Nat.add_zero]
        · simp
  | case5 store written body found | case6 store written body found =>
      have claims := sum_eraseIdx found claimed
      have waits := sum_eraseIdx found unpublished
      simp only [claimed, unpublished] at claims waits
      constructor
      · simp only [List.map_cons, List.sum_cons, claimed]
        omega
      · simp only [List.map_cons, List.sum_cons, unpublished, scanExistingUsage] at used ⊢
        omega
  | case8 store body found free | case9 store body found free =>
      have claims := sum_eraseIdx found claimed
      have waits := sum_eraseIdx found unpublished
      simp only [claimed, unpublished] at claims waits
      constructor
      · simp only [Accounting.finishReservation, Accounting.releaseBudget]
        omega
      · simp only [Accounting.finishReservation, Accounting.releaseBudget]
        omega
  | case11 free => exact ⟨inFlight, by simpa [free] using used⟩
  | case13 file removed name size found pruning =>
      have scan := sum_eraseIdx found Prod.snd
      refine ⟨inFlight, ?_⟩
      simp only [pruning, Option.getD_some, List.sum_cons, scanExistingUsage] at used ⊢
      omega
  | case16 now pruning => exact ⟨inFlight, by simpa [pruning] using used⟩
  | case17 now removed some_ pruning =>
      refine ⟨inFlight, ?_⟩
      have waits := scanned (by simpa [Spool.rescans, pruning] using some_)
      simp [Accounting.rescan, waits]
  | case2 | case4 | case7 | case10 | case12 | case14 | case15 => exact ⟨inFlight, used⟩

/-- Where the directory is only scanned while no store has linked its file and not yet settled, the
count is what the files hold, whenever no store is in progress and no prune holds the lock. -/
theorem spool_counts_each_once (hash : Bytes → Digest) (limits : SpoolLimits)
    (files : List (Digest × ℕ)) (actions : List SpoolAction)
    (calm : Run.meets (Spool.step hash limits) (Spool.calm limits) (.new files) actions = true) :
    let spool := actions.foldl (Spool.step hash limits) (.new files)
    spool.stores = [] → spool.pruned = none →
      spool.accounting.used = scanExistingUsage spool.files := by
  intro spool idle free
  have balanced : spool.Balanced :=
    Run.invariant_of_meets Spool.Balanced (fun _ _ calm balanced => balanced.step calm)
      ⟨rfl, rfl⟩ calm
  simpa [idle, free] using balanced.used

/-- Two stores of one body, the second of which finds it linked, and one that is refused after a
rescan. -/
def storedTwice : List SpoolAction :=
  [.store (ofText "a"), .store (ofText "a"), .reserve 0 0, .reserve 1 0, .publish 0 true,
    .publish 1 true, .settle 0, .settle 0, .store (ofText "bb"), .reserve 0 0]

theorem spool_counts_each_once_lost :
    let spool := storedTwice.foldl (Spool.step sha256 ⟨9, 2⟩) (.new [])
    spool.accounting.used = scanExistingUsage spool.files := by
  apply spool_counts_each_once
  · decide +kernel
  · decide +kernel
  · decide +kernel

/-- A store is refused while another one has linked its file. -/
def refusedWhileLinked : List SpoolAction :=
  [.store (ofText "a"), .reserve 0 0, .publish 0 true, .store (ofText "bb"), .reserve 0 0,
    .settle 0]

/-- The rescan counts the file and its reservation. -/
theorem linked_file_counted_twice :
    let spool := refusedWhileLinked.foldl (Spool.step sha256 ⟨9, 2⟩) (.new [])
    spool.stores = [] ∧ spool.pruned = none ∧ spool.accounting.used = 2 ∧
      scanExistingUsage spool.files = 1 := by
  decide +kernel

end Balance

end Propolis.Sensor
