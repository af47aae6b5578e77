import Propolis.Lib.HashChain
import Propolis.Ledger.Hashing
import Propolis.Ledger.Runs

/-!
# Verification of the ledger's hash chain

`verify_chain_in_batches`: the rows are fetched in pages of ids above the last one
seen, and every row is checked against the hash of the row before it.  For a
ledger in id order the pages do not matter (`verifyChainInBatches_eq`): the walk
is that of the whole chain.  The append paths only ever extend a linked chain, so
what they leave verifies (`run_linked`).
-/

namespace Propolis

open HashChain

inductive ChainStatus where
  | intact
  | broken (firstBadId : ℕ)
  deriving DecidableEq

variable (forms : TextForms) (sha256 : Bytes → Digest) {rows : List EventRow}

/-- A row's place in the chain. -/
def chainView : View EventRow Digest where
  link prior row := chainHash forms sha256 prior (reconstructEvent row)
  prev row := row.prevHash
  hash row := row.hash

/-- The inner loop: the hash and the id the next page starts from, or the id of a bad row. -/
def verifyPage : Option Digest → ℕ → List EventRow → Except ℕ (Option Digest × ℕ)
  | prior, lastId, [] => .ok (prior, lastId)
  | prior, _, row :: rest =>
      if row.prevHash ≠ prior then .error row.id
      else if chainHash forms sha256 prior (reconstructEvent row) ≠ row.hash then .error row.id
      else verifyPage (some row.hash) row.id rest

/-- `WHERE id > last ORDER BY id LIMIT batch`. -/
def nextPage (rows : List EventRow) (batch lastId : ℕ) : List EventRow :=
  (rows.filter (lastId < ·.id)).take batch

theorem verifyPage_lastId {prior next : Option Digest} {lastId nextId : ℕ} {page : List EventRow}
    (nonempty : page ≠ [])
    (walked : verifyPage forms sha256 prior lastId page = .ok (next, nextId)) :
    ∃ row ∈ page, row.id = nextId := by
  induction page generalizing prior lastId with
  | nil => exact absurd rfl nonempty
  | cons row rest ih =>
      simp only [verifyPage] at walked
      split_ifs at walked
      by_cases last : rest = []
      · subst last
        simp only [verifyPage, Except.ok.injEq, Prod.mk.injEq] at walked
        exact ⟨row, List.mem_cons_self, walked.2⟩
      · rcases ih last walked with ⟨other, member, isNext⟩
        exact ⟨other, List.mem_cons_of_mem row member, isNext⟩

theorem filter_length_lt {batch lastId : ℕ} {row : EventRow}
    (member : row ∈ nextPage rows batch lastId) :
    (rows.filter (row.id < ·.id)).length < (rows.filter (lastId < ·.id)).length := by
  have inPage := List.mem_of_mem_take member
  have later : lastId < row.id := by simpa using (List.mem_filter.mp inPage).2
  have nested : rows.filter (row.id < ·.id) =
      (rows.filter (lastId < ·.id)).filter (row.id < ·.id) := by
    rw [List.filter_filter]
    apply List.filter_congr
    intro other _
    by_cases beyond : row.id < other.id
    · simp [beyond, later.trans beyond]
    · simp [beyond]
  rw [nested]
  apply List.length_filter_lt_length_iff_exists.mpr
  exact ⟨row, inPage, by simp⟩

def verifyPages (rows : List EventRow) (batch : ℕ) (prior : Option Digest) (lastId : ℕ) :
    ChainStatus :=
  match _page : nextPage rows batch lastId with
  | [] => .intact
  | first :: rest =>
      match _walked : verifyPage forms sha256 prior lastId (first :: rest) with
      | .error id => .broken id
      | .ok (next, nextId) => verifyPages rows batch next nextId
termination_by (rows.filter (lastId < ·.id)).length
decreasing_by
  rcases verifyPage_lastId forms sha256 (List.cons_ne_nil first rest) _walked with
    ⟨row, member, isNext⟩
  rw [← _page] at member
  subst isNext
  exact filter_length_lt member

def verifyChainInBatches (rows : List EventRow) (batch : ℤ) : ChainStatus :=
  verifyPages forms sha256 rows (max batch 1).toNat none 0

section Walk

variable {forms sha256}

def statusOf (bad : Option EventRow) : ChainStatus :=
  match bad with
  | none => .intact
  | some row => .broken row.id

theorem verifyPage_eq (prior : Option Digest) (lastId : ℕ) (page : List EventRow) :
    verifyPage forms sha256 prior lastId page =
      match HashChain.firstBad (chainView forms sha256) prior page with
      | some bad => .error bad.id
      | none => .ok (tip (chainView forms sha256) prior page,
          (page.getLast?.map (·.id)).getD lastId) := by
  induction page generalizing prior lastId with
  | nil => rfl
  | cons row rest ih =>
      simp only [verifyPage, HashChain.firstBad, Checks, tip]
      by_cases named : row.prevHash = prior
      · by_cases hashed : chainHash forms sha256 prior (reconstructEvent row) = row.hash
        · simp only [chainView, named, hashed, ih]
          cases rest <;> simp [List.getLast?_cons]
        · simp [chainView, named, hashed]
      · simp [chainView, named]

/-- The pages of a ledger in id order are consecutive pieces of it. -/
theorem nextPage_eq {done todo : List EventRow} {lastId : ℕ} (batch : ℕ)
    (seen : ∀ row ∈ done, row.id ≤ lastId) (unseen : ∀ row ∈ todo, lastId < row.id) :
    nextPage (done ++ todo) batch lastId = todo.take batch := by
  have doneGone : done.filter (lastId < ·.id) = [] := by
    simp only [List.filter_eq_nil_iff, decide_eq_true_eq, not_lt]
    exact seen
  have todoKept : todo.filter (lastId < ·.id) = todo := by
    simp only [List.filter_eq_self, decide_eq_true_eq]
    exact unseen
  simp [nextPage, doneGone, todoKept]

/-- The id a page ends with separates it from the rows after it. -/
theorem page_bounds {page later : List EventRow} (nonempty : page ≠ []) (lastId : ℕ)
    (ordered : (page ++ later).Pairwise (·.id < ·.id)) :
    (∀ row ∈ page, row.id ≤ (page.getLast?.map (·.id)).getD lastId) ∧
      ∀ row ∈ later, (page.getLast?.map (·.id)).getD lastId < row.id := by
  rcases List.eq_nil_or_concat' page with rfl | ⟨front, last, rfl⟩
  · exact absurd rfl nonempty
  · simp only [List.getLast?_concat, Option.map_some, Option.getD_some]
    rcases List.pairwise_append.mp ordered with ⟨inPage, -, across⟩
    constructor
    · intro row member
      rcases List.mem_append.mp member with inFront | isLast
      · exact ((List.pairwise_append.mp inPage).2.2 row inFront last (by simp)).le
      · simp [List.mem_singleton.mp isLast]
    · intro row member
      exact across last (by simp) row member

theorem verifyPages_eq {batch : ℕ} (batchPos : 0 < batch) (todo done : List EventRow)
    (prior : Option Digest) (lastId : ℕ) (ordered : todo.Pairwise (·.id < ·.id))
    (seen : ∀ row ∈ done, row.id ≤ lastId) (unseen : ∀ row ∈ todo, lastId < row.id) :
    verifyPages forms sha256 (done ++ todo) batch prior lastId =
      statusOf (HashChain.firstBad (chainView forms sha256) prior todo) := by
  induction size : todo.length using Nat.strong_induction_on
    generalizing todo done prior lastId with
  | h size ih =>
      subst size
      have pageEq := nextPage_eq batch seen unseen
      rw [verifyPages]
      split
      · rename_i empty
        rw [pageEq, List.take_eq_nil_iff] at empty
        rcases empty with isZero | isNil
        · omega
        · subst isNil
          rfl
      · rename_i first rest shape
        rw [pageEq] at shape
        have walk := @verifyPage_eq forms sha256 prior lastId (first :: rest)
        have whole : HashChain.firstBad (chainView forms sha256) prior todo =
            (HashChain.firstBad (chainView forms sha256) prior (first :: rest)).or
              (HashChain.firstBad (chainView forms sha256)
                (tip (chainView forms sha256) prior (first :: rest)) (todo.drop batch)) := by
          rw [← firstBad_append, ← shape, List.take_append_drop]
        split
        · rename_i id walked
          cases found : HashChain.firstBad (chainView forms sha256) prior (first :: rest) with
          | none => simp [walk, found] at walked
          | some bad =>
              simp only [walk, found, Except.error.injEq] at walked
              simp [whole, found, statusOf, walked]
        · rename_i next nextId walked
          cases found : HashChain.firstBad (chainView forms sha256) prior (first :: rest) with
          | some bad => simp [walk, found] at walked
          | none =>
              simp only [walk, found] at walked
              rcases walked with ⟨rfl, rfl⟩
              have split : todo = first :: rest ++ todo.drop batch := by
                rw [← shape, List.take_append_drop]
              rw [split] at ordered
              have bounds := page_bounds (List.cons_ne_nil first rest) lastId ordered
              have shorter : (todo.drop batch).length < todo.length := by
                have lengths := congrArg List.length split
                simp only [List.length_append, List.length_cons] at lengths
                omega
              have recurse := ih _ shorter (todo.drop batch) (done ++ first :: rest)
                (tip (chainView forms sha256) prior (first :: rest)) _
                (List.pairwise_append.mp ordered).2.1 ?_ bounds.2 rfl
              · rw [whole, found, Option.none_or, ← recurse, List.append_assoc, ← split]
              · intro row member
                rcases List.mem_append.mp member with old | inPage
                · have firstUnseen := unseen first (by rw [split]; simp)
                  exact (seen row old).trans (firstUnseen.le.trans (bounds.1 first (by simp)))
                · exact bounds.1 row inPage

/-- The rows a ledger can have: ids are positive and rows are read in their order. -/
structure InIdOrder (rows : List EventRow) : Prop where
  ordered : rows.Pairwise (·.id < ·.id)
  positive : ∀ row ∈ rows, 0 < row.id

theorem verifyChainInBatches_eq (inOrder : InIdOrder rows) (batch : ℤ) :
    verifyChainInBatches forms sha256 rows batch =
      statusOf (HashChain.firstBad (chainView forms sha256) none rows) :=
  verifyPages_eq (by omega) rows [] none 0 inOrder.ordered (by simp) inOrder.positive

theorem verifyChainInBatches_eq_intact (inOrder : InIdOrder rows)
    (batch : ℤ) :
    verifyChainInBatches forms sha256 rows batch = .intact ↔
      Linked (chainView forms sha256) none rows := by
  rw [verifyChainInBatches_eq inOrder, ← firstBad_eq_none]
  cases HashChain.firstBad (chainView forms sha256) none rows <;> simp [statusOf]

end Walk

section Soundness

variable {forms sha256}

theorem Ledger.inIdOrder (ledger : Ledger) : InIdOrder ledger.rows :=
  ⟨ledger.ordered, ledger.positive⟩

def ChainLinked (forms : TextForms) (sha256 : Bytes → Digest) (db : Db) : Prop :=
  Linked (chainView forms sha256) none db.event.rows

theorem ChainLinked.appendNormalized {decay : ℚ → ℤ → ℤ → ℚ} {db : Db} {event : EventInput}
    (stored : event.Stored) (linked : ChainLinked forms sha256 db) :
    ChainLinked forms sha256 (appendNormalized decay (chainHash forms sha256) db event) := by
  have head : tip (chainView forms sha256) none db.event.rows = db.event.head := tip_eq_getLast? _
  rw [ChainLinked, appendNormalized_event, Ledger.insert_rows, linked_append, linked_singleton,
    head]
  refine ⟨linked, rfl, ?_⟩
  simp only [chainView, reconstructEvent_eventRow stored]
  rfl

theorem run_linked (decay : ℚ → ℤ → ℤ → ℚ) (calls : List Call) :
    ChainLinked forms sha256 (run decay (chainHash forms sha256) calls) :=
  run_invariant (fun _ _ linked => linked) (fun _ _ stored linked => linked.appendNormalized stored)
    (show Linked _ none [] from trivial) calls

end Soundness

end Propolis
