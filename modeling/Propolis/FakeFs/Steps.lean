import Propolis.FakeFs.Tree

/-!
# What an operation on the filesystem can do

The four operations that write.  `Effect` has one case for each way one of them can end: it was
refused or found nothing to do, it put a node into a slot the path holds or into a new one, or it
removed what is at a path.  Everything about runs is proved from these cases.
-/

namespace Propolis.Filesystem

open Bytes Paths

inductive FsOp
  | writeBlob (path : Bytes) (blob : Blob) (mode : UInt32) (now : ℤ)
  | makeDir (path : Bytes) (now : ℤ)
  | createSymlink (path target : Bytes) (now : ℤ)
  | removePath (path : Bytes)
  deriving DecidableEq

namespace FakeFs

def run (fs : FakeFs) : FsOp → Except FsError Unit × FakeFs
  | .writeBlob path blob mode now => fs.writeBlob path blob mode now
  | .makeDir path now => fs.makeDir path now
  | .createSymlink path target now => fs.createSymlink path target now
  | .removePath path => ((fs.removePath path).1.map fun _ => (), (fs.removePath path).2)

def apply (fs : FakeFs) (op : FsOp) : FakeFs :=
  (fs.run op).2

def succeeds (fs : FakeFs) (op : FsOp) : Bool :=
  (fs.run op).1.isOk

end FakeFs

/-- The physical path an operation acts on, where it resolves. -/
def FakeFs.target (fs : FakeFs) : FsOp → Except FsError Path
  | .writeBlob path _ _ _ => fs.resolve path true
  | .makeDir path _ => fs.resolve path true
  | .createSymlink path _ _ => fs.resolve path false
  | .removePath path => fs.resolve path false

/-- What an operation writes, up to the mode of a file. -/
def FsOp.writes : FsOp → Node → Prop
  | .writeBlob _ blob _ _, node => node.kind = .regular blob
  | .makeDir _ _, node => node.kind = .directory []
  | .createSymlink _ target _, node => node.kind = .symlink target
  | .removePath _, _ => False

/-- The bytes of an operation's node that are charged with the path. -/
def FsOp.ownBytes : FsOp → ℕ
  | .writeBlob _ blob _ _ => blob.ownedBytes
  | .makeDir _ _ => 0
  | .createSymlink _ target _ => target.length
  | .removePath _ => 0

/-- The budget after `old` bytes were swapped for `new` ones. -/
def FakeFs.Swaps (fs : FakeFs) (old new : ℕ) (budget : ConnectionBudget) : Prop :=
  budget.limits = fs.budget.limits ∧ budget.ownedBytes = fs.budget.ownedBytes - old + new ∧
    budget.ownedBytes ≤ fs.budget.limits.ownedBytes ∧ new ≤ fs.budget.limits.ownedBytes

inductive Effect (fs : FakeFs) (op : FsOp) : Bool → FakeFs → Prop
  /-- Refused, or nothing to do: a device took the write, nothing was there to remove. -/
  | unchanged (succeeded : Bool) (budget : ConnectionBudget)
      (counters : fs.budget.SameCounters budget) :
      Effect fs op succeeded { fs with budget := budget }
  /-- A file over what the session wrote, or where it removed something. -/
  | rewritten (physical : Path) (node : Node) (budget : ConnectionBudget)
      (target : fs.target op = .ok physical) (writes : op.writes node)
      (file : ∃ blob, node.kind = .regular blob)
      (held : fs.holdsSlot physical = true)
      (swaps : fs.Swaps (fs.overlayOwnedBytes physical) (min op.ownBytes u64Max) budget)
      (slots : budget.overlayNodes = fs.budget.overlayNodes) :
      Effect fs op true (FakeFs.put { fs with budget := budget } physical node)
  /-- A directory or a link where the session removed something: nothing is charged. -/
  | revived (physical : Path) (node : Node)
      (target : fs.target op = .ok physical) (writes : op.writes node)
      (bare : ∀ blob, node.kind ≠ .regular blob)
      (absent : fs.nodeAt physical = none) (buried : physical ∈ fs.tombstones) :
      Effect fs op true (fs.put physical node)
  /-- A node in a new slot. -/
  | added (physical : Path) (node : Node) (budget : ConnectionBudget)
      (target : fs.target op = .ok physical) (writes : op.writes node)
      (vacant : (∃ blob, node.kind = .regular blob) ∨ fs.nodeAt physical = none)
      (fresh : fs.holdsSlot physical = false)
      (swaps : fs.Swaps 0 (min (op.ownBytes + (text physical).length) u64Max) budget)
      (room : fs.budget.overlayNodes < fs.budget.limits.overlayNodes)
      (slots : budget.overlayNodes = min (fs.budget.overlayNodes + 1) u64Max) :
      Effect fs op true (FakeFs.put { fs with budget := budget } physical node)
  | removed (path : Bytes) (physical : Path) (remove : op = .removePath path)
      (target : fs.resolve path false = .ok physical) :
      Effect fs op true (fs.removeAt physical)

namespace FakeFs

variable {fs : FakeFs} {physical : Path}

theorem holdsSlot_eq_false : fs.holdsSlot physical = false ↔
    fs.nodes.lookup physical = none ∧ physical ∉ fs.tombstones := by
  simp [holdsSlot]

theorem overlayOwnedBytes_of_fresh (fresh : fs.holdsSlot physical = false) :
    fs.overlayOwnedBytes physical = 0 := by
  simp [overlayOwnedBytes, (holdsSlot_eq_false.mp fresh).1]

theorem resolveForWrite_ok {path : Bytes} {followFinal : Bool}
    (resolved : fs.resolveForWrite path followFinal = .ok physical) :
    fs.resolve path followFinal = .ok physical := by
  rw [resolveForWrite] at resolved
  split at resolved
  · split at resolved <;> cases resolved
  · exact resolved

theorem effect_refl (op : FsOp) (succeeded : Bool) : Effect fs op succeeded fs :=
  .unchanged succeeded fs.budget ⟨rfl, rfl, rfl⟩

/-- Charging the bytes and failing to take the slot leaves the counters as they were. -/
theorem sameCounters_of_undone {charged : ℕ} {budget refused : ConnectionBudget}
    {error : BudgetError} (fits : fs.budget.replaceBytes 0 charged = (.ok (), budget))
    (full : budget.chargeNode = (.error error, refused)) :
    fs.budget.SameCounters (refused.replaceBytes charged 0).2 ∧
      fs.budget.SameCounters (refused.refundBytes charged) := by
  obtain ⟨rfl, small, within⟩ := ConnectionBudget.replaceBytes_ok fits
  rw [ConnectionBudget.chargeNode_error full]
  have bound : fs.budget.ownedBytes + charged ≤ u64Max := by
    rw [ConnectionBudget.replaceBytes, if_neg (Nat.not_lt.mpr small)] at fits
    split at fits
    case isTrue both => simpa using both.1
    case isFalse => cases fits
  constructor
  · rw [ConnectionBudget.replaceBytes, if_neg (Nat.not_lt_zero _), if_pos]
    · refine ⟨?_, rfl, rfl⟩
      simp [ConnectionBudget.refuse]
    · simp only [ConnectionBudget.refuse]
      omega
  · refine ⟨?_, rfl, rfl⟩
    simp [ConnectionBudget.refundBytes, ConnectionBudget.refuse]

theorem storeBlob_effect {op : FsOp} {blob : Blob} {mode : UInt32} {now : ℤ}
    (target : fs.target op = .ok physical) (writes : ∀ node, node.kind = .regular blob →
      op.writes node) (bytes : op.ownBytes = blob.ownedBytes) :
    Effect fs op (fs.storeBlob physical blob mode now).1.isOk
      (fs.storeBlob physical blob mode now).2 := by
  rw [storeBlob]
  split
  case h_1 error budget refused =>
    exact .unchanged _ _ (ConnectionBudget.replaceBytes_error refused)
  case h_2 budget fits =>
    obtain ⟨changed, small, within⟩ := ConnectionBudget.replaceBytes_ok fits
    cases held : fs.holdsSlot physical with
    | true =>
        simp only [held] at changed small within
        refine .rewritten physical _ budget target (writes _ rfl) ⟨blob, rfl⟩ held ?_ ?_
        · rw [changed, bytes]
          exact ⟨rfl, rfl, within, small⟩
        · rw [changed]
    | false =>
        simp only [held, Bool.false_eq_true, if_false, overlayOwnedBytes_of_fresh held]
          at fits changed small within ⊢
        split
        case h_1 error refused full =>
          exact .unchanged _ _ (sameCounters_of_undone fits full).1
        case h_2 taken room =>
          obtain ⟨less, rfl⟩ := ConnectionBudget.chargeNode_ok room
          subst changed
          refine .added physical _ _ target (writes _ rfl) (.inl ⟨blob, rfl⟩) held ?_ less rfl
          rw [bytes]
          exact ⟨rfl, rfl, within, small⟩

theorem writeBlob_effect (path : Bytes) (blob : Blob) (mode : UInt32) (now : ℤ) :
    Effect fs (.writeBlob path blob mode now) (fs.writeBlob path blob mode now).1.isOk
      (fs.writeBlob path blob mode now).2 := by
  rw [writeBlob]
  split
  · exact effect_refl _ _
  · split
    · exact effect_refl _ _
    case h_2 physical resolved =>
      have target : fs.target (.writeBlob path blob mode now) = .ok physical :=
        resolveForWrite_ok resolved
      split
      · exact effect_refl _ _
      · split
        · exact storeBlob_effect target (fun _ same => same) rfl
        · split
          · exact effect_refl _ _
          · exact effect_refl _ _
          · exact storeBlob_effect target (fun _ same => same) rfl
          · exact storeBlob_effect target (fun _ same => same) rfl

theorem create_effect {op : FsOp} {path : Bytes} {followFinal : Bool} {extra : ℕ} {node : Node}
    (target : fs.target op = fs.resolve path followFinal) (writes : op.writes node)
    (bare : ∀ blob, node.kind ≠ .regular blob) (bytes : op.ownBytes = extra) :
    Effect fs op (fs.create path followFinal extra node).1.isOk
      (fs.create path followFinal extra node).2 := by
  rw [create]
  split
  · exact effect_refl _ _
  · split
    · exact effect_refl _ _
    case h_2 physical resolved =>
      rw [resolveForWrite_ok resolved] at target
      split
      · exact effect_refl _ _
      · split
        · exact effect_refl _ _
        case isFalse absent =>
          have none_ : fs.nodeAt physical = none := by simpa using absent
          split
          case isTrue buried => exact .revived physical node target writes bare none_ buried
          case isFalse unburied =>
            have fresh : fs.holdsSlot physical = false := by
              refine holdsSlot_eq_false.mpr ⟨?_, unburied⟩
              simp only [nodeAt, if_neg unburied, Option.or_eq_none_iff] at none_
              exact none_.1
            dsimp only
            split
            case h_1 error budget refused =>
              exact .unchanged _ _ (ConnectionBudget.replaceBytes_error refused)
            case h_2 budget fits =>
              split
              case h_1 error refused full =>
                exact .unchanged _ _ (sameCounters_of_undone fits full).2
              case h_2 taken room =>
                obtain ⟨changed, small, within⟩ := ConnectionBudget.replaceBytes_ok fits
                obtain ⟨less, rfl⟩ := ConnectionBudget.chargeNode_ok room
                subst changed
                refine .added physical node _ target writes (.inr none_) fresh ?_ less rfl
                rw [bytes, Nat.add_comm extra]
                exact ⟨rfl, rfl, within, small⟩

theorem removePath_effect (path : Bytes) :
    Effect fs (.removePath path) (fs.removePath path).1.isOk (fs.removePath path).2 := by
  rw [removePath]
  split
  · split <;> exact effect_refl _ _
  · exact effect_refl _ _
  case h_3 physical resolved =>
    split
    · exact effect_refl _ _
    · exact .removed path physical rfl resolved

theorem apply_effect (fs : FakeFs) (op : FsOp) : Effect fs op (fs.succeeds op) (fs.apply op) := by
  cases op with
  | writeBlob path blob mode now => exact writeBlob_effect path blob mode now
  | makeDir path now => exact create_effect rfl rfl (fun _ => NodeKind.noConfusion) rfl
  | createSymlink => exact create_effect rfl rfl (fun _ => NodeKind.noConfusion) rfl
  | removePath path =>
      have effect := @removePath_effect fs path
      have same : fs.succeeds (.removePath path) = (fs.removePath path).1.isOk := by
        rw [succeeds, run]
        cases (fs.removePath path).1 <;> rfl
      rw [same]
      exact effect

end FakeFs

end Propolis.Filesystem
