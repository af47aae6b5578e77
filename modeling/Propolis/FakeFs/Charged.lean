import Propolis.FakeFs.Coherent
import Mathlib.Algebra.Order.BigOperators.Group.Finset

/-!
# The budget covers what the session holds

Every entry of the overlay has a weight: its content, and its path where the snapshot does not have
it.  Removing a file refunds its content; the path, and the target of a link, stay charged to the
slot.  The bytes charged are never fewer than the weights, because a slot that is taken again was
charged when it was first taken.  It may have been charged too little: `create_symlink` charges the
text of its target only with a new slot, and the tombstone of a generated file takes a slot without
its path.
-/

namespace Propolis.Filesystem

open Bytes Paths

variable {budget : ConnectionBudget} {fs : FakeFs} {physical : Path} {node : Node} {op : FsOp}
  {kept : Path → ℕ}

section Weights

/-- The bytes a node holds: a file's content, a link's target. -/
def contentBytes (node : Node) : ℕ :=
  match node.kind with
  | .regular blob => blob.ownedBytes
  | .symlink target => target.length
  | _ => 0

def Snapshot.has (snapshot : Snapshot) (path : Path) : Bool :=
  (snapshot.nodes.lookup path).isSome

/-- The text of a path the snapshot does not have. -/
def Snapshot.pathBytes (snapshot : Snapshot) (path : Path) : ℕ :=
  if snapshot.has path then 0 else (text path).length

def Snapshot.weight (snapshot : Snapshot) (entry : Path × Node) : ℕ :=
  contentBytes entry.2 + snapshot.pathBytes entry.1

/-- The bytes resident for what the session created. -/
def FakeFs.resident (fs : FakeFs) : ℕ :=
  (fs.nodes.map fs.snapshot.weight).sum

/-- The bytes that come back when the nodes are removed. -/
def FakeFs.refundable (fs : FakeFs) : ℕ :=
  (fs.nodes.map fun entry => nodeOwnedBytes entry.2).sum

/-- The paths with an overlay node or a tombstone. -/
def FakeFs.slots (fs : FakeFs) : Finset Path :=
  (fs.nodes.map Prod.fst).toFinset ∪ fs.tombstones

theorem nodeOwnedBytes_le (node : Node) : nodeOwnedBytes node ≤ contentBytes node := by
  rw [nodeOwnedBytes, contentBytes]
  cases node.kind <;> simp

/-- The text of a link's target, which no removal refunds. -/
def FsOp.linkBytes : FsOp → ℕ
  | .createSymlink _ target _ => target.length
  | _ => 0

theorem contentBytes_of_writes (writes : op.writes node) :
    contentBytes node = op.ownBytes ∧ op.ownBytes = nodeOwnedBytes node + op.linkBytes := by
  cases op <;> simp only [FsOp.writes] at writes <;>
    simp [contentBytes, nodeOwnedBytes, writes, FsOp.ownBytes, FsOp.linkBytes]

theorem pathBytes_le (snapshot : Snapshot) (path : Path) :
    snapshot.pathBytes path ≤ (text path).length := by
  rw [Snapshot.pathBytes]
  split
  · exact Nat.zero_le _
  · exact Nat.le_refl _

end Weights

/-- What the counters say of the tables, where `kept` is what each slot stays charged with when its
node is removed. -/
structure Charged (kept : Path → ℕ) (fs : FakeFs) : Prop where
  small : fs.budget.limits.ownedBytes < u64Max
  room : fs.budget.limits.overlayNodes + fs.snapshot.nodes.length ≤ u64Max
  unique : Keyed.Unique fs.nodes
  apart : ∀ path ∈ fs.tombstones, fs.nodes.lookup path = none
  /-- What removing a node does not refund was charged with its slot. -/
  paid : ∀ entry ∈ fs.nodes, fs.snapshot.weight entry ≤ nodeOwnedBytes entry.2 + kept entry.1
  covers : fs.refundable + ∑ path ∈ fs.slots, kept path ≤ fs.budget.ownedBytes
  held : fs.slots.card ≤ fs.budget.overlayNodes
  /-- Slots at paths the snapshot does not have were all taken within the limit. -/
  outside : (fs.slots.filter fun path => fs.snapshot.has path = false).card ≤
    fs.budget.limits.overlayNodes

section Slots

theorem mem_slots {path : Path} : path ∈ fs.slots ↔
    (fs.nodes.lookup path).isSome = true ∨ path ∈ fs.tombstones := by
  rw [FakeFs.slots, Finset.mem_union, List.mem_toFinset, Keyed.lookup_isSome, List.mem_map]

theorem holdsSlot_iff : fs.holdsSlot physical = true ↔ physical ∈ fs.slots := by
  rw [FakeFs.holdsSlot, decide_eq_true_iff, mem_slots]

theorem mem_slots_of_mem {entry : Path × Node} (member : entry ∈ fs.nodes) : entry.1 ∈ fs.slots :=
  mem_slots.mpr (.inl (Keyed.lookup_isSome.mpr ⟨entry, member, rfl⟩))

theorem Charged.resident_le (charged : Charged kept fs) : fs.resident ≤ fs.budget.ownedBytes := by
  calc
    fs.resident ≤ (fs.nodes.map fun entry => nodeOwnedBytes entry.2 + kept entry.1).sum :=
      List.sum_le_sum charged.paid
    _ = fs.refundable + ∑ path ∈ (fs.nodes.map Prod.fst).toFinset, kept path := by
      rw [List.sum_map_add, List.sum_toFinset kept charged.unique, List.map_map]
      rfl
    _ ≤ fs.refundable + ∑ path ∈ fs.slots, kept path :=
      Nat.add_le_add_left (Finset.sum_le_sum_of_subset Finset.subset_union_left) _
    _ ≤ fs.budget.ownedBytes := charged.covers

theorem Charged.slots_card (charged : Charged kept fs) :
    fs.slots.card = fs.nodes.length + fs.tombstones.card := by
  rw [FakeFs.slots, Finset.card_union_of_disjoint, List.toFinset_card_of_nodup charged.unique,
    List.length_map]
  rw [Finset.disjoint_right]
  intro path buried written
  have absent := Keyed.lookup_eq_none.mp (charged.apart path buried)
  obtain ⟨entry, member, same⟩ := List.mem_map.mp (List.mem_toFinset.mp written)
  exact absent entry member same

theorem slots_put (node : Node) : (fs.put physical node).slots = insert physical fs.slots := by
  ext path
  rw [Finset.mem_insert, mem_slots, mem_slots]
  by_cases same : path = physical <;> simp [same]

/-- Slots of which few are outside the snapshot are few. -/
theorem card_le_of_outside {snapshot : Snapshot} {slots : Finset Path} {limit : ℕ}
    (outside : (slots.filter fun path => snapshot.has path = false).card ≤ limit) :
    slots.card ≤ limit + snapshot.nodes.length := by
  have inside : (slots.filter fun path => ¬snapshot.has path = false).card ≤
      snapshot.nodes.length := by
    rw [← List.length_map Prod.fst]
    apply le_trans (Finset.card_le_card _) (List.toFinset_card_le _)
    intro path member
    have has : snapshot.has path = true := by simpa using (Finset.mem_filter.mp member).2
    obtain ⟨entry, there, same⟩ := Keyed.lookup_isSome.mp has
    exact List.mem_toFinset.mpr (List.mem_map.mpr ⟨entry, there, same⟩)
  have parts := Finset.card_filter_add_card_filter_not (s := slots)
    fun path => snapshot.has path = false
  omega

end Slots

section Putting

variable (charged : Charged kept fs)
include charged

theorem refundable_dropNode :
    fs.refundable = fs.overlayOwnedBytes physical + (fs.dropNode physical).refundable := by
  rw [FakeFs.overlayOwnedBytes]
  cases written : fs.nodes.lookup physical with
  | none =>
      rw [FakeFs.refundable, FakeFs.refundable, FakeFs.dropNode,
        Keyed.erase_of_absent (Keyed.lookup_eq_none.mp written)]
      simp
  | some old => exact Keyed.sum_erase charged.unique written _

theorem Charged.put (limits : budget.limits = fs.budget.limits)
    (paid : contentBytes node + fs.snapshot.pathBytes physical ≤
      nodeOwnedBytes node + kept physical)
    (covers : (fs.dropNode physical).refundable + nodeOwnedBytes node +
      ∑ path ∈ insert physical fs.slots, kept path ≤ budget.ownedBytes)
    (held : (insert physical fs.slots).card ≤ budget.overlayNodes)
    (outside : ((insert physical fs.slots).filter fun path => fs.snapshot.has path = false).card ≤
      fs.budget.limits.overlayNodes) :
    Charged kept (FakeFs.put { fs with budget := budget } physical node) := by
  refine ⟨limits ▸ charged.small, limits ▸ charged.room, charged.unique.insert physical node, ?_,
    ?_, ?_, ?_, ?_⟩
  · intro path buried
    obtain ⟨other, before⟩ := mem_tombstones_put.mp buried
    rw [lookup_put, if_neg other]
    exact charged.apart path before
  · intro entry member
    rcases List.mem_append.mp member with before | new
    · exact charged.paid entry (List.mem_of_mem_filter before)
    · rw [List.mem_singleton.mp new]
      exact paid
  · rw [slots_put, FakeFs.refundable, FakeFs.put, Keyed.sum_insert]
    exact covers
  · rw [slots_put]
    exact held
  · rw [slots_put]
    exact limits ▸ outside

/-- A node in a slot that is held takes no other one. -/
theorem Charged.put_held (limits : budget.limits = fs.budget.limits) (there : physical ∈ fs.slots)
    (slots : budget.overlayNodes = fs.budget.overlayNodes)
    (paid : contentBytes node + fs.snapshot.pathBytes physical ≤
      nodeOwnedBytes node + kept physical)
    (owned : fs.budget.ownedBytes + nodeOwnedBytes node ≤
      budget.ownedBytes + fs.overlayOwnedBytes physical) :
    Charged kept (FakeFs.put { fs with budget := budget } physical node) := by
  apply charged.put limits paid <;> rw [Finset.insert_eq_of_mem there]
  · have covers := charged.covers
    have erased := @refundable_dropNode fs physical kept charged
    omega
  · rw [slots]
    exact charged.held
  · exact charged.outside

end Putting

section Removing

theorem refunded (table : List (Path × Node)) (budget : ConnectionBudget) :
    table.foldl (fun budget entry => budget.refundBytes (nodeOwnedBytes entry.2)) budget =
      { budget with
        ownedBytes :=
          budget.ownedBytes - (table.map fun entry => nodeOwnedBytes entry.2).sum } := by
  induction table generalizing budget with
  | nil => simp
  | cons entry rest ih =>
      rw [List.foldl_cons, ih]
      simp [ConnectionBudget.refundBytes, Nat.sub_sub]

/-- Nodes may be gone; the tombstones are the same. -/
theorem slots_subset {next : FakeFs} (nodes : next.nodes.Sublist fs.nodes)
    (tombstones : next.tombstones = fs.tombstones) : next.slots ⊆ fs.slots := by
  apply Finset.union_subset_union _ tombstones.subset
  exact fun path member =>
    List.mem_toFinset.mpr ((nodes.map _).subset (List.mem_toFinset.mp member))

variable (charged : Charged kept fs)
include charged

/-- Some nodes are gone, and no more than their bytes came back. -/
theorem Charged.drop {next : FakeFs} (nodes : next.nodes.Sublist fs.nodes)
    (tombstones : next.tombstones = fs.tombstones) (snapshot : next.snapshot = fs.snapshot)
    (limits : next.budget.limits = fs.budget.limits)
    (counted : next.budget.overlayNodes = fs.budget.overlayNodes)
    (owned : fs.budget.ownedBytes + next.refundable ≤ next.budget.ownedBytes + fs.refundable) :
    Charged kept next := by
  have slots := slots_subset nodes tombstones
  refine ⟨?_, ?_, charged.unique.sublist (nodes.map _), ?_, ?_, ?_, ?_, ?_⟩
  · rw [limits]
    exact charged.small
  · rw [limits, snapshot]
    exact charged.room
  · intro path buried
    rw [tombstones] at buried
    have absent := Keyed.lookup_eq_none.mp (charged.apart path buried)
    exact Keyed.lookup_eq_none.mpr fun entry member => absent entry (nodes.subset member)
  · intro entry member
    rw [snapshot]
    exact charged.paid entry (nodes.subset member)
  · have fewer := Finset.sum_le_sum_of_subset (f := kept) slots
    have covers := charged.covers
    omega
  · rw [counted]
    exact (Finset.card_le_card slots).trans charged.held
  · rw [limits, snapshot]
    exact (Finset.card_le_card (Finset.filter_subset_filter _ slots)).trans charged.outside

theorem Charged.dropBelow : Charged kept (fs.dropBelow physical) := by
  have budget : (fs.dropBelow physical).budget = { fs.budget with
      ownedBytes := fs.budget.ownedBytes - ((fs.nodes.filter fun entry =>
        Paths.below physical entry.1).map fun entry => nodeOwnedBytes entry.2).sum } :=
    refunded _ _
  -- the entries below and the others are all of them
  have parts : fs.refundable = ((fs.nodes.filter fun entry =>
      Paths.below physical entry.1).map fun entry => nodeOwnedBytes entry.2).sum +
        (fs.dropBelow physical).refundable := by
    have perm := (List.filter_append_perm (fun entry : Path × Node =>
      Paths.below physical entry.1) fs.nodes).map fun entry => nodeOwnedBytes entry.2
    rw [FakeFs.refundable, ← perm.sum_eq, List.map_append, List.sum_append]
    rfl
  refine charged.drop List.filter_sublist rfl rfl ?_ ?_ ?_ <;> rw [budget]
  dsimp only
  omega

theorem Charged.dropNode : Charged kept (fs.dropNode physical) := by
  have owned : (fs.dropNode physical).budget.ownedBytes =
      fs.budget.ownedBytes - fs.overlayOwnedBytes physical := rfl
  have erased := @refundable_dropNode fs physical kept charged
  exact charged.drop List.filter_sublist rfl rfl rfl rfl (by omega)

theorem Charged.bury (unpaid : physical ∉ fs.slots → kept physical = 0)
    (known : ((fs.nodes.lookup physical).isSome = true ∨ fs.snapshot.has physical = true) ∨
      fs.budget.overlayNodes < fs.budget.limits.overlayNodes) :
    Charged kept ((fs.dropNode physical).bury physical (fs.nodes.lookup physical).isSome) := by
  have dropped := @Charged.dropNode fs physical kept charged
  have there : (fs.nodes.lookup physical).isSome = true → physical ∈ fs.slots :=
    fun written => mem_slots.mpr (.inl written)
  generalize (fs.nodes.lookup physical).isSome = written at there known
  have slots : ((fs.dropNode physical).bury physical written).slots ⊆ insert physical fs.slots := by
    rw [FakeFs.slots, FakeFs.bury, Finset.union_insert]
    exact Finset.insert_subset_insert _ (slots_subset List.filter_sublist rfl)
  have more := (Finset.card_le_card slots).trans
    ((Finset.card_insert_le _ _).trans (Nat.add_le_add_right charged.held 1))
  -- the slot is there already, or the snapshot has the path, or there is room for one more
  have outside : (((fs.dropNode physical).bury physical written).slots.filter fun path =>
      fs.snapshot.has path = false).card ≤ fs.budget.limits.overlayNodes := by
    rcases known with known | room
    · apply le_trans (Finset.card_le_card _) charged.outside
      intro path member
      obtain ⟨inside, lacks⟩ := Finset.mem_filter.mp member
      refine Finset.mem_filter.mpr ⟨?_, lacks⟩
      rcases Finset.mem_insert.mp (slots inside) with rfl | before
      · rcases known with written | has
        · exact there written
        · simp [has] at lacks
      · exact before
    · exact (Finset.card_filter_le _ _).trans (more.trans room)
  have limits : ((fs.dropNode physical).bury physical written).budget.limits =
      fs.budget.limits := by
    cases written <;> rfl
  have owned : ((fs.dropNode physical).bury physical written).budget.ownedBytes =
      (fs.dropNode physical).budget.ownedBytes := by
    cases written <;> rfl
  refine ⟨?_, ?_, dropped.unique, ?_, dropped.paid, ?_, ?_, ?_⟩
  · rw [limits]
    exact charged.small
  · rw [limits]
    exact charged.room
  · intro path buried
    change (Keyed.erase physical fs.nodes).lookup path = none
    rw [Keyed.lookup_erase]
    split
    · rfl
    case isFalse other =>
      exact charged.apart path (Finset.mem_of_mem_insert_of_ne buried other)
  · have fewer := Finset.sum_le_sum_of_subset (f := kept) slots
    have refund : (fs.dropNode physical).budget.ownedBytes =
        fs.budget.ownedBytes - fs.overlayOwnedBytes physical := rfl
    have same : ((fs.dropNode physical).bury physical written).refundable =
        (fs.dropNode physical).refundable := rfl
    have erased := @refundable_dropNode fs physical kept charged
    have covers := charged.covers
    rw [Finset.sum_insert_of_eq_zero_if_notMem unpaid] at fewer
    omega
  · cases written with
    | true =>
        rw [Finset.insert_eq_of_mem (there rfl)] at slots
        exact (Finset.card_le_card slots).trans charged.held
    | false => exact le_min more ((card_le_of_outside outside).trans charged.room)
  · rw [limits]
    exact outside

theorem Charged.removeAt (unpaid : physical ∉ fs.slots → kept physical = 0)
    (known : (fs.nodeAt physical).isSome = true →
      ((fs.nodes.lookup physical).isSome = true ∨ fs.snapshot.has physical = true) ∨
        fs.budget.overlayNodes < fs.budget.limits.overlayNodes) :
    Charged kept (fs.removeAt physical) := by
  obtain ⟨cleared, clearing, same, removes⟩ := removeAt_cleared fs physical
  have rest : Charged kept cleared ∧ cleared.tombstones = fs.tombstones ∧
      cleared.snapshot = fs.snapshot ∧ cleared.budget.overlayNodes = fs.budget.overlayNodes ∧
      cleared.budget.limits = fs.budget.limits := by
    rcases clearing with rfl | rfl
    · exact ⟨charged, rfl, rfl, rfl, rfl⟩
    · refine ⟨charged.dropBelow, rfl, rfl, ?_, ?_⟩ <;> rw [FakeFs.dropBelow, refunded]
  obtain ⟨charged, tombstones, snapshot, counted, limits⟩ := rest
  rw [removes]
  split
  case isTrue live =>
    apply charged.bury
    · rw [mem_slots, same, tombstones, ← mem_slots]
      exact unpaid
    · rw [same, snapshot, counted, limits]
      exact known live
  case isFalse => exact charged.dropNode

end Removing

section Steps

/-- What the slots stay charged with after an operation.  One that it takes is charged with the path
and the link's target; that of a tombstone where the session had written nothing, with neither. -/
def FakeFs.keeps (fs : FakeFs) (kept : Path → ℕ) (op : FsOp) (path : Path) : ℕ :=
  if fs.holdsSlot path then kept path
  else
    match op with
    | .removePath _ => 0
    | _ => op.linkBytes + (text path).length

/-- The filesystem, and what its slots stay charged with. -/
structure Account where
  fs : FakeFs
  kept : Path → ℕ

def Account.apply (account : Account) (op : FsOp) : Account :=
  ⟨account.fs.apply op, account.fs.keeps account.kept op⟩

/-- Where a tombstone was, the path and the link's target are charged to the slot; and what is
removed was written, is in the snapshot or finds a free slot. -/
def Account.chargesFully (account : Account) (op : FsOp) : Bool :=
  let { fs, kept } := account
  match op, fs.target op with
  | _, .error _ => true
  | .removePath _, .ok physical => (fs.nodeAt physical).isNone ||
      (fs.nodes.lookup physical).isSome || fs.snapshot.has physical ||
        fs.budget.overlayNodes < fs.budget.limits.overlayNodes
  | op, .ok physical => physical ∉ fs.tombstones ||
      op.linkBytes + fs.snapshot.pathBytes physical ≤ kept physical

theorem keeps_of_mem (there : physical ∈ fs.slots) : fs.keeps kept op physical = kept physical :=
  if_pos (holdsSlot_iff.mpr there)

theorem Charged.keeps (charged : Charged kept fs) (op : FsOp) :
    Charged (fs.keeps kept op) fs := by
  refine { charged with paid := ?_, covers := ?_ }
  · intro entry member
    rw [keeps_of_mem (mem_slots_of_mem member)]
    exact charged.paid entry member
  · rw [Finset.sum_congr rfl fun path member => keeps_of_mem member]
    exact charged.covers

theorem Charged.charge (charged : Charged kept fs)
    (counters : fs.budget.SameCounters budget) : Charged kept { fs with budget := budget } := by
  obtain ⟨owned, nodes, limits⟩ := counters
  refine charged.drop (List.Sublist.refl _) rfl rfl limits nodes ?_
  rw [owned]
  rfl

/-- Content that was charged within a limit below the largest counter was charged in full. -/
theorem charged_in_full {bytes limit : ℕ} (small : limit < u64Max)
    (within : min bytes u64Max ≤ limit) : min bytes u64Max = bytes := by
  omega

section

variable (full : Account.chargesFully ⟨fs, kept⟩ op = true)
include full

theorem paid_of_buried (target : fs.target op = .ok physical) (writes : op.writes node)
    (buried : physical ∈ fs.tombstones) :
    op.linkBytes + fs.snapshot.pathBytes physical ≤ kept physical := by
  cases op with
  | removePath path => cases writes
  | writeBlob | makeDir | createSymlink =>
      simpa [Account.chargesFully, target, buried] using full

theorem known_of_live {path : Bytes} (remove : op = .removePath path)
    (target : fs.resolve path false = .ok physical) (live : (fs.nodeAt physical).isSome = true) :
    ((fs.nodes.lookup physical).isSome = true ∨ fs.snapshot.has physical = true) ∨
      fs.budget.overlayNodes < fs.budget.limits.overlayNodes := by
  subst remove
  simpa [Account.chargesFully, show fs.target (.removePath path) = .ok physical from target,
    Option.isNone_eq_false_iff.mpr live] using full

theorem Charged.apply (charged : Charged kept fs) :
    Charged (fs.keeps kept op) (fs.apply op) := by
  have effect := fs.apply_effect op
  have after := charged.keeps op
  generalize fs.succeeds op = succeeded at effect
  generalize fs.apply op = next at effect
  cases effect with
  | unchanged _ budget counters => exact after.charge counters
  | rewritten physical node budget target writes file held swaps slots =>
      obtain ⟨limits, owned, within, fits⟩ := swaps
      obtain ⟨content, own⟩ := contentBytes_of_writes writes
      obtain ⟨blob, kind⟩ := file
      have whole : nodeOwnedBytes node = contentBytes node := by
        rw [nodeOwnedBytes, contentBytes, kind]
      rw [charged_in_full charged.small fits] at owned
      have there := holdsSlot_iff.mp held
      refine after.put_held limits there slots ?_ (by omega)
      rw [keeps_of_mem there]
      cases written : fs.nodes.lookup physical with
      | some old =>
          have before : contentBytes old + fs.snapshot.pathBytes physical ≤
              nodeOwnedBytes old + kept physical := charged.paid _ (Keyed.mem_of_lookup written)
          have less := nodeOwnedBytes_le old
          omega
      | none =>
          have paid := paid_of_buried full target writes (by simpa [mem_slots, written] using there)
          omega
  | revived physical node target writes bare absent buried =>
      have there : physical ∈ fs.slots := mem_slots.mpr (.inr buried)
      obtain ⟨content, own⟩ := contentBytes_of_writes writes
      have paid := paid_of_buried full target writes buried
      apply after.put_held rfl there rfl
      · rw [keeps_of_mem there]
        omega
      · have nothing : nodeOwnedBytes node = 0 := by
          rw [nodeOwnedBytes]
          split
          case h_1 blob kind => exact absurd kind (bare blob)
          case h_2 => rfl
        omega
  | added physical node budget target writes vacant fresh swaps room slots =>
      obtain ⟨limits, owned, within, fits⟩ := swaps
      obtain ⟨content, own⟩ := contentBytes_of_writes writes
      rw [charged_in_full charged.small fits] at owned
      have taken : fs.keeps kept op physical = op.linkBytes + (text physical).length := by
        cases op with
        | removePath path => cases writes
        | writeBlob | makeDir | createSymlink => simp [FakeFs.keeps, fresh]
      have new : physical ∉ fs.slots := by
        rw [← holdsSlot_iff, fresh]
        exact Bool.false_ne_true
      have more : (insert physical fs.slots).card ≤ fs.budget.overlayNodes + 1 :=
        (Finset.card_insert_le _ _).trans (Nat.add_le_add_right charged.held 1)
      have bound := charged.room
      apply after.put limits
      · have path := pathBytes_le fs.snapshot physical
        omega
      · have erased := @refundable_dropNode fs physical _ charged
        have covers := after.covers
        rw [FakeFs.overlayOwnedBytes_of_fresh fresh] at erased
        rw [Finset.sum_insert new, taken]
        omega
      · omega
      · exact (Finset.card_filter_le _ _).trans (more.trans room)
  | removed path physical remove target =>
      apply after.removeAt _ (known_of_live full remove target)
      intro new
      rw [← holdsSlot_iff] at new
      simp [FakeFs.keeps, new, remove]

end

end Steps

section Counting

/-- The operation left the tombstone of a path of the snapshot that the session had not written. -/
def FakeFs.buries (fs : FakeFs) (op : FsOp) : Bool :=
  match op, fs.target op with
  | .removePath _, .ok physical => fs.snapshot.has physical && (fs.nodes.lookup physical).isNone &&
      physical ∉ fs.tombstones && physical ∈ (fs.apply op).tombstones
  | _, _ => false

/-- How many operations of a run did. -/
def FakeFs.burials : FakeFs → List FsOp → ℕ
  | _, [] => 0
  | fs, op :: later => (fs.buries op).toNat + FakeFs.burials (fs.apply op) later

theorem overlayNodes_removeAt (physical : Path) : (fs.removeAt physical).budget.overlayNodes =
    if (fs.nodeAt physical).isSome = true ∧ (fs.nodes.lookup physical).isNone = true then
      min (fs.budget.overlayNodes + 1) u64Max
    else fs.budget.overlayNodes := by
  obtain ⟨cleared, clearing, same, removes⟩ := removeAt_cleared fs physical
  have count : cleared.budget.overlayNodes = fs.budget.overlayNodes := by
    rcases clearing with rfl | rfl
    · rfl
    · rw [FakeFs.dropBelow, refunded]
  rw [removes, ← same, ← count]
  by_cases live : (fs.nodeAt physical).isSome = true
  · cases written : cleared.nodes.lookup physical with
    | some node => simp [live, FakeFs.bury, FakeFs.dropNode, ConnectionBudget.refundBytes]
    | none =>
        simp [live, FakeFs.bury, FakeFs.dropNode, ConnectionBudget.refundBytes,
          ConnectionBudget.chargeNodeUnchecked]
  · simp [live, FakeFs.dropNode, ConnectionBudget.refundBytes]

/-- A slot over the limit is that of a tombstone of a path of the snapshot. -/
theorem overlayNodes_apply (full : Account.chargesFully ⟨fs, kept⟩ op = true) {over_ : ℕ}
    (within : fs.budget.overlayNodes ≤ fs.budget.limits.overlayNodes + over_) :
    (fs.apply op).budget.overlayNodes ≤
      fs.budget.limits.overlayNodes + (over_ + (fs.buries op).toNat) := by
  have effect := fs.apply_effect op
  generalize fs.succeeds op = succeeded at effect
  generalize applied : fs.apply op = after at effect
  cases effect with
  | unchanged _ budget counters =>
      rw [counters.2.1]
      omega
  | revived =>
      change fs.budget.overlayNodes ≤ _
      omega
  | rewritten _ _ budget | added _ _ budget =>
      change budget.overlayNodes ≤ _
      omega
  | removed path physical remove target =>
      rw [overlayNodes_removeAt]
      split
      case isTrue taken =>
        obtain ⟨live, unwritten⟩ := taken
        rcases known_of_live full remove target live with (written | has) | room
        · simp [Option.isNone_iff_eq_none.mp unwritten] at written
        · subst remove
          have buried : fs.buries (.removePath path) = true := by
            have tombstone : physical ∈ (fs.removeAt physical).tombstones := by
              rw [tombstones_removeAt, if_pos live]
              exact Finset.mem_insert_self _ _
            simp [FakeFs.buries, show fs.target (.removePath path) = .ok physical from target, has,
              unwritten, (nodeAt_isSome.mp live).1, applied, tombstone]
          rw [buried]
          simp only [Bool.toNat_true]
          omega
        · omega
      case isFalse => omega

/-- The limits stay, and the bytes charged stay within them. -/
theorem within_apply (within : fs.budget.ownedBytes ≤ fs.budget.limits.ownedBytes) (op : FsOp) :
    (fs.apply op).budget.limits = fs.budget.limits ∧
      (fs.apply op).budget.ownedBytes ≤ fs.budget.limits.ownedBytes := by
  have effect := fs.apply_effect op
  generalize fs.succeeds op = succeeded at effect
  generalize fs.apply op = after at effect
  cases effect with
  | unchanged _ budget counters => exact ⟨counters.2.2, counters.1 ▸ within⟩
  | revived => exact ⟨rfl, within⟩
  | rewritten _ _ _ _ _ _ _ swaps | added _ _ _ _ _ _ _ swaps => exact ⟨swaps.1, swaps.2.2.1⟩
  | removed path physical =>
      obtain ⟨cleared, clearing, -, removes⟩ := removeAt_cleared fs physical
      have kept : cleared.budget.limits = fs.budget.limits ∧
          cleared.budget.ownedBytes ≤ fs.budget.limits.ownedBytes := by
        rcases clearing with rfl | rfl
        · exact ⟨rfl, within⟩
        · rw [FakeFs.dropBelow, refunded]
          exact ⟨rfl, (Nat.sub_le _ _).trans within⟩
      have fewer := (Nat.sub_le _ (cleared.overlayOwnedBytes physical)).trans kept.2
      rw [removes]
      split
      · cases (cleared.nodes.lookup physical).isSome <;> exact ⟨kept.1, fewer⟩
      · exact ⟨kept.1, fewer⟩

/-- A refused operation changes neither the tree nor the counters. -/
theorem refused_unchanged (refused : fs.succeeds op = false) :
    (fs.apply op).snapshot = fs.snapshot ∧ (fs.apply op).generated = fs.generated ∧
      (fs.apply op).nodes = fs.nodes ∧ (fs.apply op).tombstones = fs.tombstones ∧
      (fs.apply op).attrs = fs.attrs ∧ fs.budget.SameCounters (fs.apply op).budget := by
  have effect := fs.apply_effect op
  rw [refused] at effect
  generalize fs.apply op = after at effect
  cases effect with
  | unchanged _ budget counters => exact ⟨rfl, rfl, rfl, rfl, rfl, counters⟩

end Counting

section Results

theorem charged_fromSnapshot {snapshot : Snapshot} {generated : List (Path × Node)}
    {limits : BudgetLimits} (small : limits.ownedBytes < u64Max)
    (room : limits.overlayNodes + snapshot.nodes.length ≤ u64Max) :
    Charged (fun _ => 0) (.fromSnapshot snapshot generated limits) := by
  refine ⟨small, room, List.nodup_nil, ?_, ?_, Nat.le_refl _, Nat.le_refl _, Nat.zero_le _⟩
  · intro path buried
    simp [FakeFs.fromSnapshot] at buried
  · simp [FakeFs.fromSnapshot]

theorem foldl_fs (account : Account) (ops : List FsOp) :
    (ops.foldl Account.apply account).fs = ops.foldl FakeFs.apply account.fs :=
  (List.foldl_hom Account.fs fun _ _ => rfl).symm

theorem burials_run {ops : List FsOp} {over_ : ℕ}
    (full : Run.meets Account.apply Account.chargesFully ⟨fs, kept⟩ ops = true)
    (owned : fs.budget.ownedBytes ≤ fs.budget.limits.ownedBytes)
    (within : fs.budget.overlayNodes ≤ fs.budget.limits.overlayNodes + over_) :
    (ops.foldl FakeFs.apply fs).budget.overlayNodes ≤
      fs.budget.limits.overlayNodes + (over_ + fs.burials ops) := by
  induction ops generalizing fs kept over_ with
  | nil => exact within
  | cons op later ih =>
      simp only [Run.meets, Bool.and_eq_true] at full
      obtain ⟨limits, less⟩ := within_apply owned op
      rw [← limits] at less
      have step := overlayNodes_apply full.1 within
      rw [← limits] at step
      have rest := ih full.2 less step
      rw [limits] at rest
      rw [FakeFs.burials, ← Nat.add_assoc over_]
      exact rest

/-- In every run the bytes charged stay within the limit, and a refused operation changes nothing;
and in a run in which a slot that is taken again was charged with the path and the link's target,
and the slots of generated files that are removed are within the limit, the bytes charged are at
least those resident, the slots counted at least the nodes and tombstones, and over the limit only
by the tombstones of paths of the snapshot. -/
theorem budget_covers_session (snapshot : Snapshot) (generated : List (Path × Node))
    (limits : BudgetLimits) (ops : List FsOp) :
    ((ops.foldl FakeFs.apply (.fromSnapshot snapshot generated limits)).budget.ownedBytes ≤
        limits.ownedBytes ∧
      ∀ op, (ops.foldl FakeFs.apply (.fromSnapshot snapshot generated limits)).succeeds op = false →
        let fs := ops.foldl FakeFs.apply (.fromSnapshot snapshot generated limits)
        (fs.apply op).snapshot = fs.snapshot ∧ (fs.apply op).generated = fs.generated ∧
          (fs.apply op).nodes = fs.nodes ∧ (fs.apply op).tombstones = fs.tombstones ∧
          (fs.apply op).attrs = fs.attrs ∧ fs.budget.SameCounters (fs.apply op).budget) ∧
    (limits.ownedBytes < u64Max → limits.overlayNodes + snapshot.nodes.length ≤ u64Max →
      Run.meets Account.apply Account.chargesFully
          ⟨.fromSnapshot snapshot generated limits, fun _ => 0⟩ ops = true →
      let fs := ops.foldl FakeFs.apply (.fromSnapshot snapshot generated limits)
      fs.resident ≤ fs.budget.ownedBytes ∧
        fs.nodes.length + fs.tombstones.card ≤ fs.budget.overlayNodes ∧
        fs.budget.overlayNodes ≤ limits.overlayNodes +
          (FakeFs.fromSnapshot snapshot generated limits).burials ops) := by
  have bytes : ∀ (fs : FakeFs), fs.budget.ownedBytes ≤ fs.budget.limits.ownedBytes →
      (ops.foldl FakeFs.apply fs).budget.ownedBytes ≤ fs.budget.limits.ownedBytes := by
    induction ops with
    | nil => exact fun fs within => within
    | cons op later ih =>
        intro fs within
        obtain ⟨limits, less⟩ := within_apply within op
        rw [← limits] at less ⊢
        exact ih (fs.apply op) less
  refine ⟨⟨bytes _ (Nat.zero_le _), fun op refused => refused_unchanged refused⟩, ?_⟩
  intro small room full
  have charged := Run.invariant_of_meets (fun account : Account => Charged account.kept account.fs)
    (fun _ _ full charged => charged.apply full) (charged_fromSnapshot small room) full
  rw [foldl_fs] at charged
  refine ⟨charged.resident_le, ?_, ?_⟩
  · rw [← charged.slots_card]
    exact charged.held
  · have counted := burials_run full (Nat.zero_le _) (Nat.zero_le (limits.overlayNodes + 0))
    rw [Nat.zero_add] at counted
    exact counted

/-- A file is written, removed and written again, and the box's own file removed.  So is a link that
comes back with a shorter target, and the file that was generated. -/
def reusingOps : List FsOp :=
  [.writeBlob (ofText "/a") emptyBlob 0 0, .removePath (ofText "/a"), .makeDir (ofText "/a") 0,
    .removePath (ofText "/d/x"), .createSymlink (ofText "/b") (ofText "/d/x") 0,
    .removePath (ofText "/b"), .createSymlink (ofText "/b") (ofText "/d") 0,
    .removePath (ofText "/x")]

def reusedFs : FakeFs :=
  .fromSnapshot boxSnapshot [([boxFile], .stamped (.regular emptyBlob) 0o100644 0)] .standard

theorem budget_covers_reused_slot :
    let fs := reusingOps.foldl FakeFs.apply reusedFs
    fs.resident ≤ fs.budget.ownedBytes ∧
      fs.nodes.length + fs.tombstones.card ≤ fs.budget.overlayNodes ∧
      fs.budget.overlayNodes ≤ BudgetLimits.standard.overlayNodes + reusedFs.burials reusingOps :=
  (budget_covers_session boxSnapshot _ .standard reusingOps).2 (by decide +kernel)
    (by decide +kernel) (by decide +kernel)

/-- A link in the slot of a removed file is not charged for its target. -/
theorem reused_slot_link_uncharged :
    ([FsOp.writeBlob (ofText "/a") emptyBlob 0 0, .removePath (ofText "/a"),
        .createSymlink (ofText "/a") (ofText "/d/x") 0].foldl FakeFs.apply
          boxFs).budget.ownedBytes = 2 ∧
      ([FsOp.writeBlob (ofText "/a") emptyBlob 0 0, .removePath (ofText "/a"),
        .createSymlink (ofText "/a") (ofText "/d/x") 0].foldl FakeFs.apply boxFs).resident = 6 := by
  constructor <;> decide +kernel

end Results

end Propolis.Filesystem
