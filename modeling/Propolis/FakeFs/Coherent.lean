import Propolis.FakeFs.Steps
import Propolis.Lib.Run

/-!
# One tree

A listing and a lookup read the same tree from different tables.  They agree as long as no
directory the session made has a child from the snapshot that it did not write or remove itself
(`Coherent.covered`).  Removing a directory leaves a tombstone for it alone, so a directory made
again in its place would have its old children: `exposesNothing` says that there are none.
-/

namespace Propolis.Filesystem

open Bytes Paths

variable {path : Bytes} {physical : Path} {fs : FakeFs} {entries : List Name} {name : Name}
  {node : Node} {follow : Bool}

variable {names : List Name}

section Resolution

variable {nodeAt : Path → Option Node} {resolved : Path} {pending : List Name}

/-- A directory is at the path. -/
def IsDir (nodeAt : Path → Option Node) (physical : Path) : Prop :=
  ∃ entries, (nodeAt physical).map Node.kind = some (.directory entries)

instance : Decidable (IsDir nodeAt physical) :=
  match kind : (nodeAt physical).map Node.kind with
  | some (.directory entries) => isTrue ⟨entries, kind⟩
  | some (.regular _) => isFalse fun ⟨_, dir⟩ => by simp [dir] at kind
  | some (.symlink _) => isFalse fun ⟨_, dir⟩ => by simp [dir] at kind
  | some (.device _) => isFalse fun ⟨_, dir⟩ => by simp [dir] at kind
  | none => isFalse fun ⟨_, dir⟩ => by simp [dir] at kind

def IsLink (nodeAt : Path → Option Node) (physical : Path) : Prop :=
  ∃ target, (nodeAt physical).map Node.kind = some (.symlink target)

/-- Directories lead to the path and, unless it is the root, one is there. -/
def Leads (nodeAt : Path → Option Node) (resolved : Path) : Prop :=
  ∀ front back, resolved = front ++ back → front ≠ [] → IsDir nodeAt front

/-- Directories lead to the path. -/
def Reached (nodeAt : Path → Option Node) (physical : Path) : Prop :=
  ∀ front back, physical = front ++ back → front ≠ [] → back ≠ [] → IsDir nodeAt front

theorem Leads.nil : Leads nodeAt [] := by
  intro front back same nonempty
  exact absurd (List.append_eq_nil_iff.mp same.symm).1 nonempty

section

variable (leads : Leads nodeAt resolved)
include leads

theorem Leads.reached : Reached nodeAt resolved := by
  intro front back same nonempty _
  exact leads front back same nonempty

theorem Leads.dropLast : Leads nodeAt resolved.dropLast := by
  intro front back same nonempty
  obtain ⟨rest, longer⟩ := List.dropLast_prefix resolved
  apply leads front (back ++ rest) _ nonempty
  rw [← longer, same, List.append_assoc]

theorem Leads.reached_child (name : Name) : Reached nodeAt (resolved ++ [name]) := by
  intro front back same nonempty more
  obtain ⟨last, rfl⟩ : ∃ rest, back = rest ++ [name] := by
    rcases List.eq_nil_or_concat back with rfl | ⟨rest, other, rfl⟩
    · exact absurd rfl more
    · rw [List.concat_eq_append, ← List.append_assoc] at same
      obtain ⟨-, lasts⟩ := List.append_inj' same rfl
      exact ⟨rest, by rw [List.concat_eq_append, lasts]⟩
  rw [← List.append_assoc] at same
  exact leads front last (List.append_cancel_right same) nonempty

theorem Leads.child (dir : IsDir nodeAt (resolved ++ [name])) :
    Leads nodeAt (resolved ++ [name]) := by
  intro front back same nonempty
  by_cases whole : back = []
  · subst whole
    rw [List.append_nil] at same
    exact same ▸ dir
  · exact leads.reached_child name front back same nonempty whole

end

/-- Names can follow: a directory is there or, where that is allowed, nothing. -/
def Passes (nodeAt : Path → Option Node) (allowMissing : Bool) (physical : Path) : Prop :=
  IsDir nodeAt physical ∨ allowMissing = true ∧ nodeAt physical = none

variable (nodeAt) (followFinal allowMissing : Bool) in
/-- A resolution that arrives, by what it does with each name. -/
inductive Resolves : ℕ → List Name → Path → Path → Prop
  | done (hops : ℕ) (resolved : Path) : Resolves hops [] resolved resolved
  | up {hops component pending resolved physical} (climbs : component.val = ofText "..")
      (rest : Resolves hops pending resolved.dropLast physical) :
      Resolves hops (component :: pending) resolved physical
  | link {hops component pending resolved physical target} (plain : component.val ≠ ofText "..")
      (there : (nodeAt (resolved ++ [component])).map Node.kind = some (.symlink target))
      (followed : pending ≠ [] ∨ followFinal = true)
      (rest : Resolves hops (namesOf target ++ pending)
        (if target.head? = some slash then [] else resolved) physical) :
      Resolves (hops + 1) (component :: pending) resolved physical
  | through {hops component pending resolved physical} (plain : component.val ≠ ofText "..")
      (passes : Passes nodeAt allowMissing (resolved ++ [component]))
      (rest : Resolves hops pending (resolved ++ [component]) physical) :
      Resolves hops (component :: pending) resolved physical
  | last {component} (hops : ℕ) (resolved : Path) (plain : component.val ≠ ofText "..")
      (other : ¬IsDir nodeAt (resolved ++ [component]))
      (unfollowed : followFinal = true → ¬IsLink nodeAt (resolved ++ [component])) :
      Resolves hops [component] resolved (resolved ++ [component])

variable {followFinal allowMissing : Bool} {hops : ℕ}

theorem resolves_of_walk {jump : List Name → Path → Except FsError Path}
    (jumps : ∀ pending resolved, jump pending resolved = .ok physical → ∃ fewer, hops = fewer + 1 ∧
      Resolves nodeAt followFinal allowMissing fewer pending resolved physical)
    (found : walk nodeAt followFinal allowMissing jump pending resolved = .ok physical) :
    Resolves nodeAt followFinal allowMissing hops pending resolved physical := by
  induction pending generalizing resolved with
  | nil =>
      cases found
      exact .done hops physical
  | cons component pending ih =>
      rw [walk] at found
      split at found
      case isTrue climbs => exact .up climbs (ih found)
      case isFalse plain =>
        -- a name that is not a directory is taken only as the last one
        have last (ends : pending = []) (other : ¬IsDir nodeAt (resolved ++ [component]))
            (unfollowed : followFinal = true → ¬IsLink nodeAt (resolved ++ [component]))
            (arrives : walk nodeAt followFinal allowMissing jump pending
              (resolved ++ [component]) = .ok physical) :
            Resolves nodeAt followFinal allowMissing hops (component :: pending) resolved
              physical := by
          subst ends
          cases arrives
          exact .last hops resolved plain other unfollowed
        split at found
        case h_1 target there =>
          split at found
          case isTrue followed =>
            rcases jumps _ _ found with ⟨fewer, rfl, rest⟩
            exact .link plain there followed rest
          case isFalse final =>
            rcases not_or.mp final with ⟨ends, kept⟩
            exact last (not_not.mp ends) (by simp [IsDir, there]) (absurd · kept) found
        case h_2 entries there => exact .through plain (.inl ⟨entries, there⟩) (ih found)
        case h_5 there =>
          split at found
          · cases found
          case isFalse final =>
            by_cases missing : allowMissing = true
            · exact .through plain (.inr ⟨missing, by simpa using there⟩) (ih found)
            · exact last (by simpa [missing] using final) (by simp [IsDir, there])
                (by simp [IsLink, there]) found
        all_goals
          rename_i there
          split at found
          · cases found
          case isFalse final =>
            exact last (by simpa using final) (by simp [IsDir, there]) (by simp [IsLink, there])
              found

theorem resolves_of_resolveWithin
    (found : resolveWithin nodeAt followFinal allowMissing hops pending resolved = .ok physical) :
    Resolves nodeAt followFinal allowMissing hops pending resolved physical := by
  induction hops generalizing pending resolved with
  | zero =>
      apply resolves_of_walk _ found
      intro _ _ impossible
      cases impossible
  | succ hops ih =>
      apply resolves_of_walk _ found
      intro _ _ rest
      exact ⟨hops, rfl, ih rest⟩

theorem Resolves.resolveWithin
    (resolves : Resolves nodeAt followFinal allowMissing hops pending resolved physical) :
    resolveWithin nodeAt followFinal allowMissing hops pending resolved = .ok physical := by
  -- the walk of the rest is that of the whole, whatever the number of links left
  have walks (hops : ℕ) : ∃ jump, Filesystem.resolveWithin nodeAt followFinal allowMissing hops =
      walk nodeAt followFinal allowMissing jump := by
    cases hops with
    | zero => exact ⟨_, rfl⟩
    | succ hops => exact ⟨_, rfl⟩
  induction resolves with
  | done hops resolved =>
      rcases walks hops with ⟨jump, same⟩
      rw [same, walk]
  | @up hops _ _ _ _ climbs _ ih =>
      rcases walks hops with ⟨jump, same⟩
      rw [same] at ih ⊢
      rw [walk, if_pos climbs, ih]
  | link plain there followed _ ih =>
      rw [Filesystem.resolveWithin, walk, if_neg plain, there]
      simp [followed, ih]
  | @through hops _ _ _ _ plain passes _ ih =>
      rcases walks hops with ⟨jump, same⟩
      rw [same] at ih ⊢
      rw [walk, if_neg plain, ← ih]
      rcases passes with ⟨entries, dir⟩ | ⟨allowed, missing⟩
      · rw [dir]
      · simp [missing, allowed]
  | last hops resolved plain other unfollowed =>
      rcases walks hops with ⟨jump, same⟩
      rw [same, walk, if_neg plain]
      split
      case h_1 target link =>
        rw [if_neg (by simpa using fun follows => unfollowed follows ⟨target, link⟩), walk]
      all_goals simp [walk]

/-- A resolution comes to a path that directories lead to. -/
theorem Resolves.reached
    (resolves : Resolves nodeAt followFinal false hops pending resolved physical)
    (leads : Leads nodeAt resolved) : Reached nodeAt physical := by
  induction resolves with
  | done => exact leads.reached
  | up _ _ ih => exact ih leads.dropLast
  | link _ _ _ _ ih =>
      apply ih
      split
      · exact Leads.nil
      · exact leads
  | through _ passes _ ih => exact ih (leads.child (passes.resolve_right (by simp)))
  | last => exact leads.reached_child _

/-- A name behind the path of a directory is looked up in that directory. -/
theorem Resolves.child (plain : name.val ≠ ofText "..")
    (resolves : Resolves nodeAt true false hops pending resolved physical)
    (dir : IsDir nodeAt physical) :
    Resolves nodeAt false false hops (pending ++ [name]) resolved (physical ++ [name]) := by
  induction resolves with
  | done hops resolved =>
      by_cases deeper : IsDir nodeAt (resolved ++ [name])
      · exact .through plain (.inl deeper) (.done hops _)
      · exact .last hops resolved plain deeper (by simp)
  | up climbs _ ih => exact .up climbs (ih dir)
  | link below there _ _ ih =>
      apply Resolves.link below there (.inl (by simp))
      simpa using ih dir
  | through below passes _ ih => exact .through below passes (ih dir)
  -- the directory is not what a last name that is none leads to
  | last _ _ _ other => exact absurd dir other

end Resolution

section Listing

theorem mem_foldl_addName : name ∈ names.foldl FakeFs.addName entries ↔
    name ∈ entries ∨ name ∈ names := by
  induction names generalizing entries with
  | nil => simp
  | cons first names ih =>
      rw [List.foldl_cons, ih, FakeFs.addName]
      split
      case isTrue there =>
        simp only [List.mem_cons]
        constructor
        · rintro (old | new)
          · exact .inl old
          · exact .inr (.inr new)
        · rintro (old | rfl | new)
          · exact .inl old
          · exact .inl there
          · exact .inr new
      case isFalse => simp [or_assoc]

theorem mem_children {table : List (Path × Node)} :
    name ∈ table.filterMap (fun entry => childName physical entry.1) ↔
      (table.lookup (physical ++ [name])).isSome = true := by
  rw [List.mem_filterMap, Keyed.lookup_isSome]
  simp only [childName_eq_some]

theorem mem_namesIn : name ∈ fs.namesIn physical entries ↔
    (name ∈ entries ∨ (fs.generated.lookup (physical ++ [name])).isSome = true ∨
      (fs.nodes.lookup (physical ++ [name])).isSome = true) ∧
      physical ++ [name] ∉ fs.tombstones := by
  rw [FakeFs.namesIn]
  simp only [List.mem_filter, mem_foldl_addName, List.mem_insertionSort, mem_children,
    decide_eq_true_eq, or_assoc]

theorem nodeAt_isSome : (fs.nodeAt physical).isSome = true ↔
    physical ∉ fs.tombstones ∧
      ((fs.nodes.lookup physical).isSome = true ∨ (fs.baseAt physical).isSome = true) := by
  rw [FakeFs.nodeAt]
  split
  case isTrue buried => simp [buried]
  case isFalse unburied => simp [unburied]

theorem nodeAt_of_written (unburied : physical ∉ fs.tombstones)
    (written : fs.nodes.lookup physical = some node) : fs.nodeAt physical = some node := by
  rw [FakeFs.nodeAt, if_neg unburied, written]
  rfl

theorem listDir_some (listed : fs.listDir path = some names) :
    ∃ physical node entries, fs.resolve path true = .ok physical ∧
      fs.nodeAt physical = some node ∧ node.kind = .directory entries ∧
      names = fs.namesIn physical entries := by
  rw [FakeFs.listDir] at listed
  split at listed
  case h_1 physical node found =>
    split at listed
    case h_1 entries kind =>
      rw [FakeFs.lookup] at found
      split at found
      case h_1 physical' resolved =>
        obtain ⟨node', there, same⟩ := Option.map_eq_some_iff.mp found
        cases same
        exact ⟨physical, node, entries, resolved, there, kind, (Option.some.inj listed).symm⟩
      case h_2 => cases found
    case h_2 => cases listed
  case h_2 => cases listed

end Listing

section Invariant

/-- The listing of every directory of the snapshot and of the derived nodes has exactly the names
with a node under it; a derived name need not be listed. -/
def Exact (fs : FakeFs) : Prop :=
  ∀ physical node entries, fs.baseAt physical = some node → node.kind = .directory entries →
    ∀ name, (name ∈ entries ∨ (fs.generated.lookup (physical ++ [name])).isSome = true) ↔
      (fs.baseAt (physical ++ [name])).isSome = true

structure Coherent (fs : FakeFs) : Prop where
  listed : Exact fs
  /-- A directory the session made has no listing of its own. -/
  plain : ∀ physical node entries, fs.nodes.lookup physical = some node →
    node.kind = .directory entries → entries = []
  /-- A child that is there without the session is hidden or replaced in a directory it made. -/
  covered : ∀ physical node entries, fs.nodes.lookup physical = some node →
    node.kind = .directory entries → physical ∉ fs.tombstones → ∀ name,
      (fs.baseAt (physical ++ [name])).isSome = true →
        physical ++ [name] ∈ fs.tombstones ∨ (fs.nodes.lookup (physical ++ [name])).isSome = true

/-- A directory is made only where every child that is there without the session is hidden or
replaced. -/
def FakeFs.exposesNothing (fs : FakeFs) : FsOp → Bool
  | .makeDir path _ =>
      match fs.resolve path true with
      | .ok physical => (fs.nodeAt physical).isSome || (fs.snapshot.nodes ++ fs.generated).all
          fun entry => (childName physical entry.1).isNone || entry.1 ∈ fs.tombstones ||
            (fs.nodes.lookup entry.1).isSome
      | .error _ => true
  | _ => true

theorem FakeFs.exposesNothing_makeDir {now : ℤ}
    (quiet : fs.exposesNothing (.makeDir path now) = true)
    (resolved : fs.resolve path true = .ok physical) (absent : fs.nodeAt physical = none)
    (there : (fs.baseAt (physical ++ [name])).isSome = true) :
    physical ++ [name] ∈ fs.tombstones ∨ (fs.nodes.lookup (physical ++ [name])).isSome = true := by
  simp only [exposesNothing, resolved, absent, Option.isSome_none, Bool.false_or,
    List.all_eq_true] at quiet
  obtain ⟨entry, member, same⟩ : ∃ entry ∈ fs.snapshot.nodes ++ fs.generated,
      entry.1 = physical ++ [name] := by
    rw [baseAt, Option.isSome_or, Bool.or_eq_true, Keyed.lookup_isSome,
      Keyed.lookup_isSome] at there
    rcases there with ⟨entry, member, same⟩ | ⟨entry, member, same⟩
    · exact ⟨entry, List.mem_append_left _ member, same⟩
    · exact ⟨entry, List.mem_append_right _ member, same⟩
  have child : childName physical entry.1 = some name := childName_eq_some.mpr same
  have hidden := quiet entry member
  rw [child, same] at hidden
  simpa using hidden

end Invariant

section Steps

variable {other : Path}

@[simp]
theorem lookup_put (other : Path) : (fs.put physical node).nodes.lookup other =
    if other = physical then some node else fs.nodes.lookup other :=
  Keyed.lookup_insert _ _ _ _

@[simp]
theorem mem_tombstones_put : other ∈ (fs.put physical node).tombstones ↔
    other ≠ physical ∧ other ∈ fs.tombstones :=
  Finset.mem_erase

@[simp]
theorem baseAt_removeAt (other : Path) : (fs.removeAt physical).baseAt other = fs.baseAt other := by
  simp only [FakeFs.removeAt]
  split <;> split <;> rfl

/-- Removing a directory takes along what the session wrote below it. -/
theorem lookup_removeAt (other : Path) : (fs.removeAt physical).nodes.lookup other =
    if other = physical ∨ IsDir fs.nodeAt physical ∧ below physical other = true then none
    else fs.nodes.lookup other := by
  have cleared : ∀ cleared : FakeFs, (if (fs.nodeAt physical).isSome = true then
      (cleared.dropNode physical).bury physical (cleared.nodes.lookup physical).isSome
      else cleared.dropNode physical).nodes = Keyed.erase physical cleared.nodes := by
    intro cleared
    split <;> rfl
  rw [FakeFs.removeAt, cleared, Keyed.lookup_erase]
  by_cases same : other = physical
  · simp [same]
  · rw [if_neg same]
    split
    case h_1 entries dir =>
      have isDir : IsDir fs.nodeAt physical := ⟨entries, dir⟩
      rw [FakeFs.dropBelow, Keyed.lookup_filter fun key => !below physical key]
      cases below physical other <;> simp [same, isDir]
    case h_2 noDir =>
      have notDir : ¬IsDir fs.nodeAt physical := fun ⟨entries, dir⟩ => noDir entries dir
      simp [same, notDir]

/-- A removal clears what is below the path, if anything, and keeps what is at it until then. -/
theorem removeAt_cleared (fs : FakeFs) (physical : Path) :
    ∃ cleared : FakeFs, (cleared = fs ∨ cleared = fs.dropBelow physical) ∧
      cleared.nodes.lookup physical = fs.nodes.lookup physical ∧
      fs.removeAt physical = if (fs.nodeAt physical).isSome = true then
        (cleared.dropNode physical).bury physical (cleared.nodes.lookup physical).isSome
        else cleared.dropNode physical := by
  refine ⟨_, ?_, ?_, rfl⟩
  · split
    · exact .inr rfl
    · exact .inl rfl
  · split
    · have self : ¬below physical physical = true := by simp [below_iff]
      rw [FakeFs.dropBelow, Keyed.lookup_filter fun key => !below physical key]
      simp [self]
    · rfl

theorem tombstones_removeAt : (fs.removeAt physical).tombstones =
    if (fs.nodeAt physical).isSome = true then insert physical fs.tombstones
    else fs.tombstones := by
  obtain ⟨cleared, rfl | rfl, -, removes⟩ := removeAt_cleared fs physical <;>
    rw [removes] <;> split <;> rfl

theorem mem_tombstones_removeAt (buried : other ∈ fs.tombstones) :
    other ∈ (fs.removeAt physical).tombstones := by
  rw [tombstones_removeAt]
  split
  · exact Finset.mem_insert_of_mem buried
  · exact buried

/-- What the session wrote at a path is buried when the path is removed. -/
theorem buried_of_written (written : (fs.nodes.lookup physical).isSome = true) :
    physical ∈ (fs.removeAt physical).tombstones := by
  by_cases buried : physical ∈ fs.tombstones
  · exact mem_tombstones_removeAt buried
  · rw [tombstones_removeAt, if_pos (nodeAt_isSome.mpr ⟨buried, .inl written⟩)]
    exact Finset.mem_insert_self _ _

variable (coherent : Coherent fs)
include coherent

theorem Coherent.charge (budget : ConnectionBudget) :
    Coherent { fs with budget := budget } :=
  { coherent with }

theorem Coherent.put (plain : ∀ entries, node.kind = .directory entries → entries = [])
    (covered : ∀ entries, node.kind = .directory entries → ∀ name,
      (fs.baseAt (physical ++ [name])).isSome = true → physical ++ [name] ∈ fs.tombstones ∨
        (fs.nodes.lookup (physical ++ [name])).isSome = true) :
    Coherent (fs.put physical node) := by
  refine ⟨coherent.listed, ?_, ?_⟩
  · intro path found entries written kind
    rw [lookup_put] at written
    split at written
    · cases written
      exact plain entries kind
    · exact coherent.plain path found entries written kind
  · intro path found entries written kind unburied name there
    rw [lookup_put] at written
    have before : path ++ [name] ∈ fs.tombstones ∨
        (fs.nodes.lookup (path ++ [name])).isSome = true := by
      split at written
      case isTrue same =>
        subst same
        cases written
        exact covered entries kind name there
      case isFalse other =>
        refine coherent.covered path found entries written kind ?_ name there
        intro buried
        exact unburied (mem_tombstones_put.mpr ⟨other, buried⟩)
    by_cases same : path ++ [name] = physical
    · right
      rw [lookup_put, if_pos same]
      rfl
    · rw [mem_tombstones_put, lookup_put, if_neg same]
      exact before.imp_left fun buried => ⟨same, buried⟩

theorem Coherent.removeAt : Coherent (fs.removeAt physical) := by
  refine ⟨?_, ?_, ?_⟩
  · intro path found entries there kind name
    have generated : (fs.removeAt physical).generated = fs.generated := by
      simp only [FakeFs.removeAt]
      split <;> split <;> rfl
    rw [baseAt_removeAt] at there ⊢
    rw [generated]
    exact coherent.listed path found entries there kind name
  · intro path found entries written kind
    rw [lookup_removeAt] at written
    split at written
    · cases written
    · exact coherent.plain path found entries written kind
  · intro path found entries written kind unburied name there
    rw [lookup_removeAt] at written
    split at written
    · cases written
    case isFalse stays =>
      rw [baseAt_removeAt] at there
      have before := coherent.covered path found entries written kind
        (fun buried => unburied (mem_tombstones_removeAt buried)) name there
      rcases before with buried | child
      · exact .inl (mem_tombstones_removeAt buried)
      · by_cases here : path ++ [name] = physical
        · left
          rw [here]
          exact buried_of_written (here ▸ child)
        · right
          rw [lookup_removeAt, if_neg]
          · exact child
          · rintro (same | ⟨dir, under⟩)
            · exact here same
            · -- the directory of a child below the removed path is that path or below it
              obtain ⟨nonempty, first, rest, same⟩ := below_iff.mp under
              apply stays
              rcases List.eq_nil_or_concat rest with rfl | ⟨more, last, rfl⟩
              · exact .inl (List.append_inj' same rfl).1
              · right
                refine ⟨dir, below_iff.mpr ⟨nonempty, first, more, ?_⟩⟩
                rw [List.concat_eq_append, ← List.cons_append, ← List.append_assoc] at same
                exact (List.append_inj' same rfl).1

theorem Coherent.apply {op : FsOp}
    (quiet : fs.exposesNothing op = true) : Coherent (fs.apply op) := by
  -- only `make_dir` writes a directory, an empty one
  have empty : ∀ {node : Node}, op.writes node → ∀ entries, node.kind = .directory entries →
      entries = [] ∧ ∃ path now, op = .makeDir path now := by
    intro node writes entries kind
    cases op <;> simp only [FsOp.writes] at writes
    case makeDir path now =>
      rw [writes] at kind
      exact ⟨(NodeKind.directory.inj kind).symm, path, now, rfl⟩
    all_goals
      rw [writes] at kind
      cases kind
  have hides : ∀ {physical : Path} {node : Node}, fs.target op = .ok physical → op.writes node →
      fs.nodeAt physical = none → ∀ entries, node.kind = .directory entries → ∀ name,
      (fs.baseAt (physical ++ [name])).isSome = true → physical ++ [name] ∈ fs.tombstones ∨
        (fs.nodes.lookup (physical ++ [name])).isSome = true := by
    intro physical node target writes absent entries kind name there
    obtain ⟨-, path, now, rfl⟩ := empty writes entries kind
    exact FakeFs.exposesNothing_makeDir quiet target absent there
  have effect := fs.apply_effect op
  generalize fs.succeeds op = succeeded at effect
  generalize fs.apply op = after at effect
  cases effect with
  | unchanged _ budget counters => exact coherent.charge budget
  | rewritten physical node budget target writes file =>
      obtain ⟨blob, kind⟩ := file
      apply (coherent.charge budget).put
      · intro entries dir
        rw [kind] at dir
        cases dir
      · intro entries dir
        rw [kind] at dir
        cases dir
  | revived physical node target writes bare absent buried =>
      apply coherent.put
      · exact fun entries kind => (empty writes entries kind).1
      · exact hides target writes absent
  | added physical node budget target writes vacant =>
      apply (coherent.charge budget).put
      · exact fun entries kind => (empty writes entries kind).1
      · intro entries kind
        rcases vacant with ⟨blob, file⟩ | absent
        · rw [file] at kind
          cases kind
        · exact hides target writes absent entries kind
  | removed => exact coherent.removeAt

end Steps

section Agreement

/-- A directory lists a name exactly when the name is found in it. -/
theorem Coherent.mem_namesIn_iff (coherent : Coherent fs) (there : fs.nodeAt physical = some node)
    (kind : node.kind = .directory entries) (name : Name) :
    name ∈ fs.namesIn physical entries ↔ (fs.nodeAt (physical ++ [name])).isSome = true := by
  rw [mem_namesIn, nodeAt_isSome, and_comm]
  apply and_congr_right
  intro unburied
  have live := nodeAt_isSome.mp (Option.isSome_of_eq_some there)
  cases written : fs.nodes.lookup physical with
  | some own =>
      obtain rfl : own = node := by
        have same := nodeAt_of_written live.1 written
        exact Option.some.inj (same.symm.trans there)
      have covered := coherent.covered physical own entries written kind live.1 name
      have base : (fs.generated.lookup (physical ++ [name])).isSome = true →
          (fs.baseAt (physical ++ [name])).isSome = true := by
        intro generated
        rw [FakeFs.baseAt, Option.isSome_or, generated, Bool.or_true]
      rw [coherent.plain physical own entries written kind]
      constructor
      · rintro (listed | generated | own)
        · cases listed
        · exact .inr (base generated)
        · exact .inl own
      · rintro (own | base)
        · exact .inr (.inr own)
        · exact .inr (.inr ((covered base).resolve_left unburied))
  | none =>
      have base : fs.baseAt physical = some node := by
        rw [FakeFs.nodeAt, if_neg live.1, written] at there
        exact there
      have listed := coherent.listed physical node entries base kind name
      rw [← or_assoc, listed, or_comm]

theorem logicalNames_child (path : Bytes) (plain : name.val ≠ ofText ".") :
    logicalNames (path ++ slash :: name.val) = logicalNames path ++ [name] := by
  rw [logicalNames, namesOf_child, logicalNames]
  simp [plain]

/-- Listing and lookup agree. -/
theorem Coherent.listDir_iff (coherent : Coherent fs) (listed : fs.listDir path = some names)
    (here : name.val ≠ ofText ".") (up : name.val ≠ ofText "..") :
    name ∈ names ↔ (fs.stat (path ++ slash :: name.val) false).isSome = true := by
  obtain ⟨physical, node, entries, resolved, there, kind, rfl⟩ := listDir_some listed
  have dir : IsDir fs.nodeAt physical := ⟨entries, by simp [there, kind]⟩
  have child : fs.resolve (path ++ slash :: name.val) false = .ok (physical ++ [name]) := by
    rw [FakeFs.resolve, FakeFs.resolveWith, logicalNames_child path here]
    exact ((resolves_of_resolveWithin resolved).child up dir).resolveWithin
  rw [coherent.mem_namesIn_iff there kind, FakeFs.stat, child]
  simp

end Agreement

section Removal

variable {removed : Path} {made : List Path}

/-- What is found at a path the session did not write is not below anything it wrote or removed. -/
theorem Coherent.unwritten_above (coherent : Coherent fs)
    (reached : Reached fs.nodeAt physical) (live : (fs.nodeAt physical).isSome = true)
    (unwritten : fs.nodes.lookup physical = none) {above : Path} (nonempty : above ≠ [])
    (leading : above <+: physical) :
    above ∉ fs.tombstones ∧ fs.nodes.lookup above = none := by
  induction physical using List.reverseRecOn with
  | nil => exact absurd (List.prefix_nil.mp leading) nonempty
  | append_singleton front name ih =>
      rcases List.prefix_concat_iff.mp leading with rfl | shorter
      · exact ⟨(nodeAt_isSome.mp live).1, unwritten⟩
      · have some_ : front ≠ [] := by
          rintro rfl
          exact nonempty (List.prefix_nil.mp shorter)
        obtain ⟨entries, dir⟩ := reached front [name] rfl some_ (List.cons_ne_nil _ _)
        obtain ⟨node, there, kind⟩ := Option.map_eq_some_iff.mp dir
        have frontLive : (fs.nodeAt front).isSome = true := Option.isSome_of_eq_some there
        -- a directory the session made would hide the child
        have frontUnwritten : fs.nodes.lookup front = none := by
          rw [Option.eq_none_iff_forall_ne_some]
          intro own written
          have unburied := (nodeAt_isSome.mp frontLive).1
          have same := nodeAt_of_written unburied written
          obtain rfl : own = node := Option.some.inj (same.symm.trans there)
          have childLive := nodeAt_isSome.mp live
          have base : (fs.baseAt (front ++ [name])).isSome = true := by
            simpa [unwritten] using childLive.2
          rcases coherent.covered front own entries written kind unburied name base with
            buried | replaced
          · exact childLive.1 buried
          · simp [unwritten] at replaced
        apply ih _ frontLive frontUnwritten shorter
        intro first back same firstSome _
        exact reached first (back ++ [name]) (by rw [same, List.append_assoc]) firstSome (by simp)

/-- The path an operation wrote. -/
def FakeFs.createdBy (fs : FakeFs) (op : FsOp) : Option Path :=
  match op, fs.target op with
  | .removePath _, _ => none
  | _, .error _ => none
  | _, .ok physical =>
      if fs.succeeds op ∧ ((fs.apply op).nodes.lookup physical).isSome then some physical else none

/-- The paths a run wrote. -/
def FakeFs.created : FakeFs → List FsOp → List Path
  | _, [] => []
  | fs, op :: later => (fs.createdBy op).toList ++ FakeFs.created (fs.apply op) later

/-- A removed directory, or one above it, was removed or written by the session, and what the
session wrote below it was written since. -/
structure Gone (removed : Path) (made : List Path) (fs : FakeFs) : Prop where
  buried : ∃ above, above ≠ [] ∧ above <+: removed ∧
    (above ∈ fs.tombstones ∨ (fs.nodes.lookup above).isSome = true)
  since : ∀ physical, (fs.nodes.lookup physical).isSome = true →
    below removed physical = true → physical ∈ made

section

variable (gone : Gone removed made fs)
include gone

theorem Gone.charge (budget : ConnectionBudget) : Gone removed made { fs with budget := budget } :=
  ⟨gone.buried, gone.since⟩

theorem Gone.put (physical : Path) (node : Node) :
    Gone removed (made ++ [physical]) (fs.put physical node) := by
  obtain ⟨above, nonempty, leading, held⟩ := gone.buried
  refine ⟨⟨above, nonempty, leading, ?_⟩, ?_⟩
  · by_cases same : above = physical
    · simp [same]
    · simpa [same] using held
  · intro other written under
    rw [lookup_put] at written
    split at written
    case isTrue same => simp [same]
    case isFalse => exact List.mem_append_left _ (gone.since other written under)

theorem Gone.removeAt (physical : Path) : Gone removed made (fs.removeAt physical) := by
  refine ⟨?_, ?_⟩
  · obtain ⟨above, nonempty, leading, buried | written⟩ := gone.buried
    · exact ⟨above, nonempty, leading, .inl (mem_tombstones_removeAt buried)⟩
    · by_cases same : above = physical
      · exact ⟨above, nonempty, leading, .inl (same ▸ buried_of_written (same ▸ written))⟩
      · by_cases under : IsDir fs.nodeAt physical ∧ below physical above = true
        · -- a directory above it was removed instead
          obtain ⟨⟨entries, dir⟩, lower⟩ := under
          obtain ⟨some_, name, rest, rfl⟩ := below_iff.mp lower
          refine ⟨physical, some_, (List.prefix_append _ _).trans leading, .inl ?_⟩
          obtain ⟨node, there, -⟩ := Option.map_eq_some_iff.mp dir
          rw [tombstones_removeAt, if_pos (Option.isSome_of_eq_some there)]
          exact Finset.mem_insert_self _ _
        · refine ⟨above, nonempty, leading, .inr ?_⟩
          rw [lookup_removeAt, if_neg (not_or.mpr ⟨same, under⟩)]
          exact written
  · intro other written under
    rw [lookup_removeAt] at written
    split at written
    · cases written
    · exact gone.since other written under

theorem Gone.apply (op : FsOp) : Gone removed (made ++ (fs.createdBy op).toList) (fs.apply op) := by
  -- an operation that writes at its target creates it
  have creates : ∀ {physical : Path} {node : Node}, fs.target op = .ok physical →
      op.writes node → fs.succeeds op = true →
      ((fs.apply op).nodes.lookup physical).isSome = true →
      (fs.createdBy op).toList = [physical] := by
    intro physical node target writes succeeded written
    cases op <;> simp only [FsOp.writes] at writes <;>
      simp [FakeFs.createdBy, target, succeeded, written]
  have effect := fs.apply_effect op
  generalize succeeds : fs.succeeds op = succeeded at effect creates
  generalize applied : fs.apply op = after at effect creates
  cases effect with
  | unchanged =>
      refine ⟨gone.buried, ?_⟩
      intro physical written under
      exact List.mem_append_left _ (gone.since physical written under)
  | revived physical node target writes =>
      rw [creates target writes rfl (by rw [lookup_put, if_pos rfl]; rfl)]
      exact gone.put physical node
  | rewritten physical node budget target writes | added physical node budget target writes =>
      rw [creates target writes rfl (by rw [lookup_put, if_pos rfl]; rfl)]
      exact (gone.charge budget).put physical node
  | removed path physical =>
      have after := gone.removeAt physical
      refine ⟨after.buried, ?_⟩
      intro other written under
      exact List.mem_append_left _ (after.since other written under)

theorem Gone.run (later : List FsOp) :
    Gone removed (made ++ fs.created later) (later.foldl FakeFs.apply fs) := by
  induction later generalizing fs made with
  | nil => simpa [FakeFs.created] using gone
  | cons op later ih =>
      rw [FakeFs.created, ← List.append_assoc]
      exact ih (gone.apply op)

/-- What is found below a removed directory was written since. -/
theorem Gone.mem_of_live (coherent : Coherent fs)
    (reached : Reached fs.nodeAt physical) (live : (fs.nodeAt physical).isSome = true)
    (under : below removed physical = true) : physical ∈ made := by
  cases written : fs.nodes.lookup physical with
  | some node => exact gone.since physical (Option.isSome_of_eq_some written) under
  | none =>
      obtain ⟨above, nonempty, leading, held⟩ := gone.buried
      obtain ⟨-, name, rest, rfl⟩ := below_iff.mp under
      have clear := coherent.unwritten_above reached live written nonempty
        (leading.trans (List.prefix_append _ _))
      rcases held with buried | own
      · exact absurd buried clear.1
      · simp [clear.2] at own

end

theorem gone_removeAt (nonempty : physical ≠ [])
    (dir : IsDir fs.nodeAt physical) : Gone physical [] (fs.removeAt physical) := by
  obtain ⟨entries, kind⟩ := dir
  obtain ⟨node, there, -⟩ := Option.map_eq_some_iff.mp kind
  refine ⟨⟨physical, nonempty, List.prefix_refl _, .inl ?_⟩, ?_⟩
  · rw [tombstones_removeAt, if_pos (Option.isSome_of_eq_some there)]
    exact Finset.mem_insert_self _ _
  · intro other written under
    rw [lookup_removeAt, if_pos (.inr ⟨⟨entries, kind⟩, under⟩)] at written
    cases written

end Removal

section Results

theorem resolve_reached (resolved : fs.resolve path follow = .ok physical) :
    Reached fs.nodeAt physical :=
  (resolves_of_resolveWithin resolved).reached Leads.nil

theorem stat_some {found : FakeFs.Stat} (stat : fs.stat path follow = some found) :
    Reached fs.nodeAt found.physical ∧ (fs.nodeAt found.physical).isSome = true := by
  rw [FakeFs.stat] at stat
  split at stat
  case h_1 physical resolved =>
    obtain ⟨node, there, rfl⟩ := Option.map_eq_some_iff.mp stat
    exact ⟨resolve_reached resolved, Option.isSome_of_eq_some there⟩
  case h_2 => cases stat

theorem readRange_ok {elfByte : ElfImage → ℕ → UInt8} {bytes : Bytes} {off maxLen : ℕ}
    (read : fs.readRange elfByte path off maxLen = .ok bytes)
    (resolved : fs.resolve path true = .ok physical) : (fs.nodeAt physical).isSome = true := by
  rw [FakeFs.readRange, resolved] at read
  cases there : fs.nodeAt physical with
  | some node => rfl
  | none => simp [there] at read

/-- The listings hold exactly their children, checked on the tables. -/
def FakeFs.listsExactly (fs : FakeFs) : Bool :=
  (fs.snapshot.nodes ++ fs.generated).all fun entry =>
    match entry.2.kind with
    | .directory entries =>
        entries.all (fun name => (fs.baseAt (entry.1 ++ [name])).isSome) &&
          (fs.snapshot.nodes ++ fs.generated).all fun other =>
            (childName entry.1 other.1).all (lists entries)
    | _ => true

theorem mem_of_baseAt (there : fs.baseAt physical = some node) :
    (physical, node) ∈ fs.snapshot.nodes ++ fs.generated := by
  rcases Option.or_eq_some_iff.mp there with found | ⟨-, found⟩
  · exact List.mem_append_left _ (Keyed.mem_of_lookup found)
  · exact List.mem_append_right _ (Keyed.mem_of_lookup found)

theorem exact_of_listsExactly (checked : fs.listsExactly = true) : Exact fs := by
  intro physical node entries there kind name
  rw [FakeFs.listsExactly, List.all_eq_true] at checked
  have own := checked _ (mem_of_baseAt there)
  simp only [kind, Bool.and_eq_true, List.all_eq_true] at own
  constructor
  · rintro (listed | generated)
    · exact own.1 name listed
    · rw [FakeFs.baseAt, Option.isSome_or, generated, Bool.or_true]
  · intro found
    obtain ⟨child, childThere⟩ := Option.isSome_iff_exists.mp found
    have listed := own.2 _ (mem_of_baseAt childThere)
    rw [childName_eq_some.mpr rfl] at listed
    exact .inl (by simpa [FakeFs.lists] using listed)

theorem coherent_fromSnapshot {snapshot : Snapshot} {generated : List (Path × Node)}
    {limits : BudgetLimits} (listed : Exact (.fromSnapshot snapshot generated limits)) :
    Coherent (.fromSnapshot snapshot generated limits) := by
  refine ⟨listed, ?_, ?_⟩
  · intro _ _ _ written
    cases written
  · intro _ _ _ written
    cases written

/-- The filesystem is one tree in every state of a run that makes directories only where no child
shows through: a directory lists a name exactly when the name is found in it, and below a directory
other than the root that was removed nothing is found, read or listed that was not written since. -/
theorem tree_coherent (snapshot : Snapshot) (generated : List (Path × Node))
    (limits : BudgetLimits) (listed : Exact (.fromSnapshot snapshot generated limits))
    (ops : List FsOp) (quiet : Run.meets FakeFs.apply FakeFs.exposesNothing
      (.fromSnapshot snapshot generated limits) ops = true) :
    (∀ path names, (ops.foldl FakeFs.apply (.fromSnapshot snapshot generated limits)).listDir path =
        some names → ∀ name : Name, name.val ≠ ofText "." → name.val ≠ ofText ".." →
      (name ∈ names ↔ ((ops.foldl FakeFs.apply (.fromSnapshot snapshot generated limits)).stat
        (path ++ slash :: name.val) false).isSome = true)) ∧
    ∀ front path later before after removed, ops = front ++ .removePath path :: later →
      before = front.foldl FakeFs.apply (.fromSnapshot snapshot generated limits) →
      after = later.foldl FakeFs.apply (before.apply (.removePath path)) →
      before.resolve path false = .ok removed → removed ≠ [] →
      before.snapshot.isRo removed = false → IsDir before.nodeAt removed →
      ∀ physical, below removed physical = true →
        physical ∉ (before.apply (.removePath path)).created later →
        (∀ other follow found, after.stat other follow = some found →
          found.physical ≠ physical) ∧
        (∀ elfByte other off maxLen bytes, after.readRange elfByte other off maxLen = .ok bytes →
          after.resolve other true ≠ .ok physical) ∧
        ∀ other names dir, after.listDir other = some names → after.resolve other true = .ok dir →
          ∀ name ∈ names, dir ++ [name] ≠ physical := by
  have coherent : ∀ ops, Run.meets FakeFs.apply FakeFs.exposesNothing
      (.fromSnapshot snapshot generated limits) ops = true →
      Coherent (ops.foldl FakeFs.apply (.fromSnapshot snapshot generated limits)) := by
    intro ops quiet
    apply Run.invariant_of_meets Coherent _ (coherent_fromSnapshot listed) quiet
    exact fun fs op quiet coherent => coherent.apply quiet
  refine ⟨?_, ?_⟩
  · intro path names found name here up
    exact (coherent ops quiet).listDir_iff found here up
  · rintro front path later before after removed rfl rfl rfl resolved nonempty writable dir physical
      under unmade
    have whole := coherent _ quiet
    rw [List.foldl_append] at whole
    generalize front.foldl FakeFs.apply (.fromSnapshot snapshot generated limits) = before at *
    have removes : before.apply (.removePath path) = before.removeAt removed := by
      simp [FakeFs.apply, FakeFs.run, FakeFs.removePath, resolved, writable]
    have gone := (gone_removeAt nonempty dir).run later
    rw [← removes] at gone
    have absent : ∀ {found : Path}, Reached (later.foldl FakeFs.apply
        (before.apply (.removePath path))).nodeAt found →
        ((later.foldl FakeFs.apply (before.apply (.removePath path))).nodeAt found).isSome = true →
        found ≠ physical := by
      rintro found reached live rfl
      exact unmade (gone.mem_of_live whole reached live under)
    refine ⟨?_, ?_, ?_⟩
    · intro other follow found stat
      obtain ⟨reached, live⟩ := stat_some stat
      exact absent reached live
    · intro elfByte other off maxLen bytes read same
      exact absent (resolve_reached same) (readRange_ok read same) rfl
    · intro other names dir found same name member
      obtain ⟨physical', node, entries, resolved', there, kind, rfl⟩ := listDir_some found
      obtain rfl : physical' = dir := Except.ok.inj (resolved'.symm.trans same)
      apply absent _ ((whole.mem_namesIn_iff there kind name).mp member)
      intro first back split nonempty more
      have leads : Leads (later.foldl FakeFs.apply
          (before.apply (.removePath path))).nodeAt physical' := by
        intro first back same nonempty
        by_cases last : back = []
        · subst last
          rw [List.append_nil] at same
          exact ⟨entries, by rw [← same, there, Option.map_some, kind]⟩
        · exact resolve_reached resolved' first back same nonempty last
      exact leads.reached_child name first back split nonempty more

end Results

section Box

def boxDir : Name := ⟨ofText "d", by decide +kernel⟩

def boxFile : Name := ⟨ofText "x", by decide +kernel⟩

def emptyBlob : Blob := ⟨[], 0, rfl, by decide, by decide⟩

/-- A box with one directory, and a file in it. -/
def boxSnapshot : Snapshot where
  nodes := [([], .stamped (.directory [boxDir]) modeDirectory 0),
    ([boxDir], .stamped (.directory [boxFile]) modeDirectory 0),
    ([boxDir, boxFile], .stamped (.regular emptyBlob) 0o100644 0)]
  mounts := []

def boxFs : FakeFs := .fromSnapshot boxSnapshot [] .standard

/-- The file is removed, then its directory, which is made again. -/
def tidyOps : List FsOp :=
  [.removePath (ofText "/d/x"), .removePath (ofText "/d"), .makeDir (ofText "/d") 0]

/-- Removed file by file, the directory made again is empty. -/
theorem tree_coherent_tidy :
    (tidyOps.foldl FakeFs.apply boxFs).listDir (ofText "/d") = some [] ∧
      ((tidyOps.foldl FakeFs.apply boxFs).stat (ofText "/d" ++ slash :: boxFile.val) false).isSome =
        false ∧
      ∀ found, (tidyOps.foldl FakeFs.apply boxFs).stat (ofText "/d/x") true = some found →
        found.physical ≠ [boxDir, boxFile] := by
  have both := tree_coherent boxSnapshot [] .standard
    (exact_of_listsExactly (by decide +kernel)) tidyOps (by decide +kernel)
  have listing : (tidyOps.foldl FakeFs.apply boxFs).listDir (ofText "/d") = some [] := by
    decide +kernel
  refine ⟨listing, ?_, ?_⟩
  · rw [Bool.eq_false_iff]
    intro found
    exact List.not_mem_nil ((both.1 (ofText "/d") [] listing boxFile (by decide +kernel)
      (by decide +kernel)).mpr found)
  · exact (both.2 [.removePath (ofText "/d/x")] (ofText "/d") [.makeDir (ofText "/d") 0] _ _
      [boxDir] rfl rfl rfl (by decide +kernel) (by decide) (by decide +kernel) (by decide +kernel)
      [boxDir, boxFile] (by decide +kernel) (by decide +kernel)).1 _ _

/-- A directory that is removed and made again has its file back, and does not list it. -/
theorem remade_directory_has_old_file :
    Exact boxFs ∧
      ([FsOp.removePath (ofText "/d"), .makeDir (ofText "/d") 0].foldl FakeFs.apply boxFs).listDir
        (ofText "/d") = some [] ∧
      (([FsOp.removePath (ofText "/d"), .makeDir (ofText "/d") 0].foldl FakeFs.apply boxFs).stat
        (ofText "/d" ++ slash :: boxFile.val) false).map (·.physical) =
          some [boxDir, boxFile] ∧
      (boxFs.apply (.removePath (ofText "/d"))).created [.makeDir (ofText "/d") 0] =
        [[boxDir]] := by
  refine ⟨exact_of_listsExactly (by decide +kernel), ?_, ?_, ?_⟩ <;> decide +kernel

end Box

end Propolis.Filesystem
