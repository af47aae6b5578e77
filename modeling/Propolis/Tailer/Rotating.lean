import Propolis.Tailer.Disk
import Propolis.Tailer.Noticing

/-!
# A log that is rotated

A log that is appended to, renamed away and copytruncated, and a tailer that reads,
commits and rewinds, in any order.  `committed` and `handed` are ghosts: the lines
committed so far and those handed out since the last commit or rewind.  `unnoticed`
is the file of the generation rotated out last, until a call has found the log again.

`Follows` is the invariant.  The tailer stands in the log or in the file of the
unnoticed generation, holds what `Held` says there, and drains no file that is
still written to.  It survives every step that is `admitted`:

* a rotation comes once the one before it was noticed, and the file is open when it
  is renamed, or was fingerprinted when it was not empty before it is truncated;
* the log does not carry the fingerprint of the generation truncated before it;
* a truncated generation is noticed while some of it is unread, or with none of it
  uncommitted.
-/

namespace Propolis

open Bytes

inductive Unnoticed where
  | none | renamed (file : ℕ) | copied (file : ℕ)
  deriving DecidableEq

inductive LogAction where
  | append (bytes : Bytes) | rename | copytruncate | read (maxLines : ℕ) | commit | rewind

/-- The files of a log with its tailer. -/
structure LogWorld where
  disk : Disk
  tailer : LogTailer
  rotated : List Bytes := []
  unnoticed : Unnoticed := .none
  committed : List Bytes := []
  handed : List Bytes := []

namespace LogWorld

def start : LogWorld :=
  { disk := .empty, tailer := LogTailer.new Disk.empty.fs none }

/-- Every complete line appended so far, oldest first. -/
def written (world : LogWorld) : List Bytes :=
  world.rotated ++ linesOf world.disk.content

def append (bytes : Bytes) (world : LogWorld) : LogWorld :=
  { world with disk := world.disk.append bytes }

def rename (world : LogWorld) : LogWorld :=
  match world.disk.fs.log with
  | some inode =>
      { world with
        disk := world.disk.rename
        rotated := world.rotated ++ linesOf world.disk.content
        unnoticed := .renamed inode }
  | none => world

def copytruncate (world : LogWorld) : LogWorld :=
  match world.disk.fs.log with
  | some _ =>
      { world with
        disk := world.disk.copytruncate
        rotated := world.rotated ++ linesOf world.disk.content
        unnoticed := .copied world.disk.next }
  | none => world

def read (hash : Bytes → Digest) (maxLines : ℕ) (world : LogWorld) : LogWorld :=
  let result := world.tailer.readBatch hash maxLines fun _ => world.disk.fs
  { world with
    tailer := result.2
    handed := world.handed ++ result.1
    unnoticed := if maxLines ≠ 0 ∧ world.disk.fs.log.isSome then .none else world.unnoticed }

def commit (world : LogWorld) : LogWorld :=
  { world with
    tailer := world.tailer.commitBatch
    committed := world.committed ++ world.handed
    handed := [] }

def rewind (world : LogWorld) : LogWorld :=
  { world with tailer := world.tailer.rewindBatch, handed := [] }

def step (hash : Bytes → Digest) (world : LogWorld) : LogAction → LogWorld
  | .append bytes => world.append bytes
  | .rename => world.rename
  | .copytruncate => world.copytruncate
  | .read maxLines => world.read hash maxLines
  | .commit => world.commit
  | .rewind => world.rewind

def run (hash : Bytes → Digest) (world : LogWorld) (actions : List LogAction) : LogWorld :=
  actions.foldl (step hash) world

/-- Nothing of the log would be lost by renaming it away. -/
def renameable (world : LogWorld) : Bool :=
  world.disk.fs.log.isNone || (world.unnoticed = .none &&
    (linesOf world.disk.content = [] || world.tailer.file = world.disk.fs.log))

/-- The log can be told from what is written in its place. -/
def truncatable (world : LogWorld) : Bool :=
  world.disk.fs.log.isNone || (world.unnoticed = .none &&
    (linesOf world.disk.content = [] ||
      (some world.tailer.state.inode = world.disk.fs.log &&
        world.tailer.state.fingerprintLen ≠ some 0)))

/-- A truncation is seen by the next call, and is not too late to be rewound. -/
def noticeable (hash : Bytes → Digest) (world : LogWorld) : Bool :=
  match world.unnoticed with
  | .copied file =>
      (world.tailer.state.fingerprintLen = none ||
        !headMatches hash world.tailer.state (world.disk.content.take 256)) &&
      (world.tailer.state.offset < (world.disk.fs.data file).length ||
        world.tailer.uncommitted.all fun uncommitted =>
          uncommitted.offset = world.tailer.state.offset)
  | _ => true

def admitted (hash : Bytes → Digest) (world : LogWorld) : LogAction → Bool
  | .rename => world.renameable
  | .copytruncate => world.truncatable
  | .read maxLines => maxLines = 0 || world.noticeable hash
  | _ => true

end LogWorld

section Invariant

variable {hash : Bytes → Digest} {world : LogWorld} {maxLines : ℕ}

/-- The file the tailer stands in, and the lines of the generations before it. -/
inductive Stands (hash : Bytes → Digest) (world : LogWorld) : List Bytes → Bytes → Prop where
  | unseen (inode : world.tailer.state.inode = 0) (offset : world.tailer.state.offset = 0)
      (len : world.tailer.state.fingerprintLen = none) (closed : world.tailer.file = none) :
      Stands hash world world.rotated world.disk.content
  | live {inode window : ℕ} (found : world.disk.fs.log = some inode)
      (same : world.tailer.state.inode = inode)
      (stamped : Stamped hash (world.disk.fs.data inode) world.tailer.state window)
      (unread : window = 0 → world.tailer.state.offset = 0)
      (file : world.tailer.file = none ∨ world.tailer.file = some inode) :
      Stands hash world world.rotated (world.disk.fs.data inode)
  | renamed {file : ℕ} {prior : List Bytes} (noticed : world.unnoticed = .renamed file)
      (apart : world.disk.Apart file) (same : world.tailer.state.inode = file)
      (lines : world.rotated = prior ++ linesOf (world.disk.fs.data file))
      (opened : world.tailer.file = some file ∨
        world.tailer.file = none ∧ linesOf (world.disk.fs.data file) = []) :
      Stands hash world prior (world.disk.fs.data file)
  | copied {file inode window : ℕ} {prior : List Bytes}
      (noticed : world.unnoticed = .copied file) (found : world.disk.fs.log = some inode)
      (apart : world.disk.Apart file) (same : world.tailer.state.inode = inode)
      (copy : world.disk.fs.one = some file)
      (stamped : Stamped hash (world.disk.fs.data file) world.tailer.state window)
      (positive : window ≠ 0)
      (lines : world.rotated = prior ++ linesOf (world.disk.fs.data file)) :
      Stands hash world prior (world.disk.fs.data file)

structure Follows (hash : Bytes → Digest) (world : LogWorld) : Prop where
  held : ∃ prior content, Stands hash world prior content ∧
    Held world.disk.fs prior content world.committed world.handed world.tailer
  apart : ∀ file ∈ world.tailer.draining, world.disk.Apart file
  sound : world.disk.Sound

theorem LogWorld.start_follows : Follows hash LogWorld.start := by
  refine ⟨⟨[], [], .unseen rfl rfl rfl rfl, ?_⟩, ?_, ?_, one_ne_zero⟩
  · refine ⟨⟨le_rfl, Or.inl rfl, rfl⟩, fun _ => rfl, ?_⟩
    intro uncommitted impossible
    exact absurd impossible (Option.some_ne_none _).symm
  · intro file member
    exact absurd member List.not_mem_nil
  · intro inode impossible
    exact absurd impossible (Option.some_ne_none _).symm

/-- A tailer that has only moved within the file it stands in. -/
theorem Stands.moved {prior : List Bytes} {content : Bytes} {tailer : LogTailer}
    {committed handed : List Bytes} (stands : Stands hash world prior content)
    (cursor : tailer.state = { world.tailer.state with offset := tailer.state.offset })
    (zero : world.tailer.state.offset = 0 → tailer.state.offset = 0)
    (file : tailer.file = world.tailer.file) :
    Stands hash { world with tailer, committed, handed } prior content := by
  have inode : tailer.state.inode = world.tailer.state.inode := by rw [cursor]
  have len : tailer.state.fingerprintLen = world.tailer.state.fingerprintLen := by rw [cursor]
  have fingerprint : tailer.state.fingerprint = world.tailer.state.fingerprint := by rw [cursor]
  have stamps : ∀ {bytes : Bytes} {window : ℕ}, Stamped hash bytes world.tailer.state window →
      Stamped hash bytes tailer.state window := fun stamped =>
    ⟨len.trans stamped.len, stamped.fits, stamped.narrow, fingerprint.trans stamped.taken⟩
  cases stands with
  | unseen unknown start unstamped closed =>
      exact .unseen (inode.trans unknown) (zero start) (len.trans unstamped) (file.trans closed)
  | live found same stamped unread opened =>
      refine .live found (inode.trans same) (stamps stamped) (fun empty => zero (unread empty)) ?_
      rw [file]
      exact opened
  | renamed noticed apart same lines opened =>
      refine .renamed noticed apart (inode.trans same) lines ?_
      rw [file]
      exact opened
  | copied noticed found apart same copy stamped positive lines =>
      exact .copied noticed found apart (inode.trans same) copy (stamps stamped) positive lines

theorem Follows.commit (follows : Follows hash world) : Follows hash world.commit := by
  rcases follows.held with ⟨prior, content, stands, held⟩
  refine ⟨⟨prior, content, ?_, held.commit⟩, ?_, follows.sound⟩
  · exact stands.moved rfl id rfl
  · intro inode member
    exact follows.apart inode (draining_commitBatch member)

theorem Follows.rewind (follows : Follows hash world) : Follows hash world.rewind := by
  rcases follows.held with ⟨prior, content, stands, held⟩
  rcases rewindBatch_fields held with ⟨cursor, back, file⟩
  refine ⟨⟨prior, content, ?_, held.rewind⟩, ?_, follows.sound⟩
  · apply stands.moved cursor ?_ file
    intro zero
    omega
  · intro inode member
    exact follows.apart inode (held.draining_rewindBatch member)

/-- A call that finds the log stands in it once it has looked for a rotation. -/
theorem Follows.noticed {inode : ℕ} (follows : Follows hash world)
    (noticeable : world.noticeable hash = true) (found : world.disk.fs.log = some inode) :
    Ready hash world.disk.fs inode (world.tailer.handleRotation hash fun _ => world.disk.fs) ∧
      Held world.disk.fs world.rotated (world.disk.fs.data inode) world.committed world.handed
        (world.tailer.handleRotation hash fun _ => world.disk.fs) ∧
      ∀ file ∈ (world.tailer.handleRotation hash fun _ => world.disk.fs).draining,
        world.disk.Apart file := by
  have queues : ∀ {file : ℕ} {after : LogTailer}, world.disk.Apart file →
      QueuedBehind file world.tailer after → ∀ other ∈ after.draining, world.disk.Apart other := by
    intro file after apart queued other member
    rw [queued.draining, List.mem_append, List.mem_singleton] at member
    rcases member with before | rfl
    · exact follows.apart other before
    · exact apart
  have leaves : ∀ {after : LogTailer}, LeftBehind world.tailer after →
      ∀ other ∈ after.draining, world.disk.Apart other := by
    intro after left other member
    rw [left.draining] at member
    exact follows.apart other member
  rcases follows.held with ⟨prior, content, stands, held⟩
  cases stands with
  | unseen unknown start unstamped closed =>
      have other : inode ≠ world.tailer.state.inode :=
        unknown.symm ▸ (follows.sound.known inode found).2
      rcases handleRotation_of_inodeChanged found other with ⟨ready, -, leave⟩
      have left := leave closed
      rw [Disk.content_of_log found] at held
      exact ⟨ready, held.keep (left.keeps start held.back), leaves left⟩
  | live log same stamped unread opened =>
      cases log.symm.trans found
      rcases handleRotation_of_stamped found same held.holds.inside stamped opened with
        ⟨ready, outcome⟩
      have keeps : KeepsPlace world.tailer
          (world.tailer.handleRotation hash fun _ => world.disk.fs) := by
        rcases outcome with keeps | ⟨empty, left⟩
        · exact keeps
        · exact left.keeps (unread empty) held.back
      refine ⟨ready, held.keep keeps, ?_⟩
      rw [LogTailer.draining, keeps.batch, keeps.drains]
      exact follows.apart
  | @renamed file _ noticed apart same lines opened =>
      have other : inode ≠ world.tailer.state.inode := by
        rintro rfl
        rw [same] at found
        exact apart.other found
      rcases handleRotation_of_inodeChanged found other with ⟨ready, queue, leave⟩
      rw [lines]
      rcases opened with opened | ⟨closed, blank⟩
      · exact ⟨ready, held.queued rfl (queue file opened), queues apart (queue file opened)⟩
      · have nothing := held.holds.nothing_ahead blank
        refine ⟨ready, held.left nothing ?_ (leave closed), leaves (leave closed)⟩
        intro uncommitted batch
        exact (held.batch uncommitted batch).holds.nothing_ahead blank
  | @copied file log window _ noticed there apart same copy stamped positive lines =>
      cases there.symm.trans found
      have copies := findGenerations_of_one copy stamped positive held.holds.inside
      have unempty : world.tailer.state.fingerprintLen ≠ some 0 := by
        rw [stamped.len]
        simpa using positive
      simp only [LogWorld.noticeable, noticed, stamped.len, Disk.content_of_log found,
        reduceCtorEq, decide_false, Bool.false_or, Bool.and_eq_true, Bool.not_eq_true',
        Bool.or_eq_true, decide_eq_true_eq, Option.all_eq_true] at noticeable
      rcases noticeable with ⟨unlike, intime⟩
      rcases handleRotation_of_found found same unempty unlike copies with ⟨ready, recovered⟩
      rw [lines]
      rcases Nat.lt_or_ge world.tailer.state.offset (world.disk.fs.data file).length with
        unread | through
      · have queued := recovered.queued unread
        exact ⟨ready, held.queued rfl queued, queues apart queued⟩
      · rw [storedGeneration, if_neg (Nat.not_lt.mpr through)] at recovered
        have left := recovered.left
        have nothing : linesOf ((world.disk.fs.data file).drop world.tailer.state.offset) = [] := by
          rw [List.drop_eq_nil_of_le through]
          rfl
        refine ⟨ready, held.left nothing ?_ left, leaves left⟩
        intro uncommitted batch
        rw [intime.resolve_left (Nat.not_lt.mpr through) uncommitted batch]
        exact nothing

/-- A call, in terms of the lines it takes. -/
theorem LogWorld.read_batchRead (wanted : 0 < maxLines) :
    ∃ takens exhausted live result,
      BatchRead (fun _ => world.disk.fs) (world.tailer.handleRotation hash fun _ => world.disk.fs)
        takens exhausted live result ∧
      world.read hash maxLines =
        { world with
          tailer := result.2
          handed := world.handed ++ texts (takens.flatten ++ live)
          unnoticed := if world.disk.fs.log.isSome then .none else world.unnoticed } := by
  rcases readBatch_batchRead wanted world.tailer with
    ⟨takens, exhausted, live, result, read, returned⟩
  refine ⟨takens, exhausted, live, result, read, ?_⟩
  simp [LogWorld.read, returned, wanted.ne']

variable (follows : Follows hash world)
include follows

theorem Follows.read_missing (wanted : 0 < maxLines)
    (missing : world.disk.fs.log = none) : Follows hash (world.read hash maxLines) := by
  rcases @LogWorld.read_batchRead hash world maxLines wanted with
    ⟨takens, exhausted, live, result, read, after⟩
  rw [handleRotation_of_missing missing] at read
  rcases read.missing missing with ⟨nothing, cursor, file⟩
  rcases follows.held with ⟨prior, content, stands, held⟩
  rw [after, missing]
  refine ⟨⟨prior, content, ?_, ?_⟩, ?_, follows.sound⟩
  · apply stands.moved
    · rw [cursor]
    · rw [cursor]
      exact id
    · exact file
  · apply held.read read
    rw [nothing]
    exact List.nil_prefix
  · rw [read.draining]
    exact follows.apart

theorem Follows.read_found {inode : ℕ} (noticeable : world.noticeable hash = true)
    (wanted : 0 < maxLines) (found : world.disk.fs.log = some inode) :
    Follows hash (world.read hash maxLines) := by
  rcases @LogWorld.read_batchRead hash world maxLines wanted with
    ⟨takens, exhausted, live, result, read, after⟩
  rcases follows.noticed noticeable found with ⟨ready, held, apart⟩
  rcases ready.stamped with ⟨window, stamped, empty⟩
  have behind := read.ahead
  simp only [liveContent, found] at behind
  have next := held.read read behind
  rw [after]
  refine ⟨⟨world.rotated, world.disk.fs.data inode, ?_, next⟩, ?_, follows.sound⟩
  · refine @Stands.live _ _ _ window found ?_ ?_ ?_ ?_
    · rw [read.state]
      exact ready.same
    · rw [read.state]
      exact { stamped with }
    · intro none
      have inside := next.holds.inside
      rw [empty none] at inside
      exact Nat.le_zero.mp inside
    · rw [read.file, found]
      split
      · exact ready.file
      · exact Or.inr rfl
  · rw [read.draining]
    exact apart

theorem Follows.read (admitted : world.admitted hash (.read maxLines) = true) :
    Follows hash (world.read hash maxLines) := by
  rcases Nat.eq_zero_or_pos maxLines with rfl | wanted
  · have same : world.read hash 0 = world := by
      simp [LogWorld.read, LogTailer.readBatch, LogTailer.readBatchBounded, LogTailer.readEntries]
    rw [same]
    exact follows
  · cases found : world.disk.fs.log with
    | none => exact follows.read_missing wanted found
    | some inode =>
        apply follows.read_found ?_ wanted found
        simpa [LogWorld.admitted, Nat.pos_iff_ne_zero.mp wanted] using admitted

theorem Follows.append (bytes : Bytes) : Follows hash (world.append bytes) := by
  rcases follows.held with ⟨prior, content, stands, held⟩
  have heldThere : Held (world.disk.append bytes).fs prior content world.committed world.handed
      world.tailer := by
    apply held.congr
    intro file member
    exact ((follows.apart file member).append bytes).2
  refine ⟨?_, ?_, follows.sound.append bytes⟩
  · cases stands with
    | unseen unknown start unstamped closed =>
        exact ⟨_, _, .unseen unknown start unstamped closed, heldThere.atStart start⟩
    | @live inode _ found same stamped unread opened =>
        have longer : world.disk.fs.data inode <+: (world.disk.append bytes).fs.data inode := by
          rw [Disk.append_data_log found]
          exact List.prefix_append _ _
        exact ⟨_, _, .live (Disk.append_log found bytes) same (stamped.grow longer) unread opened,
          heldThere.grow longer⟩
    | @renamed file _ noticed apart same lines opened =>
        rcases apart.append bytes with ⟨still, kept⟩
        rw [← kept] at lines opened heldThere
        exact ⟨prior, _, .renamed noticed still same lines opened, heldThere⟩
    | @copied file _ _ _ noticed found apart same copy stamped positive lines =>
        rcases apart.append bytes with ⟨still, kept⟩
        rw [← kept] at lines stamped heldThere
        exact ⟨prior, _, .copied noticed (Disk.append_log found bytes) still same
          ((Disk.append_copies bytes).1.trans copy) stamped positive lines, heldThere⟩
  · intro file member
    exact ((follows.apart file member).append bytes).1

theorem Follows.rename (renameable : world.renameable = true) : Follows hash world.rename := by
  rw [LogWorld.rename]
  cases found : world.disk.fs.log with
  | none => exact follows
  | some inode =>
      have here := Disk.content_of_log found
      simp only [LogWorld.renameable, here, found, Option.isNone_some, Bool.false_or,
        Bool.and_eq_true, decide_eq_true_eq, Bool.or_eq_true] at renameable
      rcases renameable with ⟨quiet, safe⟩
      rcases follows.held with ⟨prior, content, stands, held⟩
      have heldThere : Held world.disk.rename.fs prior content world.committed world.handed
          world.tailer := by
        apply held.congr
        intro file member
        rw [Disk.rename_data]
      refine ⟨?_, ?_, follows.sound.rename⟩
      · cases stands with
        | unseen unknown start unstamped closed =>
            have blank : linesOf (world.disk.fs.data inode) = [] := by
              apply safe.resolve_right
              rw [closed]
              exact (Option.some_ne_none inode).symm
            refine ⟨_, _, .unseen unknown start unstamped closed, ?_⟩
            simp only [here, blank, List.append_nil]
            exact heldThere.atStart start
        | live there same stamped unread opened =>
            cases there.symm.trans found
            have apart := Disk.apart_rename (follows.sound.known inode found).1
            rw [← Disk.rename_data] at heldThere safe
            refine ⟨_, _, .renamed rfl apart same ?_ ?_, heldThere⟩
            · rw [Disk.rename_data, here]
            · rcases opened with closed | opened
              · rw [closed] at safe
                exact Or.inr ⟨closed, safe.resolve_right (Option.some_ne_none _).symm⟩
              · exact Or.inl opened
        | renamed noticed | copied noticed => exact absurd (quiet.symm.trans noticed) (by simp)
      · intro file member
        exact Disk.apart_rename (follows.apart file member).old

theorem Follows.copytruncate
    (truncatable : world.truncatable = true) : Follows hash world.copytruncate := by
  rw [LogWorld.copytruncate]
  cases found : world.disk.fs.log with
  | none => exact follows
  | some inode =>
      have here := Disk.content_of_log found
      have log : world.disk.copytruncate.fs.log = some inode :=
        Disk.copytruncate_log.trans found
      simp only [LogWorld.truncatable, here, found, Option.isNone_some, Bool.false_or,
        Bool.and_eq_true, decide_eq_true_eq, Bool.or_eq_true, Option.some.injEq] at truncatable
      rcases truncatable with ⟨quiet, safe⟩
      rcases follows.held with ⟨prior, content, stands, held⟩
      have heldThere : Held world.disk.copytruncate.fs prior content world.committed world.handed
          world.tailer := by
        apply held.congr
        intro file member
        exact (follows.apart file member).copytruncate.2
      refine ⟨?_, ?_, follows.sound.copytruncate⟩
      · cases stands with
        | unseen unknown start unstamped closed =>
            have blank : linesOf (world.disk.fs.data inode) = [] := by
              apply safe.resolve_right
              rintro ⟨same, -⟩
              exact (follows.sound.known inode found).2 (same.symm.trans unknown)
            refine ⟨_, _, .unseen unknown start unstamped closed, ?_⟩
            simp only [here, blank, List.append_nil]
            exact heldThere.atStart start
        | @live _ window there same stamped unread opened =>
            cases there.symm.trans found
            rcases Nat.eq_zero_or_pos window with rfl | positive
            · have blank : linesOf (world.disk.fs.data inode) = [] := by
                apply safe.resolve_right
                rintro ⟨-, unempty⟩
                simp [stamped.len] at unempty
              refine ⟨_, _, .live log same ?_ unread opened, ?_⟩
              · refine ⟨stamped.len, Nat.zero_le _, Nat.zero_le _, ?_⟩
                rw [stamped.taken, List.take_zero, List.take_zero]
              · simp only [here, blank, List.append_nil]
                exact heldThere.atStart (unread rfl)
            · rcases follows.sound.copytruncate_copy found with ⟨one, -, copied, apart⟩
              rw [← copied] at stamped heldThere
              refine ⟨_, _, .copied rfl log apart same one stamped positive.ne' ?_, heldThere⟩
              simp only [copied, here]
        | renamed noticed | copied noticed => exact absurd (quiet.symm.trans noticed) (by simp)
      · intro file member
        exact (follows.apart file member).copytruncate.1

theorem Follows.step {action : LogAction}
    (admitted : world.admitted hash action = true) : Follows hash (world.step hash action) := by
  cases action with
  | append bytes => exact follows.append bytes
  | rename => exact follows.rename admitted
  | copytruncate => exact follows.copytruncate admitted
  | read maxLines => exact follows.read admitted
  | commit => exact follows.commit
  | rewind => exact follows.rewind

end Invariant

end Propolis
