import Propolis.Lib.Run
import Propolis.Lib.Sha256
import Propolis.Tailer.Rotating

/-!
# Rewinding across rotations

In every run of admitted steps, what was appended is what was committed, what was
handed out since, and what reading on returns; and after a rewind reading on
returns what was handed out once more, and then the same.

Where a step is not admitted, lines are lost: `rotation_loses_lines` has a run for
each of the conditions.
-/

namespace Propolis

open Bytes

section Results

variable {hash : Bytes → Digest} {world : LogWorld}

/-- Reading on returns these lines, in this order, and all of them once the log is there. -/
def LogWorld.Returns (hash : Bytes → Digest) : LogWorld → List Bytes → Prop :=
  Run.Yields (fun world size => world.read hash size)
    (fun world size => world.admitted hash (.read size)) (0 < ·) (·.disk.fs.log.isSome) (·.handed)

/-- What is still to be handed out follows what was. -/
theorem Follows.remaining (follows : Follows hash world) :
    world.committed ++ world.handed <+: texts world.written := by
  rcases follows.held with ⟨prior, content, stands, held⟩
  have beginning : prior ++ linesOf content <+: world.written := by
    cases stands with
    | unseen => exact List.prefix_rfl
    | live found =>
        exact ⟨[], by rw [LogWorld.written, Disk.content, found, List.append_nil]⟩
    | renamed _ _ _ lines | copied _ _ _ _ _ _ _ lines =>
        rw [← lines]
        exact List.prefix_append _ _
  rcases beginning with ⟨later, whole⟩
  rw [← whole, texts_append, held.holds.whole, List.append_assoc]
  exact List.prefix_append _ _

/-- A call that finds the log hands out a line, if there is one left. -/
theorem Follows.read_more {maxLines inode : ℕ} (follows : Follows hash world)
    (noticeable : world.noticeable hash = true) (wanted : 0 < maxLines)
    (found : world.disk.fs.log = some inode) :
    texts world.written = world.committed ++ world.handed ∨
      world.handed.length < (world.read hash maxLines).handed.length := by
  rcases @LogWorld.read_batchRead hash world maxLines wanted with
    ⟨takens, exhausted, live, result, read, after⟩
  rcases follows.noticed noticeable found with ⟨-, held, -⟩
  rw [after, LogWorld.written, Disk.content_of_log found, held.holds.whole]
  exact read.more found

/-- Calls leave the log alone. -/
theorem Follows.returns {lines : List Bytes} (follows : Follows hash world)
    (whole : texts world.written = world.committed ++ lines) : world.Returns hash lines := by
  refine Run.yields_of_meets (Follows hash) (fun world => (world.committed, texts world.written))
    Prod.fst Prod.snd (fun _ _ guard before => before.read guard) (fun _ _ => rfl)
    (fun _ _ => id) (fun _ _ => List.prefix_append _ _) (fun _ before => before.remaining) ?_
    follows whole
  intro reached size guard positive before present
  rcases Option.isSome_iff_exists.mp present with ⟨inode, found⟩
  apply before.read_more ?_ positive found
  simpa [LogWorld.admitted, positive.ne'] using guard

/-- Nothing that was handed out is lost to a rewind, nor what was not handed out yet. -/
theorem rewind_loses_nothing (hash : Bytes → Digest) (actions : List LogAction)
    (admitted : Run.meets (LogWorld.step hash) (LogWorld.admitted hash) LogWorld.start actions =
      true) :
    let world := LogWorld.start.run hash actions
    ∃ later, texts world.written = world.committed ++ (world.handed ++ later) ∧
      world.Returns hash (world.handed ++ later) ∧
      world.rewind.Returns hash (world.handed ++ later) := by
  intro world
  have follows : Follows hash world :=
    Run.invariant_of_meets (Follows hash) (fun _ _ guard before => before.step guard)
      LogWorld.start_follows admitted
  rcases follows.remaining with ⟨later, whole⟩
  rw [List.append_assoc] at whole
  exact ⟨later, whole.symm, follows.returns whole.symm, follows.rewind.returns whole.symm⟩

/-- Two batches are read around a rename and a copytruncate, and rewound. -/
def rotatedActions : List LogAction :=
  [.append (ofText "a\nb\n"), .read 1, .commit, .read 1, .rename, .append (ofText "c\nd\n"),
    .read 1, .append (ofText "e\n"), .copytruncate, .append (ofText "f\n"), .read 1]

theorem rewind_loses_nothing_rotated :
    Run.meets (LogWorld.step sha256) (LogWorld.admitted sha256) LogWorld.start rotatedActions =
        true ∧
      let world := LogWorld.start.run sha256 rotatedActions
      ∃ later, texts world.written = world.committed ++ (world.handed ++ later) ∧
        world.Returns sha256 (world.handed ++ later) ∧
        world.rewind.Returns sha256 (world.handed ++ later) := by
  have admitted : Run.meets (LogWorld.step sha256) (LogWorld.admitted sha256) LogWorld.start
      rotatedActions = true := by decide +kernel
  exact ⟨admitted, rewind_loses_nothing sha256 rotatedActions admitted⟩

/-- What a run of a log has handed out, and what was appended. -/
def outcome (actions : List LogAction) : List Bytes × List Bytes :=
  let world := LogWorld.start.run sha256 actions
  (world.committed ++ world.handed, texts world.written)

/-- Lines lost to a rewind behind a truncation noticed too late, to a file renamed before it was
opened, to a log that was empty when it was fingerprinted, and to one that begins like the
truncated one did when it was fingerprinted. -/
theorem rotation_loses_lines :
    outcome [.append (ofText "a\n"), .read 9, .copytruncate, .append (ofText "b\n"), .read 9,
        .rewind, .read 9, .read 9] = ([ofText "b"], [ofText "a", ofText "b"]) ∧
      outcome [.append (ofText "a\n"), .read 9, .rename, .append (ofText "b\n"), .rename,
        .append (ofText "c\n"), .read 9, .rewind, .read 9, .read 9] =
          ([ofText "a", ofText "c"], [ofText "a", ofText "b", ofText "c"]) ∧
      outcome [.append [], .read 9, .append (ofText "a\n"), .copytruncate, .read 9,
        .append (ofText "b\n"), .rewind, .read 9, .read 9] =
          ([ofText "b"], [ofText "a", ofText "b"]) ∧
      outcome [.append (ofText "a\n"), .read 9, .commit, .append (ofText "b\n"), .copytruncate,
        .append (ofText "a\nc\n"), .read 9, .rewind, .read 9, .read 9] =
          ([ofText "a", ofText "c"], [ofText "a", ofText "b", ofText "a", ofText "c"]) := by
  decide +kernel

end Results

end Propolis
