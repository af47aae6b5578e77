import Mathlib.Logic.Function.Basic
import Propolis.Tailer.LogTailer

/-!
# The files of a rotated log

A log is appended to, renamed away to `<log>.1`, or copied there and truncated; what
stood at `<log>.1` goes to `<log>.2`.  New files and copies get inode numbers no
file has had, so that a file that is `Apart` from the log, a rotated copy or a file
renamed away, is never written again.
-/

namespace Propolis

open Bytes

/-- The files under a log path; `next` is an inode number no file has had. -/
structure Disk where
  fs : Fs
  next : ℕ

namespace Disk

def empty : Disk := ⟨⟨fun _ => [], none, none, none⟩, 1⟩

/-- The log as it stands; nothing where there is none. -/
def content (disk : Disk) : Bytes :=
  match disk.fs.log with
  | some inode => disk.fs.data inode
  | none => []

def append (bytes : Bytes) (disk : Disk) : Disk :=
  match disk.fs.log with
  | some inode =>
      { disk with fs :=
          { disk.fs with data :=
              Function.update disk.fs.data inode (disk.fs.data inode ++ bytes) } }
  | none =>
      { fs := { disk.fs with
          data := Function.update disk.fs.data disk.next bytes, log := some disk.next }
        next := disk.next + 1 }

def rename (disk : Disk) : Disk :=
  match disk.fs.log with
  | some inode =>
      { disk with fs := { disk.fs with log := none, one := some inode, two := disk.fs.one } }
  | none => disk

def copytruncate (disk : Disk) : Disk :=
  match disk.fs.log with
  | some inode =>
      { fs := { disk.fs with
          data := Function.update
            (Function.update disk.fs.data disk.next (disk.fs.data inode)) inode []
          one := some disk.next, two := disk.fs.one }
        next := disk.next + 1 }
  | none => disk

/-- The log is a file, and numbers not yet given are free. -/
structure Sound (disk : Disk) : Prop where
  known : ∀ inode, disk.fs.log = some inode → inode < disk.next ∧ inode ≠ 0
  positive : disk.next ≠ 0

/-- A file that is not the log. -/
structure Apart (disk : Disk) (file : ℕ) : Prop where
  old : file < disk.next
  other : disk.fs.log ≠ some file

variable {disk : Disk} {inode file : ℕ}

theorem content_of_log (found : disk.fs.log = some inode) :
    disk.content = disk.fs.data inode := by
  rw [content, found]

section Append

theorem append_log (found : disk.fs.log = some inode) (bytes : Bytes) :
    (disk.append bytes).fs.log = some inode := by
  rw [append, found]
  exact found

theorem append_data_log (found : disk.fs.log = some inode) (bytes : Bytes) :
    (disk.append bytes).fs.data inode = disk.fs.data inode ++ bytes := by
  rw [append, found]
  exact Function.update_self _ _ _

theorem append_copies (bytes : Bytes) :
    (disk.append bytes).fs.one = disk.fs.one ∧ (disk.append bytes).fs.two = disk.fs.two := by
  rw [append]
  cases disk.fs.log with
  | none => exact ⟨rfl, rfl⟩
  | some inode => exact ⟨rfl, rfl⟩

theorem Sound.append (sound : disk.Sound) (bytes : Bytes) : (disk.append bytes).Sound := by
  rw [Disk.append]
  cases found : disk.fs.log with
  | none =>
      refine ⟨?_, Nat.succ_ne_zero _⟩
      intro inode log
      cases log
      exact ⟨Nat.lt_succ_self _, sound.positive⟩
  | some inode => exact ⟨sound.known, sound.positive⟩

theorem Apart.append (apart : disk.Apart file) (bytes : Bytes) :
    (disk.append bytes).Apart file ∧ (disk.append bytes).fs.data file = disk.fs.data file := by
  rw [Disk.append]
  cases found : disk.fs.log with
  | none =>
      refine ⟨⟨Nat.lt_succ_of_lt apart.old, ?_⟩, Function.update_of_ne apart.old.ne _ _⟩
      exact fun equal => apart.old.ne (Option.some.inj equal).symm
  | some inode =>
      refine ⟨⟨apart.old, apart.other⟩, Function.update_of_ne ?_ _ _⟩
      rintro rfl
      exact apart.other found

end Append

section Rename

theorem rename_log : disk.rename.fs.log = none := by
  rw [rename]
  cases found : disk.fs.log with
  | none => exact found
  | some inode => rfl

theorem rename_data : disk.rename.fs.data = disk.fs.data := by
  rw [rename]
  cases disk.fs.log with
  | none => rfl
  | some inode => rfl

theorem rename_next : disk.rename.next = disk.next := by
  rw [rename]
  cases disk.fs.log with
  | none => rfl
  | some inode => rfl

theorem Sound.rename (sound : disk.Sound) : disk.rename.Sound := by
  refine ⟨?_, ?_⟩
  · intro inode found
    rw [rename_log] at found
    exact absurd found (Option.some_ne_none _).symm
  · rw [rename_next]
    exact sound.positive

theorem apart_rename (old : file < disk.next) : disk.rename.Apart file := by
  refine ⟨?_, ?_⟩
  · rw [rename_next]
    exact old
  · rw [rename_log]
    exact (Option.some_ne_none _).symm

end Rename

section Copytruncate

theorem copytruncate_log : disk.copytruncate.fs.log = disk.fs.log := by
  rw [copytruncate]
  cases found : disk.fs.log with
  | none => exact found
  | some inode => exact found

/-- The copy holds what was truncated. -/
theorem Sound.copytruncate_copy (sound : disk.Sound) (found : disk.fs.log = some inode) :
    disk.copytruncate.fs.one = some disk.next ∧ disk.copytruncate.fs.two = disk.fs.one ∧
      disk.copytruncate.fs.data disk.next = disk.fs.data inode ∧
      disk.copytruncate.Apart disk.next := by
  have old := (sound.known inode found).1
  rw [copytruncate, found]
  refine ⟨rfl, rfl, ?_, Nat.lt_succ_self _, ?_⟩
  · exact (Function.update_of_ne old.ne' _ _).trans (Function.update_self _ _ _)
  · intro equal
    exact old.ne (Option.some.inj (found.symm.trans equal))

theorem Sound.copytruncate (sound : disk.Sound) : disk.copytruncate.Sound := by
  rw [Disk.copytruncate]
  cases found : disk.fs.log with
  | none => exact sound
  | some inode =>
      refine ⟨?_, Nat.succ_ne_zero _⟩
      intro file log
      have before := sound.known file log
      exact ⟨Nat.lt_succ_of_lt before.1, before.2⟩

theorem Apart.copytruncate (apart : disk.Apart file) :
    disk.copytruncate.Apart file ∧ disk.copytruncate.fs.data file = disk.fs.data file := by
  rw [Disk.copytruncate]
  cases found : disk.fs.log with
  | none => exact ⟨apart, rfl⟩
  | some inode =>
      have different : file ≠ inode := by
        rintro rfl
        exact apart.other found
      refine ⟨⟨Nat.lt_succ_of_lt apart.old, apart.other⟩, ?_⟩
      exact (Function.update_of_ne different _ _).trans (Function.update_of_ne apart.old.ne _ _)

end Copytruncate

end Disk

end Propolis
