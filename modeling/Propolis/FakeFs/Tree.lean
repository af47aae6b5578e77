import Propolis.FakeFs.Budget
import Propolis.Lib.Keyed
import Mathlib.Data.Finset.Card
import Mathlib.Data.List.Sort

/-!
# The fake filesystem

An immutable snapshot of the persona, under an overlay of what the session wrote and a set of
tombstones for what it removed.  Nodes the shell derives (`/proc/<pid>`) are read after the
snapshot.  Paths given to the operations are logical: each operation first resolves the links.

The clock of a write is an argument.  The content of a synthetic executable is a function of its
description, which `read_range` is given.
-/

namespace Propolis.Filesystem

open Bytes Paths

def readCap : ℕ := 2 ^ 20

def maxSymlinkHops : ℕ := 40

def modeDirectory : UInt32 := 0o040755

def modeSymlink : UInt32 := 0o120777

def execBits : UInt32 := 0o111

inductive FsError
  | noSuchDirectory (missing : Path)
  | readOnly
  | exists_
  | noSuchFile
  | isADirectory
  | notADirectory
  | tooManyLinks
  | noSpace
  | fileTooLarge
  | nameTooLong
  deriving DecidableEq

def FsError.ofBudget : BudgetError → FsError
  | .noSpace => .noSpace
  | .tooLarge => .fileTooLarge
  | .nameTooLong => .nameTooLong

section Content

structure ElfImage where
  header : Bytes
  len : ℕ
  newlineAt : Option ℕ
  name : Bytes
  deriving DecidableEq

inductive Piece
  | bytes (content : Bytes)
  | fill (byte : UInt8) (len : ℕ)
  | counter (seed : UInt64) (len : ℕ)
  | elf (image : ElfImage)
  deriving DecidableEq

def Piece.len : Piece → ℕ
  | .bytes content => content.length
  | .fill _ len => len
  | .counter _ len => len
  | .elf image => image.len

/-- The bytes that are held as such; the other pieces are descriptions. -/
def Piece.ownedBytes : Piece → ℕ
  | .bytes content => content.length
  | _ => 0

/-- A file's content: its length is that of its pieces, and fits 64 bits. -/
structure Blob where
  pieces : List Piece
  len : ℕ
  len_eq : len = (pieces.map Piece.len).sum
  few : pieces.length ≤ 64
  fits : len ≤ u64Max
  deriving DecidableEq

def Blob.ownedBytes (blob : Blob) : ℕ :=
  (blob.pieces.map Piece.ownedBytes).sum

/-- Byte of the counter-mode stream of a seed. -/
def counterByte (seed : UInt64) (index : ℕ) : UInt8 :=
  let block : UInt64 := UInt64.ofNat (index / 8) + 1
  let first := seed + block * 0x9E3779B97F4A7C15
  let second := (first ^^^ (first >>> 30)) * 0xBF58476D1CE4E5B9
  let third := (second ^^^ (second >>> 27)) * 0x94D049BB133111EB
  let mixed := third ^^^ (third >>> 31)
  (mixed >>> UInt64.ofNat (8 * (index % 8))).toUInt8

def Piece.range (elfByte : ElfImage → ℕ → UInt8) (from_ to_ : ℕ) : Piece → Bytes
  | .bytes content => if to_ ≤ content.length then (content.take to_).drop from_ else []
  | .fill byte _ => List.replicate (to_ - from_) byte
  | .counter seed _ => (List.range' from_ (to_ - from_)).map (counterByte seed)
  | .elf image => (List.range' from_ (to_ - from_)).map (elfByte image)

/-- The pieces' parts of the range `[off, end_)`, the first piece starting at `start`. -/
def Blob.pieceRanges (elfByte : ElfImage → ℕ → UInt8) (off end_ : ℕ) : ℕ → List Piece → Bytes
  | _, [] => []
  | start, piece :: rest =>
      let pieceEnd := min (start + piece.len) u64Max
      (if off < pieceEnd ∧ start < end_ then
        piece.range elfByte (max off start - start) (min end_ pieceEnd - start)
      else []) ++
        if end_ ≤ pieceEnd then [] else Blob.pieceRanges elfByte off end_ pieceEnd rest

def Blob.readRange (elfByte : ElfImage → ℕ → UInt8) (blob : Blob) (off maxLen : ℕ) : Bytes :=
  let end_ := min (min (off + maxLen) u64Max) blob.len
  if end_ ≤ off then [] else Blob.pieceRanges elfByte off end_ 0 blob.pieces

inductive Device
  | null
  | zero
  | full
  | random
  | urandom
  | tty
  | fdLink (number : UInt8)
  deriving DecidableEq

def Device.read (off maxLen : ℕ) : Device → Bytes
  | .null | .tty | .fdLink _ => []
  | .zero | .full => List.replicate (min maxLen readCap) 0
  | .random => (List.range (min maxLen readCap)).map fun i =>
      counterByte 0x5eed0001 (min (off + i) u64Max)
  | .urandom => (List.range (min maxLen readCap)).map fun i =>
      counterByte 0x5eed0002 (min (off + i) u64Max)

def Device.write : Device → Except FsError Unit
  | .full => .error .noSpace
  | _ => .ok ()

end Content

section Nodes

inductive NodeKind
  | regular (blob : Blob)
  | directory (entries : List Name)
  | symlink (target : Bytes)
  | device (device : Device)
  deriving DecidableEq

structure Metadata where
  mode : UInt32
  uid : UInt32
  gid : UInt32
  mtime : ℤ
  deriving DecidableEq

structure Node where
  kind : NodeKind
  meta_ : Metadata
  deriving DecidableEq

/-- A node the session writes: owned by root, with the time of the write. -/
def Node.stamped (kind : NodeKind) (mode : UInt32) (now : ℤ) : Node :=
  ⟨kind, ⟨mode, 0, 0, now⟩⟩

/-- The bytes a node is charged for: those of a regular file. -/
def nodeOwnedBytes (node : Node) : ℕ :=
  match node.kind with
  | .regular blob => blob.ownedBytes
  | _ => 0

structure MountEntry where
  point : Bytes
  opts : Bytes
  deriving DecidableEq

def MountEntry.opt (mount : MountEntry) (name : Bytes) : Bool :=
  (mount.opts.splitOn 44).any (· = name)

/-- The path is the mount point or below it. -/
def MountEntry.covers (mount : MountEntry) (path : Bytes) : Bool :=
  mount.point = [slash] ∨ path = mount.point ∨ (mount.point ++ [slash]).isPrefixOf path

structure Snapshot where
  nodes : List (Path × Node)
  mounts : List MountEntry
  deriving DecidableEq

/-- Of the mounts that cover a path, the last with the longest point. -/
def Snapshot.mountFor (snapshot : Snapshot) (physical : Path) : Option MountEntry :=
  (snapshot.mounts.filter (·.covers (text physical))).foldl
    (fun best mount => match best with
      | some longest => if longest.point.length ≤ mount.point.length then some mount else best
      | none => some mount) none

def Snapshot.isRo (snapshot : Snapshot) (physical : Path) : Bool :=
  (snapshot.mountFor physical).any (·.opt (ofText "ro"))

def Snapshot.isNoexec (snapshot : Snapshot) (physical : Path) : Bool :=
  (snapshot.mountFor physical).any (·.opt (ofText "noexec"))

end Nodes

section State

/-- One connection's filesystem, with the budget it charges. -/
structure FakeFs where
  snapshot : Snapshot
  generated : List (Path × Node)
  nodes : List (Path × Node)
  tombstones : Finset Path
  attrs : List (Path × UInt32)
  budget : ConnectionBudget
  deriving DecidableEq

namespace FakeFs

/-- Nothing written yet. -/
def fromSnapshot (snapshot : Snapshot) (generated : List (Path × Node)) (limits : BudgetLimits) :
    FakeFs :=
  ⟨snapshot, generated, [], ∅, [], .new limits⟩

/-- The node that is there when the session has written none. -/
def baseAt (fs : FakeFs) (physical : Path) : Option Node :=
  (fs.snapshot.nodes.lookup physical).or (fs.generated.lookup physical)

def nodeAt (fs : FakeFs) (physical : Path) : Option Node :=
  if physical ∈ fs.tombstones then none
  else (fs.nodes.lookup physical).or (fs.baseAt physical)

end FakeFs

end State

section Resolving

variable (nodeAt : Path → Option Node) (followFinal allowMissing : Bool)

/-- One pass over the pending names; a link that is followed goes on with `jump`. -/
def walk (jump : List Name → Path → Except FsError Path) :
    List Name → Path → Except FsError Path
  | [], resolved => .ok resolved
  | component :: pending, resolved =>
      if component.val = ofText ".." then walk jump pending resolved.dropLast
      else match (nodeAt (resolved ++ [component])).map Node.kind with
        | some (.symlink target) =>
            if pending ≠ [] ∨ followFinal then
              jump (namesOf target ++ pending) (if target.head? = some slash then [] else resolved)
            else walk jump pending (resolved ++ [component])
        | some (.directory _) => walk jump pending (resolved ++ [component])
        | some (.regular _) | some (.device _) =>
            if pending ≠ [] then .error .notADirectory
            else walk jump pending (resolved ++ [component])
        | none =>
            if pending ≠ [] ∧ allowMissing = false then
              .error (.noSuchDirectory (resolved ++ [component]))
            else walk jump pending (resolved ++ [component])

/-- Resolution with so many links left to follow. -/
def resolveWithin : ℕ → List Name → Path → Except FsError Path
  | 0 => walk nodeAt followFinal allowMissing fun _ _ => .error .tooManyLinks
  | hops + 1 => walk nodeAt followFinal allowMissing (resolveWithin hops)

/-- The names of a logical path. -/
def logicalNames (path : Bytes) : List Name :=
  (namesOf path).filter fun name => name.val ≠ ofText "."

end Resolving

namespace FakeFs

def resolveWith (fs : FakeFs) (path : Bytes) (followFinal allowMissing : Bool) :
    Except FsError Path :=
  resolveWithin fs.nodeAt followFinal allowMissing maxSymlinkHops (logicalNames path) []

def resolve (fs : FakeFs) (path : Bytes) (followFinal : Bool) : Except FsError Path :=
  fs.resolveWith path followFinal false

section Reading

/-- The physical path and the node a path names. -/
def lookup (fs : FakeFs) (path : Bytes) : Option (Path × Node) :=
  match fs.resolve path true with
  | .ok physical => (fs.nodeAt physical).map fun node => (physical, node)
  | .error _ => none

inductive FileKind
  | regular
  | directory
  | symlink
  | charDevice
  deriving DecidableEq

structure Stat where
  kind : FileKind
  mode : UInt32
  uid : UInt32
  gid : UInt32
  mtime : ℤ
  size : ℕ
  readOnly : Bool
  noExec : Bool
  physical : Path
  deriving DecidableEq

def statNode (fs : FakeFs) (physical : Path) (node : Node) : Stat where
  kind := match node.kind with
    | .regular _ => .regular
    | .directory _ => .directory
    | .symlink _ => .symlink
    | .device _ => .charDevice
  mode := node.meta_.mode
  uid := node.meta_.uid
  gid := node.meta_.gid
  mtime := node.meta_.mtime
  size := match node.kind with
    | .regular blob => blob.len
    | .directory _ => 0
    | .symlink target => target.length
    | .device _ => 0
  readOnly := fs.snapshot.isRo physical
  noExec := fs.snapshot.isNoexec physical
  physical := physical

def stat (fs : FakeFs) (path : Bytes) (follow : Bool) : Option Stat :=
  match fs.resolve path follow with
  | .ok physical => (fs.nodeAt physical).map (fs.statNode physical)
  | .error _ => none

def readRange (elfByte : ElfImage → ℕ → UInt8) (fs : FakeFs) (path : Bytes) (off maxLen : ℕ) :
    Except FsError Bytes :=
  match fs.resolve path true with
  | .error (.noSuchDirectory _) => .error .noSuchFile
  | .error error => .error error
  | .ok physical =>
      match (fs.nodeAt physical).map Node.kind with
      | some (.regular blob) => .ok (blob.readRange elfByte off maxLen)
      | some (.device device) => .ok (device.read off maxLen)
      | some (.directory _) => .error .isADirectory
      | some (.symlink _) | none => .error .noSuchFile

/-- Whether a listing has a name. -/
def lists (entries : List Name) (name : Name) : Bool :=
  name ∈ entries

/-- A name a listing does not have yet is put at its end. -/
def addName (entries : List Name) (name : Name) : List Name :=
  if name ∈ entries then entries else entries ++ [name]

/-- The names in a directory: those of its listing, of the derived nodes in order, and of what the
session wrote, without what it removed. -/
def namesIn (fs : FakeFs) (physical : Path) (entries : List Name) : List Name :=
  let generated := (fs.generated.filterMap fun entry => childName physical entry.1).insertionSort
    fun first second => first.val ≤ second.val
  let written := fs.nodes.filterMap fun entry => childName physical entry.1
  (written.foldl addName (generated.foldl addName entries)).filter fun name =>
    physical ++ [name] ∉ fs.tombstones

def listDir (fs : FakeFs) (path : Bytes) : Option (List Name) :=
  match fs.lookup path with
  | some (physical, node) =>
      match node.kind with
      | .directory entries => some (fs.namesIn physical entries)
      | _ => none
  | none => none

end Reading

section Writing

/-- A missing parent under a read-only mount is refused as read-only. -/
def resolveForWrite (fs : FakeFs) (path : Bytes) (followFinal : Bool) : Except FsError Path :=
  match fs.resolve path followFinal with
  | .error (.noSuchDirectory missing) =>
      if fs.snapshot.isRo missing then .error .readOnly else .error (.noSuchDirectory missing)
  | result => result

/-- The path has an overlay node or a tombstone. -/
def holdsSlot (fs : FakeFs) (physical : Path) : Bool :=
  (fs.nodes.lookup physical).isSome ∨ physical ∈ fs.tombstones

def overlayOwnedBytes (fs : FakeFs) (physical : Path) : ℕ :=
  ((fs.nodes.lookup physical).map nodeOwnedBytes).getD 0

def put (fs : FakeFs) (physical : Path) (node : Node) : FakeFs :=
  { fs with
    tombstones := fs.tombstones.erase physical
    nodes := Keyed.insert physical node fs.nodes }

/-- The charges of a write, and the write. -/
def storeBlob (fs : FakeFs) (physical : Path) (blob : Blob) (mode : UInt32) (now : ℤ) :
    Except FsError Unit × FakeFs :=
  let node := Node.stamped (.regular blob) mode now
  let oldBytes := fs.overlayOwnedBytes physical
  let pathBytes := if fs.holdsSlot physical then 0 else (text physical).length
  let charged := min (blob.ownedBytes + pathBytes) u64Max
  match fs.budget.replaceBytes oldBytes charged with
  | (.error error, budget) => (.error (.ofBudget error), { fs with budget := budget })
  | (.ok _, budget) =>
      if fs.holdsSlot physical then (.ok (), put { fs with budget := budget } physical node)
      else match budget.chargeNode with
        | (.error error, refused) =>
            (.error (.ofBudget error),
              { fs with budget := (refused.replaceBytes charged oldBytes).2 })
        | (.ok _, taken) => (.ok (), put { fs with budget := taken } physical node)

def writeBlob (fs : FakeFs) (path : Bytes) (blob : Blob) (mode : UInt32) (now : ℤ) :
    Except FsError Unit × FakeFs :=
  match fs.budget.checkName path with
  | .error error => (.error (.ofBudget error), fs)
  | .ok _ =>
      match fs.resolveForWrite path true with
      | .error error => (.error error, fs)
      | .ok physical =>
          if fs.snapshot.isRo physical then (.error .readOnly, fs)
          else match fs.nodeAt physical with
            | none => fs.storeBlob physical blob mode now
            | some existing =>
                match existing.kind with
                | .directory _ => (.error .isADirectory, fs)
                | .device device => (device.write, fs)
                | .regular _ =>
                    fs.storeBlob physical blob (mode ||| (existing.meta_.mode &&& execBits)) now
                | .symlink _ => fs.storeBlob physical blob mode now

/-- A node where none is: its path and `extra` bytes are charged unless the slot is there. -/
def create (fs : FakeFs) (path : Bytes) (followFinal : Bool) (extra : ℕ) (node : Node) :
    Except FsError Unit × FakeFs :=
  match fs.budget.checkName path with
  | .error error => (.error (.ofBudget error), fs)
  | .ok _ =>
      match fs.resolveForWrite path followFinal with
      | .error error => (.error error, fs)
      | .ok physical =>
          if fs.snapshot.isRo physical then (.error .readOnly, fs)
          else if (fs.nodeAt physical).isSome then (.error .exists_, fs)
          else if physical ∈ fs.tombstones then (.ok (), fs.put physical node)
          else
            let bytes := min ((text physical).length + extra) u64Max
            match fs.budget.chargeBytes bytes with
            | (.error error, budget) => (.error (.ofBudget error), { fs with budget := budget })
            | (.ok _, budget) =>
                match budget.chargeNode with
                | (.error error, refused) =>
                    (.error (.ofBudget error), { fs with budget := refused.refundBytes bytes })
                | (.ok _, taken) => (.ok (), put { fs with budget := taken } physical node)

def makeDir (fs : FakeFs) (path : Bytes) (now : ℤ) : Except FsError Unit × FakeFs :=
  fs.create path true 0 (.stamped (.directory []) modeDirectory now)

def createSymlink (fs : FakeFs) (path target : Bytes) (now : ℤ) : Except FsError Unit × FakeFs :=
  fs.create path false target.length (.stamped (.symlink target) modeSymlink now)

/-- What the session wrote below a directory goes with it, and its bytes come back. -/
def dropBelow (fs : FakeFs) (physical : Path) : FakeFs :=
  let doomed := fs.nodes.filter fun entry => below physical entry.1
  { fs with
    nodes := fs.nodes.filter fun entry => !below physical entry.1
    budget := doomed.foldl (fun budget entry => budget.refundBytes (nodeOwnedBytes entry.2))
      fs.budget }

/-- The bytes of a written node come back; its slot does not. -/
def dropNode (fs : FakeFs) (physical : Path) : FakeFs :=
  { fs with
    attrs := fs.attrs.map fun entry =>
      if entry.1 = physical ∨ below physical entry.1 then (entry.1, 0) else entry
    nodes := Keyed.erase physical fs.nodes
    budget := fs.budget.refundBytes (fs.overlayOwnedBytes physical) }

/-- The tombstone takes the slot of the node that was written there, or a new one. -/
def bury (fs : FakeFs) (physical : Path) (written : Bool) : FakeFs :=
  { fs with
    tombstones := insert physical fs.tombstones
    budget := if written then fs.budget else fs.budget.chargeNodeUnchecked }

def removeAt (fs : FakeFs) (physical : Path) : FakeFs :=
  let cleared := match (fs.nodeAt physical).map Node.kind with
    | some (.directory _) => fs.dropBelow physical
    | _ => fs
  if (fs.nodeAt physical).isSome then
    (cleared.dropNode physical).bury physical (cleared.nodes.lookup physical).isSome
  else cleared.dropNode physical

def removePath (fs : FakeFs) (path : Bytes) : Except FsError Bool × FakeFs :=
  match fs.resolve path false with
  | .error (.noSuchDirectory missing) =>
      if fs.snapshot.isRo missing then (.error .readOnly, fs) else (.ok false, fs)
  | .error _ => (.ok false, fs)
  | .ok physical =>
      if fs.snapshot.isRo physical then (.error .readOnly, fs)
      else (.ok (fs.nodeAt physical).isSome, fs.removeAt physical)

end Writing

end FakeFs

end Propolis.Filesystem
