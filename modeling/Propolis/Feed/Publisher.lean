import Propolis.Lib.Crashing
import Propolis.Lib.Digits
import Propolis.Lib.Sha256
import Propolis.Scoring.Domain

/-!
# The publisher

`Publisher::publish` (`publisher.rs`) over the three sibling directories it works
on: `output_dir`, `.previous` and `.staging`.  Any operation on them may fail or be
the last one of the process; a removal that is cut off leaves any part of the
directory, a write any beginning of the file, and a rename is made or not made.

The texts of the exporters, of the time stamps and of the manifest's JSON are
parameters (`Exporters`); so is what the exclusion engine excludes.
-/

namespace Propolis

open Bytes Crashing

inductive Format where
  | txt | json | csv | cidr | ipset | nft | pf | alias_ | hosts | rpz
  deriving DecidableEq

/-- The formats in the order they are written. -/
def Format.all : List Format :=
  [.txt, .json, .csv, .cidr, .ipset, .nft, .pf, .alias_, .hosts, .rpz]

def Format.extension : Format → String
  | .txt => "txt"
  | .json => "json"
  | .csv => "csv"
  | .cidr => "cidr"
  | .ipset => "ipset"
  | .nft => "nft"
  | .pf => "pf"
  | .alias_ => "alias"
  | .hosts => "hosts"
  | .rpz => "rpz"

structure FeedEntry where
  sourceIp : IpAddr
  tier : Option FeedTier
  firstSeen : ℤ
  lastSeen : ℤ
  eventCount : ℤ
  distinctCategories : ℤ
  categories : List String
  validFrom : ℤ
  validUntil : ℤ

structure WindowFeed where
  label : String
  retention : ℤ
  entries : List FeedEntry

structure FeedSnapshot where
  buildTime : ℤ
  aggressive : List FeedEntry
  standard : List FeedEntry
  windows : List WindowFeed

structure FeedConfig where
  aggressiveTtl : ℤ
  standardTtl : ℤ

structure ExclusionEngine where
  isExcluded : IpAddr → Bool
  allowlistLen : ℕ
  delistLen : ℕ
  asnAllowlistLen : ℕ
  asnDbLoaded : Bool

structure TierManifest where
  count : ℕ
  sha256 : Bytes
  validUntil : String

structure WindowManifest where
  label : String
  count : ℕ
  sha256 : Bytes
  validUntil : String

structure ExclusionsManifest where
  allowlistCount : ℕ
  delistCount : ℕ
  asnAllowlistCount : ℕ
  asnDbLoaded : Bool

structure Manifest where
  buildTime : String
  aggressive : TierManifest
  standard : TierManifest
  windows : List WindowManifest
  exclusions : ExclusionsManifest

structure Exporters where
  export_ : Format → String → (generated validUntil : ℤ) → List FeedEntry → Bytes
  formatTimestamp : ℤ → String
  manifestJson : Manifest → Option Bytes

inductive PublishError where
  | exclusionViolation (ip : IpAddr) (tier : Option FeedTier)
  | invalidOutputDir
  | io
  | stagingUnwritable
  | manifest
  | checksumMismatch (file : String)
  deriving DecidableEq

/-- The files of a directory. -/
abbrev Files := List (String × Bytes)

def Files.write (name : String) (bytes : Bytes) (files : Files) : Files :=
  (name, bytes) :: files.filter fun file => file.1 ≠ name

def Files.read (name : String) (files : Files) : Option Bytes :=
  files.lookup name

inductive FeedDir where
  | output | previous | staging
  deriving DecidableEq

structure FeedDirs where
  output : Option Files
  previous : Option Files
  staging : Option Files
  deriving DecidableEq

namespace FeedDirs

def get (dirs : FeedDirs) : FeedDir → Option Files
  | .output => dirs.output
  | .previous => dirs.previous
  | .staging => dirs.staging

def set (dirs : FeedDirs) (dir : FeedDir) (files : Option Files) : FeedDirs :=
  match dir with
  | .output => { dirs with output := files }
  | .previous => { dirs with previous := files }
  | .staging => { dirs with staging := files }

end FeedDirs

/-- How far an operation got that was cut off: which files a removal left and whether the directory
itself is gone, and how much of a file a write left, if it created it at all. -/
structure DirCut where
  kept : String → Bool
  gone : Bool
  written : Option ℕ

abbrev Publishing (Value : Type) := Program FeedDirs DirCut PublishError Value

section Operations

open Program

def removeDirAll (dir : FeedDir) : Publishing Unit :=
  operation .io (fun dirs => (dirs.get dir).map fun _ => dirs.set dir none) fun cut dirs =>
    dirs.set dir ((dirs.get dir).bind fun files =>
      if cut.gone then none else some (files.filter fun file => cut.kept file.1))

/-- `create_dir_all`; a directory that is there stays as it is. -/
def createDirAll (dir : FeedDir) : Publishing Unit :=
  operation .io (fun dirs => some (dirs.set dir (some ((dirs.get dir).getD [])))) fun _ dirs => dirs

/-- `rename(2)` of a directory, which does not replace one that holds anything. -/
def renameDir (source target : FeedDir) : Publishing Unit :=
  operation .io (fun dirs => do
      let files ← dirs.get source
      if dirs.get target = none ∨ dirs.get target = some [] then
        some ((dirs.set target (some files)).set source none)
      else none)
    fun _ dirs => dirs

/-- `write_file_synced` of a file in the staging directory. -/
def writeFileSynced (name : String) (bytes : Bytes) : Publishing Unit :=
  operation .io (fun dirs => dirs.staging.map fun files =>
      { dirs with staging := some (files.write name bytes) })
    fun cut dirs => { dirs with staging := dirs.staging.map fun files =>
      match cut.written with
      | none => files
      | some count => files.write name (bytes.take count) }

/-- `std::fs::read` of a file in the staging directory. -/
def readStaged (name : String) : Publishing Bytes := do
  operation .io some fun _ dirs => dirs
  let dirs ← look
  match dirs.staging.bind (Files.read name) with
  | some bytes => return bytes
  | none => raise .io

end Operations

section Publish

open Program

variable (exporters : Exporters)

/-- `recover_interrupted_publish`; `named` is false for an output path without a last component. -/
def recoverInterruptedPublish (named : Bool) : Publishing Bool := do
  let dirs ← look
  if dirs.output.isSome then return false
  else if named = false then return false
  else if dirs.previous.isNone then return false
  else
    renameDir .previous .output
    return true

def sha256Hex (bytes : Bytes) : Bytes :=
  (sha256 bytes).1.flatMap fun byte => fixedDigits 16 2 byte.toNat

/-- The first entry that is excluded rejects the whole build. -/
def revalidate (snapshot : FeedSnapshot) (exclusions : ExclusionEngine) :
    Except PublishError Unit :=
  let entries := snapshot.aggressive ++ snapshot.standard ++ snapshot.windows.flatMap (·.entries)
  match entries.find? fun entry => exclusions.isExcluded entry.sourceIp with
  | some entry => .error (.exclusionViolation entry.sourceIp entry.tier)
  | none => .ok ()

/-- `create_staging_dir`: a leftover is removed first.  The parent directory is not one of the
three; creating it changes none of them. -/
def createStagingDir : Publishing Unit :=
  mapError (fun _ => .stagingUnwritable) (do
    operation .io some fun _ dirs => dirs
    let dirs ← look
    provided dirs.staging.isSome (removeDirAll .staging)
    createDirAll .staging : Publishing Unit)

def tierFile (name : String) (format : Format) : String :=
  name ++ "." ++ format.extension

def writeTier (name : String) (generated validUntil : ℤ) (entries : List FeedEntry) :
    Publishing TierManifest := do
  each Format.all fun format =>
    writeFileSynced (tierFile name format)
      (exporters.export_ format name generated validUntil entries)
  let txt := exporters.export_ .txt name generated validUntil entries
  let onDisk ← readStaged (tierFile name .txt)
  if sha256Hex onDisk ≠ sha256Hex txt then raise (.checksumMismatch (tierFile name .txt))
  else
    return { count := entries.length, sha256 := sha256Hex txt,
             validUntil := exporters.formatTimestamp validUntil }

/-- The retention feeds, each as `all-` and its label. -/
def writeWindows (buildTime : ℤ) : List WindowFeed → Publishing (List WindowManifest)
  | [] => return []
  | window :: rest => do
      let entry ← writeTier exporters ("all-" ++ window.label) buildTime
        (buildTime + window.retention) window.entries
      let later ← writeWindows buildTime rest
      return { label := window.label, count := entry.count, sha256 := entry.sha256,
               validUntil := entry.validUntil } :: later

/-- The two renames of `swap_into_place`, with the rollback of the first and the cleanup. -/
def replaceOutput : Publishing Unit := do
  renameDir .output .previous
  match ← attempt (renameDir .staging .output) with
  | .error error =>
      -- Whether the rollback succeeds or not, the original error is returned.
      let _ ← (attempt (renameDir .previous .output) : Publishing (Except PublishError Unit))
      raise error
  | .ok _ =>
      let _ ← (attempt (removeDirAll .previous) : Publishing (Except PublishError Unit))
      return ()

def swapIntoPlace (named : Bool) : Publishing Unit := do
  let _ ← recoverInterruptedPublish named
  if named = false then renameDir .staging .output
  else
    let dirs ← look
    if dirs.output.isNone then renameDir .staging .output
    else
      provided dirs.previous.isSome (removeDirAll .previous)
      replaceOutput

def exclusionsManifest (exclusions : ExclusionEngine) : ExclusionsManifest where
  allowlistCount := exclusions.allowlistLen
  delistCount := exclusions.delistLen
  asnAllowlistCount := exclusions.asnAllowlistLen
  asnDbLoaded := exclusions.asnDbLoaded

def publish (named : Bool) (config : FeedConfig) (exclusions : ExclusionEngine)
    (snapshot : FeedSnapshot) : Publishing Unit := do
  let _ ← recoverInterruptedPublish named
  match revalidate snapshot exclusions with
  | .error error => raise error
  | .ok _ =>
      if named = false then raise .invalidOutputDir
      else
        createStagingDir
        let aggressive ← writeTier exporters "aggressive" snapshot.buildTime
          (snapshot.buildTime + config.aggressiveTtl) snapshot.aggressive
        let standard ← writeTier exporters "standard" snapshot.buildTime
          (snapshot.buildTime + config.standardTtl) snapshot.standard
        let windows ← writeWindows exporters snapshot.buildTime snapshot.windows
        match exporters.manifestJson
          { buildTime := exporters.formatTimestamp snapshot.buildTime
            aggressive, standard, windows, exclusions := exclusionsManifest exclusions } with
        | none => raise .manifest
        | some json =>
            writeFileSynced "manifest.json" json
            swapIntoPlace named

end Publish

end Propolis
