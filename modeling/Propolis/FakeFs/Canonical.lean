import Propolis.FakeFs.Coherent

/-!
# Canonical paths

`canonicalize` follows every link of a path.  What it has resolved so far has no `..` and no link
on the way.  A link's target goes in front of the names that are left without the filter that
the path itself went through, so a `.` in a target is taken for a name.
-/

namespace Propolis.Filesystem

open Bytes Paths

/-- Which names of a path have to be there: all but the last, all, or none. -/
inductive Canonical
  | parentsExist
  | existing
  | allowMissing
  deriving DecidableEq

def FakeFs.canonicalize (fs : FakeFs) (path : Bytes) (mode : Canonical) : Option Path :=
  match fs.resolveWith path true (decide (mode = .allowMissing)) with
  | .error _ => none
  | .ok physical =>
      if mode = .existing ∧ (fs.nodeAt physical).isNone then none else some physical

section Meeting

variable (nodeAt : Path → Option Node)

/-- The targets of the links that a pass over the names meets. -/
def linksMet (jump : List Name → Path → List Bytes) : List Name → Path → List Bytes
  | [], _ => []
  | component :: pending, resolved =>
      if component.val = ofText ".." then linksMet jump pending resolved.dropLast
      else match (nodeAt (resolved ++ [component])).map Node.kind with
        | some (.symlink target) =>
            target :: jump (namesOf target ++ pending)
              (if target.head? = some slash then [] else resolved)
        | _ => linksMet jump pending (resolved ++ [component])

def linksMetWithin : ℕ → List Name → Path → List Bytes
  | 0 => linksMet nodeAt fun _ _ => []
  | hops + 1 => linksMet nodeAt (linksMetWithin hops)

end Meeting

/-- The targets of the links that are followed for a path. -/
def FakeFs.linksMet (fs : FakeFs) (path : Bytes) : List Bytes :=
  linksMetWithin fs.nodeAt maxSymlinkHops (logicalNames path) []

def Dotless (names : List Name) : Prop :=
  ∀ name ∈ names, name.val ≠ ofText "."

instance : DecidablePred Dotless := fun names =>
  inferInstanceAs (Decidable (∀ name ∈ names, name.val ≠ ofText "."))

/-- What a canonical path is. -/
structure IsCanonical (fs : FakeFs) (mode : Canonical) (physical : Path) : Prop where
  plain : ∀ name ∈ physical, name.val ≠ ofText "." ∧ name.val ≠ ofText ".."
  unlinked : ∀ front back, physical = front ++ back → back ≠ [] → ¬IsLink fs.nodeAt front
  existing : mode = .existing → (fs.nodeAt physical).isSome = true ∧ ¬IsLink fs.nodeAt physical
  again : fs.canonicalize (text physical) mode = some physical

section Walking

variable {nodeAt : Path → Option Node} {allowMissing : Bool} {hops : ℕ} {pending : List Name}
  {path physical : Path}

variable (nodeAt) (allowMissing) in
/-- What is resolved while names are left. -/
inductive Clear : Path → Prop
  | root : Clear []
  | child {front name} (clear : Clear front) (plain : name.val ≠ ofText "..")
      (passes : Passes nodeAt allowMissing (front ++ [name])) : Clear (front ++ [name])

variable (nodeAt) (allowMissing) in
/-- What is resolved in the end: behind the last name nothing has to follow. -/
inductive Resolved : Path → Prop
  | root : Resolved []
  | child {front name} (clear : Clear nodeAt allowMissing front)
      (plain : name.val ≠ ofText "..") (unlinked : ¬IsLink nodeAt (front ++ [name])) :
      Resolved (front ++ [name])

theorem Passes.not_isLink (passes : Passes nodeAt allowMissing physical) :
    ¬IsLink nodeAt physical := by
  rintro ⟨target, link⟩
  rcases passes with ⟨entries, dir⟩ | ⟨-, missing⟩
  · simp [dir] at link
  · simp [missing] at link

theorem Clear.resolved (clear : Clear nodeAt allowMissing path) :
    Resolved nodeAt allowMissing path := by
  cases clear with
  | root => exact .root
  | child clear plain passes => exact .child clear plain passes.not_isLink

theorem Clear.dropLast (clear : Clear nodeAt allowMissing path) :
    Clear nodeAt allowMissing path.dropLast := by
  cases clear with
  | root => exact .root
  | child clear => simpa using clear

theorem Resolves.resolved (resolves : Resolves nodeAt true allowMissing hops pending path physical)
    (clear : Clear nodeAt allowMissing path) : Resolved nodeAt allowMissing physical := by
  induction resolves with
  | done => exact clear.resolved
  | up _ _ ih => exact ih clear.dropLast
  | link _ _ _ _ ih =>
      apply ih
      split
      · exact .root
      · exact clear
  | through plain passes _ ih => exact ih (clear.child plain passes)
  | last _ _ plain _ unfollowed => exact .child clear plain (unfollowed rfl)

theorem linksMetWithin_up {name : Name} (climbs : name.val = ofText "..") :
    linksMetWithin nodeAt hops (name :: pending) path =
      linksMetWithin nodeAt hops pending path.dropLast := by
  cases hops <;> simp [linksMetWithin, linksMet, climbs]

theorem linksMetWithin_through {name : Name} (plain : name.val ≠ ofText "..")
    (passes : Passes nodeAt allowMissing (path ++ [name])) :
    linksMetWithin nodeAt hops (name :: pending) path =
      linksMetWithin nodeAt hops pending (path ++ [name]) := by
  rcases passes with ⟨entries, dir⟩ | ⟨-, missing⟩
  · cases hops <;> simp [linksMetWithin, linksMet, plain, dir]
  · cases hops <;> simp [linksMetWithin, linksMet, plain, missing]

/-- A `.` in the result would be from the target of a link that was met. -/
theorem Resolves.dotless (resolves : Resolves nodeAt true allowMissing hops pending path physical)
    (met : ∀ target ∈ linksMetWithin nodeAt hops pending path, Dotless (namesOf target))
    (named : Dotless pending) (clear : Dotless path) : Dotless physical := by
  induction resolves with
  | done => exact clear
  | up climbs _ ih =>
      rw [linksMetWithin_up climbs] at met
      apply ih met (List.forall_mem_cons.mp named).2
      exact fun name member => clear name (List.mem_of_mem_dropLast member)
  | link plain there _ _ ih =>
      simp only [linksMetWithin, linksMet, if_neg plain, there, List.forall_mem_cons] at met
      apply ih met.2 (List.forall_mem_append.mpr ⟨met.1, (List.forall_mem_cons.mp named).2⟩)
      split
      · exact List.forall_mem_nil _
      · exact clear
  | through plain passes _ ih =>
      rw [linksMetWithin_through plain passes] at met
      rcases List.forall_mem_cons.mp named with ⟨first, later⟩
      exact ih met later (List.forall_mem_append.mpr ⟨clear, by simpa using first⟩)
  | last => exact List.forall_mem_append.mpr ⟨clear, named⟩

/-- The names of a clear path lead to it without a link. -/
theorem Clear.resolves (clear : Clear nodeAt allowMissing path)
    (rest : Resolves nodeAt true allowMissing hops pending path physical) :
    Resolves nodeAt true allowMissing hops (path ++ pending) [] physical := by
  induction clear generalizing pending with
  | root => exact rest
  | child _ plain passes ih => simpa using ih (.through plain passes rest)

variable (resolved : Resolved nodeAt allowMissing path)
include resolved

theorem Resolved.resolves : Resolves nodeAt true allowMissing hops path [] path := by
  cases resolved with
  | root => exact .done hops []
  | @child front name clear plain unlinked =>
      apply clear.resolves
      by_cases dir : IsDir nodeAt (front ++ [name])
      · exact .through plain (.inl dir) (.done hops _)
      · exact .last hops front plain dir fun _ => unlinked

theorem Resolved.plain : ∀ name ∈ path, name.val ≠ ofText ".." := by
  have all {front : Path} (clear : Clear nodeAt allowMissing front) :
      ∀ name ∈ front, name.val ≠ ofText ".." := by
    induction clear with
    | root => simp
    | child _ plain _ ih => exact List.forall_mem_append.mpr ⟨ih, by simpa using plain⟩
  cases resolved with
  | root => simp
  | child clear plain => exact List.forall_mem_append.mpr ⟨all clear, by simpa using plain⟩

theorem Resolved.not_isLink {start : Path} (starts : start <+: path) (below : start ≠ []) :
    ¬IsLink nodeAt start := by
  have all {front : Path} (clear : Clear nodeAt allowMissing front) (starts : start <+: front) :
      ¬IsLink nodeAt start := by
    induction clear with
    | root => exact absurd (List.prefix_nil.mp starts) below
    | child _ _ passes ih =>
        rcases List.prefix_concat_iff.mp starts with rfl | shorter
        · exact passes.not_isLink
        · exact ih shorter
  cases resolved with
  | root => exact absurd (List.prefix_nil.mp starts) below
  | child clear _ unlinked =>
      rcases List.prefix_concat_iff.mp starts with rfl | shorter
      · exact unlinked
      · exact all clear shorter

end Walking

theorem logicalNames_text {path : Path} (dotless : Dotless path) :
    logicalNames (text path) = path := by
  have names : namesOf (text path) = path := by
    rw [text]
    split
    case isTrue root => exact root ▸ rfl
    case isFalse => exact namesOf_joined path
  rw [logicalNames, names, List.filter_eq_self]
  intro name member
  simpa using dotless name member

section Results

variable {fs : FakeFs} {path : Bytes} {mode : Canonical} {physical : Path}

theorem canonicalize_eq_some : fs.canonicalize path mode = some physical ↔
    fs.resolveWith path true (decide (mode = .allowMissing)) = .ok physical ∧
      (mode = .existing → (fs.nodeAt physical).isSome = true) := by
  rw [FakeFs.canonicalize]
  cases fs.resolveWith path true (decide (mode = .allowMissing)) with
  | error => simp
  | ok found =>
      simp only [Option.ite_none_left_eq_some, not_and, Bool.not_eq_true,
        Option.isNone_eq_false_iff, Except.ok.injEq, Option.some.injEq]
      constructor
      · rintro ⟨there, rfl⟩
        exact ⟨rfl, there⟩
      · rintro ⟨rfl, there⟩
        exact ⟨there, rfl⟩

/-- Only a `.` in the result and a link at the root keep it from being canonical. -/
theorem isCanonical_iff (found : fs.canonicalize path mode = some physical) :
    IsCanonical fs mode physical ↔
      Dotless physical ∧ (IsLink fs.nodeAt [] → physical = [] ∧ mode ≠ .existing) := by
  constructor
  · intro canonical
    refine ⟨fun name member => (canonical.plain name member).1, ?_⟩
    intro root
    have top : physical = [] := by
      by_contra below
      exact canonical.unlinked [] physical rfl below root
    exact ⟨top, fun existing => (canonical.existing existing).2 (top ▸ root)⟩
  · rintro ⟨dotless, root⟩
    rw [canonicalize_eq_some] at found
    have resolved := (resolves_of_resolveWithin found.1).resolved .root
    have unlinked {start : Path} (starts : start <+: physical)
        (top : start = [] → ¬IsLink fs.nodeAt []) : ¬IsLink fs.nodeAt start := by
      by_cases below : start = []
      · exact below ▸ top below
      · exact resolved.not_isLink starts below
    constructor
    case plain => exact fun name member => ⟨dotless name member, resolved.plain name member⟩
    case unlinked =>
      intro front back same more
      apply unlinked ⟨back, same.symm⟩
      rintro rfl linked
      exact more ((same.symm.trans (root linked).1))
    case existing =>
      intro existing
      refine ⟨found.2 existing, unlinked (List.prefix_refl physical) ?_⟩
      exact fun _ linked => (root linked).2 existing
    case again =>
      rw [canonicalize_eq_some, FakeFs.resolveWith, logicalNames_text dotless]
      exact ⟨resolved.resolves.resolveWithin, found.2⟩

/-- Where no link is at the root and none that is followed for a path has a `.` in its target, the
path's canonical path has plain names, no link on the way to it and none at it, and is its own
canonical path.  It has all this exactly where no `.` is left in it and no link is at the root or,
unless the path has to exist, it is the root. -/
theorem canonicalize_canonical (fs : FakeFs) (path : Bytes) (mode : Canonical) (physical : Path)
    (found : fs.canonicalize path mode = some physical) :
    (¬IsLink fs.nodeAt [] → (∀ target ∈ fs.linksMet path, Dotless (namesOf target)) →
      IsCanonical fs mode physical) ∧
    (IsCanonical fs mode physical ↔
      Dotless physical ∧ (IsLink fs.nodeAt [] → physical = [] ∧ mode ≠ .existing)) := by
  refine ⟨?_, isCanonical_iff found⟩
  intro root met
  rw [isCanonical_iff found]
  rw [canonicalize_eq_some] at found
  refine ⟨?_, fun linked => absurd linked root⟩
  apply (resolves_of_resolveWithin found.1).dotless met
  · intro name member
    simpa using (List.mem_filter.mp member).2
  · exact List.forall_mem_nil _

/-- The box with a link. -/
def linkedBox (target : Bytes) : FakeFs :=
  boxFs.apply (.createSymlink (ofText "/l") target 0)

/-- A path through a link, and one beside a link to `.`. -/
theorem canonicalize_canonical_linked :
    (linkedBox (ofText "/d")).canonicalize (ofText "/l/x") .existing = some [boxDir, boxFile] ∧
      IsCanonical (linkedBox (ofText "/d")) .existing [boxDir, boxFile] ∧
      IsCanonical (linkedBox (ofText ".")) .existing [boxDir, boxFile] := by
  have found : (linkedBox (ofText "/d")).canonicalize (ofText "/l/x") .existing =
      some [boxDir, boxFile] := by
    decide +kernel
  have beside : (linkedBox (ofText ".")).canonicalize (ofText "/d/x") .existing =
      some [boxDir, boxFile] := by
    decide +kernel
  refine ⟨found, ?_, ?_⟩
  · apply (canonicalize_canonical _ _ _ _ found).1
    · exact @Passes.not_isLink _ false _ (.inl ⟨[boxDir], by decide +kernel⟩)
    · decide +kernel
  · apply (canonicalize_canonical _ _ _ _ beside).1
    · exact @Passes.not_isLink _ false _ (.inl ⟨[boxDir], by decide +kernel⟩)
    · decide +kernel

/-- A link to `.` has a canonical path that ends in `.`, whose own canonical path is another. -/
theorem link_to_dot_not_canonical :
    ((linkedBox (ofText ".")).canonicalize (ofText "/l") .parentsExist).map text =
        some (ofText "/.") ∧
      (linkedBox (ofText ".")).canonicalize (ofText "/.") .parentsExist = some [] := by
  decide +kernel

end Results

end Propolis.Filesystem
