import Propolis.Tailer.Disk
import Propolis.Tailer.Noticing

/-!
# A log that is copytruncated, and a tailer that is restarted

A log that is appended to and copytruncated, each copy kept as `<log>.1` and pushed
to `<log>.2` by the next, and a tailer that reads, commits with a saved cursor, and
crashes.  `copies` are the inodes of all copies made, oldest first; `behind` and
`savedBehind` are how many rotations ago the generation was copied that the
tailer's cursor, or the saved one, points into.

`Kept` is the invariant.  The tailer's cursor and the saved one are `Located` in the
log or in one of its last two copies, with the lines before them read or committed,
and the drains are the generations in between, in order, so that the position in
the first of them is one that a restart can go on from.  It survives every step
that is `resumable`:

* a log with lines is not rotated while a cursor carries no fingerprint of it, or one
  taken while it was empty;
* a call that finds the log rotated finds the fingerprint of its cursor neither in
  the log nor in a copy made later;
* at most two rotations go beyond the generation that is read, or was last saved.
-/

namespace Propolis

open Bytes

inductive CopyAction where
  | append (bytes : Bytes) | copytruncate | read (maxLines : ℕ) | commit | crash

structure CopyWorld where
  disk : Disk
  tailer : LogTailer
  copies : List ℕ := []
  behind : ℕ := 0
  saved : Option CursorState := none
  savedBehind : ℕ := 0
  committed : List Bytes := []
  handed : List Bytes := []

/-- The complete lines of some files, one after the other. -/
def generationLines (fs : Fs) (files : List ℕ) : List Bytes :=
  files.flatMap fun file => linesOf (fs.data file)

namespace CopyWorld

def start : CopyWorld :=
  { disk := .empty, tailer := LogTailer.new Disk.empty.fs none }

/-- Every complete line appended so far, oldest first. -/
def written (world : CopyWorld) : List Bytes :=
  generationLines world.disk.fs world.copies ++ linesOf world.disk.content

/-- How many rotations ago the generation was copied that is read next. -/
def readingBehind (world : CopyWorld) : ℕ :=
  match world.tailer.pendingDrains with
  | [] => world.behind
  | front :: _ => world.copies.length - world.copies.idxOf front.1

def append (bytes : Bytes) (world : CopyWorld) : CopyWorld :=
  { world with disk := world.disk.append bytes }

def copytruncate (world : CopyWorld) : CopyWorld :=
  match world.disk.fs.log with
  | some _ =>
      { world with
        disk := world.disk.copytruncate
        copies := world.copies ++ [world.disk.next]
        behind := world.behind + 1
        savedBehind := world.savedBehind + 1 }
  | none => world

def read (hash : Bytes → Digest) (maxLines : ℕ) (world : CopyWorld) : CopyWorld :=
  let result := world.tailer.readBatch hash maxLines fun _ => world.disk.fs
  { world with
    tailer := result.2
    handed := world.handed ++ result.1
    behind := if maxLines ≠ 0 ∧ world.disk.fs.log.isSome then 0 else world.behind }

/-- `commit_batch` and `persist_cursor`. -/
def commit (world : CopyWorld) : CopyWorld :=
  { world with
    tailer := world.tailer.commitBatch
    saved := some world.tailer.commitBatch.persistCursor
    savedBehind := world.readingBehind
    committed := world.committed ++ world.handed
    handed := [] }

/-- The process ends and a new one starts on the saved cursor. -/
def crash (world : CopyWorld) : CopyWorld :=
  match world.saved with
  | some cursor =>
      { world with
        tailer := LogTailer.new world.disk.fs (some cursor)
        behind := world.savedBehind
        handed := [] }
  | none => world

def step (hash : Bytes → Digest) (world : CopyWorld) : CopyAction → CopyWorld
  | .append bytes => world.append bytes
  | .copytruncate => world.copytruncate
  | .read maxLines => world.read hash maxLines
  | .commit => world.commit
  | .crash => world.crash

def run (hash : Bytes → Digest) (world : CopyWorld) (actions : List CopyAction) : CopyWorld :=
  actions.foldl (step hash) world

/-- The cursor carries a fingerprint of something. -/
def identifies (cursor : CursorState) : Bool :=
  cursor.fingerprintLen ≠ none && cursor.fingerprintLen ≠ some 0

/-- The generations that are still to be read stay within reach. -/
def withinReach (world : CopyWorld) : Bool :=
  world.behind ≤ 1 && world.readingBehind ≤ 1 && (world.saved.isNone || world.savedBehind ≤ 1)

/-- No cursor would lose the log by its truncation. -/
def identified (world : CopyWorld) : Bool :=
  linesOf world.disk.content = [] ||
    (identifies world.tailer.state && world.saved.all identifies)

/-- The fingerprint of the cursor is found in the generation it was taken of first. -/
def distinguished (hash : Bytes → Digest) (world : CopyWorld) : Bool :=
  world.behind = 0 || world.tailer.state.fingerprintLen = none ||
    (!headMatches hash world.tailer.state (world.disk.content.take 256) &&
      (world.behind = 1 ||
        storedIn hash world.disk.fs world.tailer.state world.disk.fs.one = none))

def resumable (hash : Bytes → Digest) (world : CopyWorld) : CopyAction → Bool
  | .copytruncate => world.disk.fs.log.isNone || (world.withinReach && world.identified)
  | .read maxLines => maxLines = 0 || world.distinguished hash
  | _ => true

end CopyWorld

variable {fs : Fs} {drains rest : List (ℕ × ℕ)} {hash : Bytes → Digest} {world : CopyWorld}
  {copies before : List ℕ} {content : Bytes} {disk : Disk} {cursor : CursorState}
  {behind offset file place : ℕ} {reached : List Bytes} {tailer : LogTailer} {changed : Fs}

section Queues

variable {files : List ℕ}

/-- The drains of some generations, from their beginnings; one without lines may be left out. -/
inductive Queued (fs : Fs) : List ℕ → List (ℕ × ℕ) → Prop where
  | nil : Queued fs [] []
  | skip {file : ℕ} {later : List ℕ} {drains : List (ℕ × ℕ)}
      (blank : linesOf (fs.data file) = []) (rest : Queued fs later drains) :
      Queued fs (file :: later) drains
  | next {file : ℕ} {later : List ℕ} {drains : List (ℕ × ℕ)} (rest : Queued fs later drains) :
      Queued fs (file :: later) ((file, 0) :: drains)

theorem generationLines_append (front back : List ℕ) :
    generationLines fs (front ++ back) = generationLines fs front ++ generationLines fs back := by
  simp [generationLines]

theorem generationLines_cons (file : ℕ) (later : List ℕ) :
    generationLines fs (file :: later) = linesOf (fs.data file) ++ generationLines fs later := by
  simp [generationLines]

theorem generationLines_congr {other : Fs} (same : ∀ file ∈ files, other.data file = fs.data file) :
    generationLines other files = generationLines fs files := by
  apply List.flatMap_congr
  intro file member
  rw [same file member]

theorem Queued.append {front back : List ℕ} {others : List (ℕ × ℕ)} (first : Queued fs front drains)
    (second : Queued fs back others) : Queued fs (front ++ back) (drains ++ others) := by
  induction first with
  | nil => exact second
  | skip blank _ ih => exact .skip blank ih
  | next _ ih => exact .next ih

variable (queued : Queued fs files drains)
include queued

theorem Queued.congr {other : Fs} (same : ∀ file ∈ files, other.data file = fs.data file) :
    Queued other files drains := by
  induction queued with
  | nil => exact .nil
  | skip blank _ ih =>
      apply Queued.skip
      · rw [same _ List.mem_cons_self]
        exact blank
      · exact ih fun file member => same file (List.mem_cons_of_mem _ member)
  | next _ ih => exact .next (ih fun file member => same file (List.mem_cons_of_mem _ member))

theorem Queued.lines :
    drainsAhead fs drains = generationLines fs files := by
  induction queued with
  | nil => rfl
  | skip blank _ ih => rw [generationLines_cons, blank, List.nil_append, ih]
  | next _ ih =>
      rw [drainsAhead_cons, ih]
      rfl

/-- What is queued from some drain on. -/
theorem Queued.drop {count : ℕ} {drain : ℕ × ℕ} (split : drains.drop count = drain :: rest) :
    ∃ earlier later, files = earlier ++ drain.1 :: later ∧ drain.2 = 0 ∧ Queued fs later rest := by
  induction queued generalizing count with
  | nil => simp at split
  | @skip file _ _ blank _ ih =>
      rcases ih split with ⟨earlier, later, whole, zero, queued⟩
      exact ⟨file :: earlier, later, by rw [whole, List.cons_append], zero, queued⟩
  | @next file later _ others ih =>
      cases count with
      | zero =>
          cases split
          exact ⟨[], later, rfl, rfl, others⟩
      | succ count =>
          rcases ih split with ⟨earlier, later, whole, zero, queued⟩
          exact ⟨file :: earlier, later, by rw [whole, List.cons_append], zero, queued⟩

end Queues

section Invariant

/-- The copies that were made, of which the last two are still in place. -/
structure CopiesOf (disk : Disk) (copies : List ℕ) : Prop where
  apart : ∀ file ∈ copies, disk.Apart file
  distinct : copies.Nodup
  one : disk.fs.one = copies.getLast?
  two : disk.fs.two = copies.dropLast.getLast?

/-- The generation a cursor points into, with the copies made before it. -/
inductive Located (hash : Bytes → Digest) (disk : Disk) (copies : List ℕ) (cursor : CursorState)
    (behind : ℕ) : List ℕ → Bytes → Prop where
  | unseen (inode : cursor.inode = 0) (offset : cursor.offset = 0)
      (len : cursor.fingerprintLen = none) :
      Located hash disk copies cursor behind copies disk.content
  | live {inode window : ℕ} (found : disk.fs.log = some inode) (same : cursor.inode = inode)
      (stamped : Stamped hash (disk.fs.data inode) cursor window)
      (unread : window = 0 → cursor.offset = 0) (current : behind = 0 ∨ window = 0) :
      Located hash disk copies cursor behind copies (disk.fs.data inode)
  | copied {inode window file : ℕ} {before after : List ℕ} (found : disk.fs.log = some inode)
      (same : cursor.inode = inode) (split : copies = before ++ file :: after)
      (count : behind = after.length + 1) (near : behind ≤ 2)
      (stamped : Stamped hash (disk.fs.data file) cursor window) (positive : window ≠ 0) :
      Located hash disk copies cursor behind before (disk.fs.data file)

/-- The drains are generations before the cursor's, the first of them within reach. -/
inductive Drained (fs : Fs) (copies before : List ℕ) (offset : ℕ) : List (ℕ × ℕ) → Prop where
  | none : Drained fs copies before offset []
  | some {file place : ℕ} {earlier later : List ℕ} {rest : List (ℕ × ℕ)}
      (split : before = earlier ++ file :: later) (near : copies.length ≤ earlier.length + 2)
      (start : offset = 0) (inside : place ≤ (fs.data file).length)
      (clean : EndsClean ((fs.data file).take place)) (queued : Queued fs later rest) :
      Drained fs copies before offset ((file, place) :: rest)

/-- Fingerprints of the copies, one for every drain. -/
structure Resumes (hash : Bytes → Digest) (fs : Fs) (copies : List ℕ) (tailer : LogTailer) :
    Prop where
  known : ∀ resume ∈ tailer.resumes, resume.1 ∈ copies
  taken : ∀ resume ∈ tailer.resumes, ∀ cursor : CursorState,
    cursor.fingerprint = resume.2.1 → cursor.fingerprintLen = some resume.2.2 →
    resume.2.2 ≠ 0 ∧ Stamped hash (fs.data resume.1) cursor resume.2.2
  covered : ∀ drain ∈ tailer.pendingDrains, ∃ resume ∈ tailer.resumes, resume.1 = drain.1

/-- The tailer reads on from what was committed and handed out. -/
structure ReadsOn (hash : Bytes → Digest) (world : CopyWorld) (before : List ℕ)
    (content : Bytes) : Prop where
  located : Located hash world.disk world.copies world.tailer.state world.behind before content
  holds : Holds world.disk.fs (generationLines world.disk.fs before) content
    (world.committed ++ world.handed) world.tailer.state.offset world.tailer.pendingDrains
  drained : Drained world.disk.fs world.copies before world.tailer.state.offset
    world.tailer.pendingDrains

/-- A restart reads on from what was committed. -/
structure RestartsOn (hash : Bytes → Digest) (world : CopyWorld) (cursor : CursorState)
    (before : List ℕ) (content : Bytes) : Prop where
  located : Located hash world.disk world.copies cursor world.savedBehind before content
  holds : Holds world.disk.fs (generationLines world.disk.fs before) content world.committed
    cursor.offset []

structure Kept (hash : Bytes → Digest) (world : CopyWorld) : Prop where
  sound : world.disk.Sound
  copies : CopiesOf world.disk world.copies
  reading : ∃ before content, ReadsOn hash world before content
  saved : ∀ cursor, world.saved = some cursor →
    ∃ before content, RestartsOn hash world cursor before content
  resumes : Resumes hash world.disk.fs world.copies world.tailer
  file : world.tailer.file = none ∨
    world.tailer.file = world.disk.fs.log ∧ world.tailer.state.inode ≠ 0
  unseen : world.tailer.state.inode = 0 → world.tailer.pendingDrains = []

theorem CopyWorld.start_kept : Kept hash CopyWorld.start := by
  refine ⟨⟨?_, one_ne_zero⟩, ⟨List.forall_mem_nil _, List.nodup_nil, rfl, rfl⟩, ⟨[], [], ?_⟩, ?_,
    ⟨List.forall_mem_nil _, List.forall_mem_nil _, List.forall_mem_nil _⟩, Or.inl rfl,
    fun _ => rfl⟩
  · intro inode impossible
    exact absurd impossible (Option.some_ne_none _).symm
  · exact ⟨.unseen rfl rfl rfl, ⟨le_rfl, Or.inl rfl, rfl⟩, .none⟩
  · intro cursor impossible
    exact absurd impossible (Option.some_ne_none _).symm

section

variable (located : Located hash disk copies cursor behind before content)
include located

theorem Located.leading : before <+: copies := by
  cases located with
  | unseen | live => exact List.prefix_rfl
  | copied found same split =>
      rw [split]
      exact List.prefix_append _ _

theorem Located.log (seen : cursor.inode ≠ 0) : disk.fs.log = some cursor.inode := by
  cases located with
  | unseen inode => exact absurd inode seen
  | live found same | copied found same => rw [found, same]

end

theorem Drained.mem (drained : Drained fs copies before offset drains) :
    ∀ drain ∈ drains, drain.1 ∈ before := by
  intro drain member
  cases drained with
  | none => exact absurd member List.not_mem_nil
  | some split near start inside clean queued =>
      rw [split]
      apply List.mem_append_right
      rcases List.mem_cons.mp member with rfl | behind
      · exact List.mem_cons_self
      · rcases List.mem_iff_append.mp behind with ⟨front, back, whole⟩
        have dropped : List.drop front.length (front ++ drain :: back) = drain :: back := by simp
        rw [← whole] at dropped
        rcases queued.drop dropped with ⟨earlier, later, files, -, -⟩
        rw [files]
        apply List.mem_cons_of_mem
        exact List.mem_append_right _ List.mem_cons_self

/-- The position in the front drain, as one in a generation of its own. -/
theorem Drained.front (drained : Drained fs copies before offset ((file, place) :: rest))
    (holds : Holds fs (generationLines fs before) content reached offset ((file, place) :: rest)) :
    ∃ earlier later, before = earlier ++ file :: later ∧ copies.length ≤ earlier.length + 2 ∧
      Holds fs (generationLines fs earlier) (fs.data file) reached place [] := by
  cases drained with
  | @some _ _ earlier later _ split near start inside clean queued =>
      refine ⟨earlier, later, split, near, inside, clean, ?_⟩
      have ahead := holds.ahead
      have nothing : linesOf (content.take offset) = [] := by
        rw [start]
        rfl
      rw [nothing, List.append_nil, split, generationLines_append, generationLines_cons,
        drainsAhead_cons, queued.lines, ← linesOf_split clean] at ahead
      simp only [texts_append, ← List.append_assoc] at ahead
      have cancelled := List.append_cancel_right (List.append_cancel_right ahead)
      rw [← texts_append] at cancelled
      rw [cancelled]
      simp [drainsAhead]

end Invariant

section Saving

theorem persistCursor_of_nil (drains : tailer.pendingDrains = []) :
    tailer.persistCursor = tailer.state := by
  simp [LogTailer.persistCursor, drains]

theorem persistCursor_of_front {front : ℕ × ℕ} (drains : tailer.pendingDrains = front :: rest)
    (covered : ∃ resume ∈ tailer.resumes, resume.1 = front.1) :
    ∃ resume ∈ tailer.resumes, resume.1 = front.1 ∧
      tailer.persistCursor =
        { inode := tailer.state.inode, offset := front.2, fingerprint := resume.2.1,
          fingerprintLen := some resume.2.2 } := by
  rcases covered with ⟨known, member, same⟩
  cases search : tailer.resumes.find? (·.1 = front.1) with
  | none =>
      have missing := List.find?_eq_none.mp search known member
      simp [same] at missing
  | some resume =>
      have found := List.find?_some search
      refine ⟨resume, List.mem_of_find?_eq_some search, by simpa using found, ?_⟩
      simp [LogTailer.persistCursor, drains, search]

theorem CopyWorld.readingBehind_of_front {earlier after : List ℕ}
    (drains : world.tailer.pendingDrains = (file, place) :: rest)
    (split : world.copies = earlier ++ file :: after) (distinct : world.copies.Nodup) :
    world.readingBehind = after.length + 1 := by
  have first : file ∉ earlier := by
    rw [split] at distinct
    intro inside
    exact (List.nodup_append.mp distinct).2.2 file inside file List.mem_cons_self rfl
  rw [CopyWorld.readingBehind, drains]
  simp only [split, List.idxOf_append_of_notMem first, List.idxOf_cons_self, List.length_append,
    List.length_cons]
  omega

variable (kept : Kept hash world)
include kept

/-- What is saved while a rotated copy is drained. -/
theorem Kept.saved_front (drains : world.tailer.pendingDrains = (file, place) :: rest) :
    ∃ before content, RestartsOn hash world.commit world.tailer.commitBatch.persistCursor
      before content := by
  rcases kept.reading with ⟨before, content, reads⟩
  have holds := reads.holds
  have drained := reads.drained
  rw [drains] at holds drained
  rcases drained.front holds with ⟨earlier, later, split, near, there⟩
  have covered := kept.resumes.covered (file, place) (by rw [drains]; exact List.mem_cons_self)
  rcases @persistCursor_of_front rest world.tailer.commitBatch (file, place) drains covered with
    ⟨resume, member, same, cursor⟩
  rw [cursor]
  have seen : world.tailer.state.inode ≠ 0 := by
    intro unknown
    rw [kept.unseen unknown] at drains
    exact absurd drains (List.cons_ne_nil _ _).symm
  have stamps := kept.resumes.taken resume member
    ⟨world.tailer.state.inode, place, resume.2.1, some resume.2.2⟩ rfl rfl
  rw [same] at stamps
  rcases reads.located.leading with ⟨last, whole⟩
  have copies : world.copies = earlier ++ file :: (later ++ last) := by
    rw [← whole, split, List.append_assoc, List.cons_append]
  have distance := CopyWorld.readingBehind_of_front drains copies kept.copies.distinct
  refine ⟨earlier, _, .copied (reads.located.log seen) rfl copies distance ?_ stamps.2 stamps.1,
    there⟩
  have total := congrArg List.length copies
  rw [List.length_append, List.length_cons] at total
  change world.readingBehind ≤ 2
  omega

theorem Kept.commit : Kept hash world.commit := by
  rcases kept.reading with ⟨before, content, reads⟩
  refine ⟨kept.sound, kept.copies, ⟨before, content, reads.located, ?_, reads.drained⟩, ?_,
    ⟨kept.resumes.known, kept.resumes.taken, kept.resumes.covered⟩, kept.file, kept.unseen⟩
  · change Holds world.disk.fs _ content (world.committed ++ world.handed ++ []) _ _
    rw [List.append_nil]
    exact reads.holds
  · intro cursor saved
    cases saved
    cases drains : world.tailer.pendingDrains with
    | cons => exact kept.saved_front drains
    | nil =>
        have located := reads.located
        have holds := reads.holds
        rw [drains] at holds
        have distance : world.readingBehind = world.behind := by
          rw [CopyWorld.readingBehind, drains]
        rw [← distance] at located
        rw [@persistCursor_of_nil world.tailer.commitBatch drains]
        exact ⟨before, content, located, holds⟩

theorem Kept.crash : Kept hash world.crash := by
  rw [CopyWorld.crash]
  cases saved : world.saved with
  | none => exact kept
  | some cursor =>
      rcases kept.saved cursor saved with ⟨before, content, restarts⟩
      refine ⟨kept.sound, kept.copies, ⟨before, content, restarts.located, ?_, .none⟩, ?_,
        ⟨List.forall_mem_nil _, List.forall_mem_nil _, List.forall_mem_nil _⟩, Or.inl rfl,
        fun _ => rfl⟩
      · rw [List.append_nil]
        exact restarts.holds
      · intro other same
        rcases kept.saved other (saved.trans same) with ⟨before, content, located, holds⟩
        exact ⟨before, content, located, holds⟩

end Saving

section Writing

variable {other : Disk} {inode : ℕ}

theorem Drained.congr (drained : Drained fs copies before offset drains)
    (same : ∀ file ∈ before, changed.data file = fs.data file) :
    Drained changed copies before offset drains := by
  cases drained with
  | none => exact .none
  | some split near start inside clean queued =>
      have here : changed.data _ = fs.data _ :=
        same _ (split ▸ List.mem_append_right _ List.mem_cons_self)
      refine .some split near start ?_ ?_ (queued.congr ?_)
      · rw [here]
        exact inside
      · rw [here]
        exact clean
      · intro file member
        apply same
        rw [split]
        exact List.mem_append_right _ (List.mem_cons_of_mem _ member)

theorem Resumes.congr {more : List ℕ} (resumes : Resumes hash fs copies tailer)
    (same : ∀ file ∈ copies, changed.data file = fs.data file) :
    Resumes hash changed (copies ++ more) tailer := by
  refine ⟨?_, ?_, resumes.covered⟩
  · intro resume member
    exact List.mem_append_left _ (resumes.known resume member)
  · intro resume member
    rw [same resume.1 (resumes.known resume member)]
    exact resumes.taken resume member

/-- A position in a log that is appended to. -/
theorem Located.append (located : Located hash disk copies cursor behind before content)
    (copied : CopiesOf disk copies) (bytes : Bytes)
    (holds : Holds disk.fs (generationLines disk.fs before) content reached cursor.offset drains)
    (known : ∀ drain ∈ drains, drain.1 ∈ before) :
    ∃ longer, Located hash (disk.append bytes) copies cursor behind before longer ∧
      Holds (disk.append bytes).fs (generationLines (disk.append bytes).fs before) longer reached
        cursor.offset drains := by
  have kept : ∀ file ∈ before, (disk.append bytes).fs.data file = disk.fs.data file :=
    fun file member => ((copied.apart file (located.leading.subset member)).append bytes).2
  have there : Holds (disk.append bytes).fs (generationLines (disk.append bytes).fs before) content
      reached cursor.offset drains := by
    rw [generationLines_congr kept]
    exact holds.congr fun drain member => kept drain.1 (known drain member)
  cases located with
  | unseen inode offset len => exact ⟨_, .unseen inode offset len, there.atStart offset⟩
  | @live inode _ found same stamped unread current =>
      have longer : disk.fs.data inode <+: (disk.append bytes).fs.data inode := by
        rw [Disk.append_data_log found]
        exact List.prefix_append _ _
      exact ⟨_, .live (Disk.append_log found bytes) same (stamped.grow longer) unread current,
        there.grow longer⟩
  | @copied inode _ file _ after found same split count near stamped positive =>
      have same_ : (disk.append bytes).fs.data file = disk.fs.data file := by
        apply ((copied.apart file ?_).append bytes).2
        rw [split]
        exact List.mem_append_right _ List.mem_cons_self
      rw [← same_] at stamped there
      exact ⟨_, .copied (Disk.append_log found bytes) same split count near stamped positive, there⟩

theorem Kept.append (kept : Kept hash world) (bytes : Bytes) : Kept hash (world.append bytes) := by
  have same : ∀ file ∈ world.copies,
      (world.disk.append bytes).fs.data file = world.disk.fs.data file :=
    fun file member => ((kept.copies.apart file member).append bytes).2
  have resumes : Resumes hash (world.disk.append bytes).fs (world.copies ++ []) world.tailer :=
    kept.resumes.congr same
  rw [List.append_nil] at resumes
  rcases kept.reading with ⟨before, content, reads⟩
  refine ⟨kept.sound.append bytes, ?_, ?_, ?_, resumes, ?_, kept.unseen⟩
  · refine ⟨?_, kept.copies.distinct, ?_, ?_⟩
    · intro file member
      exact ((kept.copies.apart file member).append bytes).1
    · exact (Disk.append_copies bytes).1.trans kept.copies.one
    · exact (Disk.append_copies bytes).2.trans kept.copies.two
  · rcases reads.located.append kept.copies bytes reads.holds reads.drained.mem with
      ⟨longer, located, holds⟩
    refine ⟨before, longer, located, holds, reads.drained.congr ?_⟩
    intro file member
    exact same file (reads.located.leading.subset member)
  · intro cursor saved
    rcases kept.saved cursor saved with ⟨earlier, there, restarts⟩
    rcases restarts.located.append kept.copies bytes restarts.holds (List.forall_mem_nil _) with
      ⟨longer, located, holds⟩
    exact ⟨earlier, longer, located, holds⟩
  · rcases kept.file with closed | ⟨opened, seen⟩
    · exact Or.inl closed
    · refine Or.inr ⟨?_, seen⟩
      have log := reads.located.log seen
      exact opened.trans (log.trans (Disk.append_log log bytes).symm)

/-- A position in a log that is copied and truncated. -/
theorem Located.copytruncate
    (located : Located hash disk copies cursor behind before content) (sound : disk.Sound)
    (copied : CopiesOf disk copies) (found : disk.fs.log = some inode)
    (holds : Holds disk.fs (generationLines disk.fs before) content reached cursor.offset drains)
    (known : ∀ drain ∈ drains, drain.1 ∈ before) (near : behind ≤ 1)
    (identified : linesOf disk.content = [] ∨ CopyWorld.identifies cursor = true) :
    ∃ later there, Located hash disk.copytruncate (copies ++ [disk.next]) cursor (behind + 1)
        later there ∧
      Holds disk.copytruncate.fs (generationLines disk.copytruncate.fs later) there reached
        cursor.offset drains ∧
      (later = before ∨ later = before ++ [disk.next] ∧ linesOf disk.content = []) := by
  have log : disk.copytruncate.fs.log = some inode := Disk.copytruncate_log.trans found
  have kept : ∀ file ∈ before, disk.copytruncate.fs.data file = disk.fs.data file :=
    fun file member => (copied.apart file (located.leading.subset member)).copytruncate.2
  have there : Holds disk.copytruncate.fs (generationLines disk.copytruncate.fs before) content
      reached cursor.offset drains := by
    rw [generationLines_congr kept]
    exact holds.congr fun drain member => kept drain.1 (known drain member)
  rcases sound.copytruncate_copy found with ⟨-, -, copy, -⟩
  have stays : linesOf disk.content = [] → generationLines disk.copytruncate.fs
      (before ++ [disk.next]) = generationLines disk.copytruncate.fs before := by
    intro blank
    rw [generationLines_append, generationLines_cons, copy, ← Disk.content_of_log found, blank]
    simp [generationLines]
  cases located with
  | unseen unknown start unstamped =>
      have blank : linesOf disk.content = [] := by
        apply identified.resolve_right
        simp [CopyWorld.identifies, unstamped]
      refine ⟨_, _, .unseen unknown start unstamped, ?_, Or.inr ⟨rfl, blank⟩⟩
      rw [stays blank]
      exact there.atStart start
  | @live _ window log_ same stamped unread current =>
      cases log_.symm.trans found
      rcases Nat.eq_zero_or_pos window with rfl | positive
      · have blank : linesOf disk.content = [] := by
          apply identified.resolve_right
          simp [CopyWorld.identifies, stamped.len]
        have restamped : Stamped hash (disk.copytruncate.fs.data inode) cursor 0 := by
          refine ⟨stamped.len, Nat.zero_le _, Nat.zero_le _, ?_⟩
          rw [stamped.taken, List.take_zero, List.take_zero]
        refine ⟨_, _, .live log same restamped unread (Or.inr rfl), ?_, Or.inr ⟨rfl, blank⟩⟩
        rw [stays blank]
        exact there.atStart (unread rfl)
      · have now := current.resolve_right positive.ne'
        rw [← copy] at stamped there
        refine ⟨copies, _, .copied log same rfl ?_ ?_ stamped positive.ne', there, Or.inl rfl⟩
        · rw [now, List.length_nil]
        · omega
  | @copied _ window file _ after log_ same split count close stamped positive =>
      cases log_.symm.trans found
      have same_ : disk.copytruncate.fs.data file = disk.fs.data file := by
        apply ((copied.apart file ?_).copytruncate).2
        rw [split]
        exact List.mem_append_right _ List.mem_cons_self
      rw [← same_] at stamped there
      have longer : copies ++ [disk.next] = before ++ file :: (after ++ [disk.next]) := by
        rw [split, List.append_assoc, List.cons_append]
      refine ⟨before, _, .copied log same longer ?_ ?_ stamped positive, there, Or.inl rfl⟩
      · rw [count, List.length_append, List.length_singleton]
      · omega

/-- The drains of a log that is copied and truncated. -/
theorem Kept.drained_copytruncate {later : List ℕ} (kept : Kept hash world)
    (reads : ReadsOn hash world before content) (found : world.disk.fs.log = some inode)
    (near : world.readingBehind ≤ 1)
    (same : later = before ∨
      later = before ++ [world.disk.next] ∧ linesOf world.disk.content = []) :
    Drained world.disk.copytruncate.fs (world.copies ++ [world.disk.next]) later
      world.tailer.state.offset world.tailer.pendingDrains := by
  have stable : Drained world.disk.copytruncate.fs world.copies before world.tailer.state.offset
      world.tailer.pendingDrains := by
    apply reads.drained.congr
    intro file member
    exact (kept.copies.apart file (reads.located.leading.subset member)).copytruncate.2
  cases drains : world.tailer.pendingDrains with
  | nil => exact .none
  | cons front rest =>
      rw [drains] at stable
      cases stable with
      | @some file place earlier behind rest split close start inside clean queued =>
          rcases reads.located.leading with ⟨last, whole⟩
          have copies : world.copies = earlier ++ file :: (behind ++ last) := by
            rw [← whole, split, List.append_assoc, List.cons_append]
          have closer : (world.copies ++ [world.disk.next]).length ≤ earlier.length + 2 := by
            have distance := CopyWorld.readingBehind_of_front drains copies kept.copies.distinct
            have total := congrArg List.length copies
            rw [List.length_append, List.length_cons] at total
            rw [List.length_append, List.length_singleton]
            omega
          rcases same with rfl | ⟨rfl, blank⟩
          · exact .some split closer start inside clean queued
          · have longer : before ++ [world.disk.next] =
                earlier ++ file :: (behind ++ [world.disk.next]) := by
              rw [split, List.append_assoc, List.cons_append]
            have nothing : linesOf (world.disk.copytruncate.fs.data world.disk.next) = [] := by
              rw [(kept.sound.copytruncate_copy found).2.2.1, ← Disk.content_of_log found]
              exact blank
            have more := queued.append (.skip nothing .nil)
            rw [List.append_nil] at more
            exact .some longer closer start inside clean more

theorem CopiesOf.copytruncate (copied : CopiesOf disk copies) (sound : disk.Sound)
    (found : disk.fs.log = some inode) :
    CopiesOf disk.copytruncate (copies ++ [disk.next]) := by
  rcases sound.copytruncate_copy found with ⟨one, two, -, apart⟩
  refine ⟨?_, ?_, ?_, ?_⟩
  · intro file member
    rcases List.mem_append.mp member with old | new
    · exact (copied.apart file old).copytruncate.1
    · rw [List.mem_singleton.mp new]
      exact apart
  · refine List.nodup_append.mpr ⟨copied.distinct, List.pairwise_singleton _ _, ?_⟩
    intro file old other new
    rw [List.mem_singleton.mp new]
    exact (copied.apart file old).old.ne
  · rw [one, List.getLast?_concat]
  · rw [two, List.dropLast_concat]
    exact copied.one

theorem Kept.copytruncate (kept : Kept hash world)
    (resumable : world.resumable hash .copytruncate = true) : Kept hash world.copytruncate := by
  rw [CopyWorld.copytruncate]
  cases found : world.disk.fs.log with
  | none => exact kept
  | some inode =>
      simp only [CopyWorld.resumable, CopyWorld.withinReach, CopyWorld.identified, found,
        Option.isNone_some, Bool.false_or, Bool.and_eq_true, decide_eq_true_eq, Bool.or_eq_true,
        Option.all_eq_true] at resumable
      rcases resumable with ⟨⟨⟨near, nearFront⟩, nearSaved⟩, identified⟩
      rcases kept.reading with ⟨before, content, reads⟩
      refine ⟨kept.sound.copytruncate, kept.copies.copytruncate kept.sound found, ?_, ?_, ?_, ?_,
        kept.unseen⟩
      · have identifies := identified.imp id And.left
        rcases reads.located.copytruncate kept.sound kept.copies found reads.holds
          reads.drained.mem near identifies with ⟨later, there, located, holds, same⟩
        exact ⟨later, there, located, holds, kept.drained_copytruncate reads found nearFront same⟩
      · intro cursor saved
        rcases kept.saved cursor saved with ⟨earlier, there, restarts⟩
        have close : world.savedBehind ≤ 1 := by
          rw [saved] at nearSaved
          simpa using nearSaved
        have identifies : linesOf world.disk.content = [] ∨
            CopyWorld.identifies cursor = true :=
          identified.imp id fun both => both.2 cursor saved
        rcases restarts.located.copytruncate kept.sound kept.copies found restarts.holds
          (List.forall_mem_nil _) close identifies with ⟨later, content, located, holds, -⟩
        exact ⟨later, content, located, holds⟩
      · apply kept.resumes.congr
        intro file member
        exact (kept.copies.apart file member).copytruncate.2
      · rcases kept.file with closed | ⟨opened, seen⟩
        · exact Or.inl closed
        · exact Or.inr ⟨opened.trans Disk.copytruncate_log.symm, seen⟩

end Writing

end Propolis
