import Propolis.Lib.Run
import Propolis.Lib.Sha256
import Propolis.Tailer.Copies

/-!
# Restarting across copytruncate

What the tailer makes of a log that was copytruncated up to twice since it last
looked: the generation its cursor points into goes behind the drains, and the one
copied after it behind that, each with its fingerprint.  With it a call keeps the
invariant, and so does every step.  In every run of resumable steps, a restart on
the saved cursor then returns what was not committed, line by line.
-/

namespace Propolis

open Bytes

variable {hash : Bytes → Digest} {before after : List ℕ} {file : ℕ} {start : LogTailer}
  {prior : List Bytes} {offset : ℕ} {drains : List (ℕ × ℕ)} {state : CursorState} {window : ℕ}
  {world : CopyWorld} {inode maxLines : ℕ}

section Noticing

variable {fs : Fs} {copies : List ℕ} {tailer : LogTailer} {reached : List Bytes} {next : Bytes}

/-- The rest of a file as a drain, if there is a rest. -/
def restOf (fs : Fs) (file offset : ℕ) : List (ℕ × ℕ) :=
  if offset < (fs.data file).length then [(file, offset)] else []

theorem storedGeneration_drains (state : CursorState) :
    (storedGeneration fs state file).map (fun gen => (gen.inode, gen.offset)) =
      restOf fs file state.offset := by
  rw [storedGeneration, restOf]
  split
  · rfl
  · rfl

theorem newerGeneration_drains :
    (newerGeneration hash fs file).map (fun gen => (gen.inode, gen.offset)) =
      restOf fs file 0 := by
  rw [newerGeneration, restOf]
  split
  · rfl
  · rfl

theorem Holds.over (holds : Holds fs prior (fs.data file) reached offset drains) :
    Holds fs (prior ++ linesOf (fs.data file)) next reached 0
      (drains ++ restOf fs file offset) := by
  rw [restOf]
  split
  · exact holds.queued rfl
  · next through =>
      rw [List.append_nil]
      apply holds.left
      rw [List.drop_eq_nil_of_le (Nat.le_of_not_lt through)]
      rfl

theorem queued_restOf (fs : Fs) (file : ℕ) : Queued fs [file] (restOf fs file 0) := by
  rw [restOf]
  split
  · exact .next .nil
  · next empty =>
      apply Queued.skip ?_ .nil
      rw [List.length_eq_zero_iff.mp (Nat.eq_zero_of_not_pos empty)]
      rfl

/-- The file goes behind the drains, and later generations behind it. -/
theorem Drained.over {others : List (ℕ × ℕ)} (drained : Drained fs copies before offset drains)
    (holds : Holds fs prior (fs.data file) reached offset drains)
    (split : copies = before ++ file :: after) (near : after.length ≤ 1)
    (queued : Queued fs after others) :
    Drained fs copies copies 0 (drains ++ restOf fs file offset ++ others) := by
  have total := congrArg List.length split
  rw [List.length_append, List.length_cons] at total
  cases drained with
  | some whole close zero inside clean rest =>
      have more := rest.append ((queued_restOf fs file).append queued)
      rw [zero, List.append_assoc, List.cons_append]
      refine .some ?_ close rfl inside clean more
      rw [split, whole]
      simp
  | none =>
      rw [List.nil_append]
      by_cases unread : offset < (fs.data file).length
      · rw [restOf, if_pos unread]
        exact .some split (by omega) rfl holds.inside holds.clean queued
      · rw [restOf, if_neg unread, List.nil_append]
        cases others with
        | nil => exact .none
        | cons front others =>
            rcases queued.drop (List.drop_zero : List.drop 0 (front :: others) = _) with
              ⟨skipped, later, files, zero, rest⟩
            have start : front = (front.1, 0) := by rw [← zero]
            rw [start]
            refine @Drained.some fs copies copies 0 front.1 0 (before ++ file :: skipped) later
              others ?_ ?_ rfl (Nat.zero_le _) (Or.inl rfl) rest
            · rw [split, files]
              simp
            · simp only [List.length_append, List.length_cons]
              omega

/-- Generations with their fingerprints. -/
def Fingerprinted (hash : Bytes → Digest) (fs : Fs) (copies : List ℕ) (gen : Generation) : Prop :=
  gen.inode ∈ copies ∧ ∀ cursor : CursorState,
    cursor.fingerprint = gen.fingerprint → cursor.fingerprintLen = some gen.fingerprintLen →
    gen.fingerprintLen ≠ 0 ∧ Stamped hash (fs.data gen.inode) cursor gen.fingerprintLen

theorem storedGeneration_fingerprinted (known : file ∈ copies)
    (stamped : Stamped hash (fs.data file) state window) (positive : window ≠ 0) :
    ∀ gen ∈ storedGeneration fs state file, Fingerprinted hash fs copies gen := by
  intro gen member
  rw [storedGeneration] at member
  split at member
  · rw [List.mem_singleton] at member
    subst member
    refine ⟨known, ?_⟩
    intro cursor fingerprint len
    simp only [stamped.len, Option.getD_some] at len ⊢
    exact ⟨positive, len, stamped.fits, stamped.narrow, fingerprint.trans stamped.taken⟩
  · exact absurd member List.not_mem_nil

theorem newerGeneration_fingerprinted (known : file ∈ copies) :
    ∀ gen ∈ newerGeneration hash fs file, Fingerprinted hash fs copies gen := by
  intro gen member
  rw [newerGeneration] at member
  split at member
  · next nonempty =>
      rw [List.mem_singleton] at member
      subst member
      refine ⟨known, ?_⟩
      intro cursor fingerprint len
      have length : (fs.headOf file).length = min 256 (fs.data file).length := List.length_take
      simp only [length] at len ⊢
      exact ⟨by omega, stamped_of_fingerprint fingerprint len⟩
  · exact absurd member List.not_mem_nil

/-- The drains that stay keep their fingerprints. -/
theorem Resumes.keep (resumes : Resumes hash fs copies tailer)
    (drains : ∀ drain ∈ start.pendingDrains, drain.1 ∈ tailer.pendingDrains.map Prod.fst)
    (same : start.resumes = tailer.resumes ∨ start.resumes =
      tailer.resumes.filter fun resume => resume.1 ∈ tailer.pendingDrains.map Prod.fst) :
    Resumes hash fs copies start := by
  have fewer : ∀ resume ∈ start.resumes, resume ∈ tailer.resumes := by
    intro resume member
    rcases same with same | same
    · rw [← same]
      exact member
    · rw [same] at member
      exact List.mem_of_mem_filter member
  refine ⟨fun resume member => resumes.known resume (fewer resume member),
    fun resume member => resumes.taken resume (fewer resume member), ?_⟩
  intro drain member
  have stays := drains drain member
  rcases List.mem_map.mp stays with ⟨earlier, pending, here⟩
  rcases resumes.covered earlier pending with ⟨resume, known, file⟩
  refine ⟨resume, ?_, file.trans here⟩
  rcases same with same | same
  · rw [same]
    exact known
  · rw [same, List.mem_filter]
    refine ⟨known, ?_⟩
    simp only [file, here, decide_eq_true_eq]
    exact stays

theorem Resumes.recover {generations : List Generation} (resumes : Resumes hash fs copies tailer)
    (recovered : Recovered generations tailer start)
    (fingerprinted : ∀ gen ∈ generations, Fingerprinted hash fs copies gen) :
    Resumes hash fs copies start := by
  have cases_ : ∀ resume ∈ start.resumes, resume ∈ tailer.resumes ∨
      ∃ gen ∈ generations, (gen.inode, gen.fingerprint, gen.fingerprintLen) = resume := by
    intro resume member
    rw [recovered.resumes, List.mem_append, List.mem_map] at member
    exact member.imp List.mem_of_mem_filter id
  refine ⟨?_, ?_, ?_⟩
  · intro resume member
    rcases cases_ resume member with old | ⟨gen, queued, rfl⟩
    · exact resumes.known resume old
    · exact (fingerprinted gen queued).1
  · intro resume member
    rcases cases_ resume member with old | ⟨gen, queued, rfl⟩
    · exact resumes.taken resume old
    · exact (fingerprinted gen queued).2
  · intro drain member
    rw [recovered.drains, List.mem_append, List.mem_map] at member
    rw [recovered.resumes]
    rcases member with old | ⟨gen, queued, rfl⟩
    · rcases resumes.covered drain old with ⟨resume, known, same⟩
      refine ⟨resume, List.mem_append_left _ (List.mem_filter.mpr ⟨known, ?_⟩), same⟩
      simp only [same, decide_eq_true_eq]
      exact List.mem_map_of_mem old
    · exact ⟨_, List.mem_append_right _ (List.mem_map_of_mem queued), rfl⟩

/-- The stored generation is the last copy or the one before it. -/
theorem findGenerations_of_copies {disk : Disk} (copied : CopiesOf disk copies)
    (split : copies = before ++ file :: after) (near : after.length ≤ 1)
    (stamped : Stamped hash (disk.fs.data file) state window) (positive : window ≠ 0)
    (inside : state.offset ≤ (disk.fs.data file).length)
    (unlike : after = [] ∨ storedIn hash disk.fs state disk.fs.one = none) :
    findGenerations hash disk.fs state = some (storedGeneration disk.fs state file ++
      after.flatMap (newerGeneration hash disk.fs), false) := by
  have one := copied.one
  have two := copied.two
  cases after with
  | nil =>
      rw [split, List.getLast?_concat] at one
      rw [findGenerations_of_one one stamped positive inside]
      simp
  | cons newer others =>
      have last : others = [] := by
        apply List.length_eq_zero_iff.mp
        rw [List.length_cons] at near
        omega
      subst last
      have shape : copies = (before ++ [file]) ++ [newer] := by
        rw [split]
        simp
      rw [shape, List.getLast?_concat] at one
      rw [shape, List.dropLast_concat, List.getLast?_concat] at two
      have other := unlike.resolve_left (List.cons_ne_nil _ _)
      have stored : storedIn hash disk.fs state disk.fs.two = some file := by
        simp [storedIn, two, Fs.headOf, stamped.headMatches positive, inside]
      rw [findGenerations, other, stored, one]
      simp

end Noticing

section Reading

variable {takens : List (List Bytes)} {result : List TailEntry × LogTailer}

/-- The tailer has gone over to the log as it stands. -/
structure StandsInLog (hash : Bytes → Digest) (world : CopyWorld) (inode : ℕ)
    (start : LogTailer) : Prop where
  ready : Ready hash world.disk.fs inode start
  holds : Holds world.disk.fs (generationLines world.disk.fs world.copies)
    (world.disk.fs.data inode) (world.committed ++ world.handed) start.state.offset
    start.pendingDrains
  drained : Drained world.disk.fs world.copies world.copies start.state.offset start.pendingDrains
  resumes : Resumes hash world.disk.fs world.copies start

/-- Positions that did not change. -/
theorem standsInLog_of_same (kept : Kept hash world)
    (reads : ReadsOn hash world world.copies (world.disk.fs.data inode))
    (ready : Ready hash world.disk.fs inode start)
    (drains : start.pendingDrains = world.tailer.pendingDrains)
    (offset : start.state.offset = world.tailer.state.offset)
    (resumes : start.resumes = world.tailer.resumes ∨ start.resumes = world.tailer.resumes.filter
      fun resume => resume.1 ∈ world.tailer.pendingDrains.map Prod.fst) :
    StandsInLog hash world inode start := by
  refine ⟨ready, ?_, ?_, kept.resumes.keep (fun _ => drains ▸ List.mem_map_of_mem) resumes⟩
  · rw [drains, offset]
    exact reads.holds
  · rw [drains, offset]
    exact reads.drained

/-- A tailer that stands in a copy goes over to the log. -/
theorem Kept.recovered (kept : Kept hash world)
    (reads : ReadsOn hash world before (world.disk.fs.data file))
    (found : world.disk.fs.log = some inode) (same : world.tailer.state.inode = inode)
    (split : world.copies = before ++ file :: after) (near : after.length ≤ 1)
    (stamped : Stamped hash (world.disk.fs.data file) world.tailer.state window)
    (positive : window ≠ 0)
    (unlike : headMatches hash world.tailer.state ((world.disk.fs.data inode).take 256) = false)
    (distinct : after = [] ∨
      storedIn hash world.disk.fs world.tailer.state world.disk.fs.one = none) :
    StandsInLog hash world inode (world.tailer.handleRotation hash fun _ => world.disk.fs) := by
  have copies := findGenerations_of_copies kept.copies split near stamped positive
    reads.holds.inside distinct
  have unempty : world.tailer.state.fingerprintLen ≠ some 0 := by
    rw [stamped.len]
    simpa using positive
  have inCopies : ∀ other ∈ file :: after, other ∈ world.copies := by
    intro other member
    rw [split]
    exact List.mem_append_right _ member
  rcases handleRotation_of_found found same unempty unlike copies with ⟨ready, recovered⟩
  have drains := recovered.drains
  rw [List.map_append, storedGeneration_drains, ← List.append_assoc] at drains
  have fingerprinted : ∀ gen ∈ storedGeneration world.disk.fs world.tailer.state file ++
      after.flatMap (newerGeneration hash world.disk.fs),
      Fingerprinted hash world.disk.fs world.copies gen := by
    intro gen member
    rcases List.mem_append.mp member with stored | newer
    · exact storedGeneration_fingerprinted (inCopies file List.mem_cons_self) stamped positive gen
        stored
    · rcases List.mem_flatMap.mp newer with ⟨other, later, newer⟩
      exact newerGeneration_fingerprinted (inCopies other (List.mem_cons_of_mem _ later)) gen newer
  cases after with
  | nil =>
      rw [List.flatMap_nil, List.map_nil] at drains
      have rest : generationLines world.disk.fs before ++ linesOf (world.disk.fs.data file) =
          generationLines world.disk.fs world.copies := by
        rw [split]
        simp [generationLines]
      refine ⟨ready, ?_, ?_, kept.resumes.recover recovered fingerprinted⟩
      · rw [drains, recovered.offset, List.append_nil, ← rest]
        exact reads.holds.over
      · rw [drains, recovered.offset]
        exact reads.drained.over reads.holds split near .nil
  | cons newer others =>
      have last : others = [] := by
        apply List.length_eq_zero_iff.mp
        rw [List.length_cons] at near
        omega
      subst last
      rw [List.flatMap_cons, List.flatMap_nil, List.append_nil, newerGeneration_drains] at drains
      have rest : generationLines world.disk.fs before ++ linesOf (world.disk.fs.data file) ++
          linesOf (world.disk.fs.data newer) = generationLines world.disk.fs world.copies := by
        rw [split, generationLines_append]
        simp [generationLines]
      refine ⟨ready, ?_, ?_, kept.resumes.recover recovered fingerprinted⟩
      · rw [drains, recovered.offset, ← rest]
        have there : Holds world.disk.fs _ (world.disk.fs.data newer) _ _ _ := reads.holds.over
        exact there.over
      · rw [drains, recovered.offset]
        exact reads.drained.over reads.holds split near (queued_restOf world.disk.fs newer)

theorem Kept.noticed (kept : Kept hash world) (distinguished : world.distinguished hash = true)
    (found : world.disk.fs.log = some inode) :
    StandsInLog hash world inode (world.tailer.handleRotation hash fun _ => world.disk.fs) := by
  rcases kept.reading with ⟨before, content, reads⟩
  cases located : reads.located with
  | unseen unknown offset len =>
      have other : inode ≠ world.tailer.state.inode :=
        unknown.symm ▸ (kept.sound.known inode found).2
      have closed : world.tailer.file = none :=
        kept.file.resolve_right fun opened => opened.2 unknown
      rcases handleRotation_of_inodeChanged found other with ⟨ready, -, leave⟩
      have left := leave closed
      rw [Disk.content_of_log found] at reads
      exact standsInLog_of_same kept reads ready left.drains (left.offset.trans offset.symm)
        left.resumes
  | live log same stamped unread current =>
      cases log.symm.trans found
      have opened : world.tailer.file = none ∨ world.tailer.file = some inode :=
        kept.file.imp id fun opened => opened.1.trans found
      rcases handleRotation_of_stamped found same reads.holds.inside stamped opened with
        ⟨ready, keeps | ⟨empty, left⟩⟩
      · exact standsInLog_of_same kept reads ready keeps.drains keeps.offset keeps.resumes
      · exact standsInLog_of_same kept reads ready left.drains
          (left.offset.trans (unread empty).symm) left.resumes
  | @copied _ window file _ after log same split count near stamped positive =>
      cases log.symm.trans found
      simp only [CopyWorld.distinguished, count, Nat.add_eq_zero_iff, and_false, decide_false,
        stamped.len, reduceCtorEq, Bool.false_or, Disk.content_of_log found, Bool.and_eq_true,
        Bool.not_eq_true', Bool.or_eq_true, decide_eq_true_eq] at distinguished
      rcases distinguished with ⟨unlike, distinct⟩
      apply kept.recovered reads found same split (by omega) stamped positive unlike
      rcases distinct with one | other
      · left
        apply List.length_eq_zero_iff.mp
        omega
      · exact Or.inr other

theorem advanced_drop (count : ℕ) (drains : List (ℕ × ℕ)) (takens : List (List Bytes)) :
    (advanced drains takens).drop count = advanced (drains.drop count) (takens.drop count) := by
  rw [advanced, advanced, List.drop_zipWith]

/-- At most the front of the drains that are left was taken from. -/
theorem BatchRead.front {look : Look → Fs} {exhausted : ℕ} {live : List Bytes}
    (read : BatchRead look start takens exhausted live result) :
    result.2.pendingDrains = [] ∨ ∃ drain rest taken,
      start.pendingDrains.drop exhausted = drain :: rest ∧
      taken <+: drainAhead (look .drain) drain ∧
      result.2.pendingDrains = (drain.1, drain.2 + (terminated taken).length) :: rest := by
  have each := List.forall₂_drop exhausted read.each
  have untouched : ∀ taken ∈ (takens.drop exhausted).drop 1, taken = [] := by
    rw [List.drop_drop]
    exact read.untouched
  have pending := read.pending
  rw [advanced_drop] at pending
  generalize start.pendingDrains.drop exhausted = drains at each pending
  generalize takens.drop exhausted = lines at each pending untouched
  cases each with
  | nil => exact Or.inl pending
  | @cons drain taken rest others here more =>
      refine Or.inr ⟨drain, rest, taken, rfl, here, ?_⟩
      rw [pending, advanced_cons, advanced_untouched more.length_eq untouched]

theorem Drained.read {fs : Fs} {copies : List ℕ} {exhausted : ℕ} {live : List Bytes}
    (drained : Drained fs copies before start.state.offset start.pendingDrains)
    (read : BatchRead (fun _ => fs) start takens exhausted live result) :
    Drained fs copies before result.2.state.offset result.2.pendingDrains := by
  rcases read.front with through | ⟨drain, rest, taken, left, ahead, pending⟩
  · rw [through]
    exact .none
  · have nothing : live = [] := by
      apply read.exclusive.resolve_right
      rw [pending]
      exact List.cons_ne_nil _ _
    have offset : result.2.state.offset = start.state.offset := by
      rw [read.state, nothing]
      rfl
    rw [pending, offset]
    generalize start.pendingDrains = drains at drained left
    cases drained with
    | none => simp at left
    | @some file place earlier later queue split near zero inside clean queued =>
        cases exhausted with
        | zero =>
            cases left
            exact .some split near zero (inside_behind ahead inside) (clean_behind ahead clean)
              queued
        | succ =>
            rcases queued.drop left with ⟨skipped, others, files, first, rests⟩
            have shape : drain = (drain.1, 0) := by rw [← first]
            rw [shape] at ahead
            rw [first]
            refine @Drained.some fs copies before _ drain.1 _ (earlier ++ file :: skipped) others
              rest ?_ ?_ zero (inside_behind ahead (Nat.zero_le _))
              (clean_behind ahead (Or.inl rfl)) rests
            · rw [split, files]
              simp
            · simp only [List.length_append]
              omega

/-- A call, in terms of the lines it takes. -/
theorem CopyWorld.read_batchRead (wanted : 0 < maxLines) :
    ∃ takens exhausted live result,
      BatchRead (fun _ => world.disk.fs)
        (world.tailer.handleRotation hash fun _ => world.disk.fs) takens exhausted live result ∧
      world.read hash maxLines =
        { world with
          tailer := result.2
          handed := world.handed ++ texts (takens.flatten ++ live)
          behind := if world.disk.fs.log.isSome then 0 else world.behind } := by
  rcases readBatch_batchRead wanted world.tailer with
    ⟨takens, exhausted, live, result, read, returned⟩
  refine ⟨takens, exhausted, live, result, read, ?_⟩
  simp [CopyWorld.read, returned, wanted.ne']

variable (kept : Kept hash world)
include kept

theorem Kept.read_found (distinguished : world.distinguished hash = true)
    (wanted : 0 < maxLines) (found : world.disk.fs.log = some inode) :
    Kept hash (world.read hash maxLines) := by
  rcases @CopyWorld.read_batchRead hash world maxLines wanted with
    ⟨takens, exhausted, live, result, read, after⟩
  have stands := kept.noticed distinguished found
  rcases stands.ready.stamped with ⟨window, stamped, empty⟩
  have behind := read.ahead
  simp only [liveContent, found] at behind
  have holds := stands.holds.read read behind
  rw [List.append_assoc] at holds
  have inode_ : result.2.state.inode = inode := by
    rw [read.state]
    exact stands.ready.same
  have restamped : Stamped hash (world.disk.fs.data inode) result.2.state window := by
    rw [read.state]
    exact { stamped with }
  have known := (kept.sound.known inode found).2
  rw [after, found]
  refine ⟨kept.sound, kept.copies, ⟨world.copies, world.disk.fs.data inode, ?_⟩, ?_, ?_, ?_, ?_⟩
  · refine ⟨.live found inode_ restamped ?_ (Or.inl rfl), holds, stands.drained.read read⟩
    intro none
    have inside := holds.inside
    rw [empty none] at inside
    exact Nat.le_zero.mp inside
  · intro cursor saved
    rcases kept.saved cursor saved with ⟨before, content, located, there⟩
    exact ⟨before, content, located, there⟩
  · apply stands.resumes.keep ?_ (Or.inl read.resumes)
    intro drain member
    rw [← read.slots]
    exact List.mem_append_right _ (List.mem_map_of_mem member)
  · rw [read.file, found]
    split
    · rcases stands.ready.file with closed | opened
      · exact Or.inl closed
      · refine Or.inr ⟨opened, ?_⟩
        rw [inode_]
        exact known
    · refine Or.inr ⟨rfl, ?_⟩
      rw [inode_]
      exact known
  · intro unknown
    exact absurd (inode_.symm.trans unknown) known

/-- Without a log there is nothing to read. -/
theorem Kept.read_missing (wanted : 0 < maxLines)
    (missing : world.disk.fs.log = none) : Kept hash (world.read hash maxLines) := by
  rcases @CopyWorld.read_batchRead hash world maxLines wanted with
    ⟨takens, exhausted, live, result, read, after⟩
  rw [handleRotation_of_missing missing] at read
  rcases kept.reading with ⟨before, content, reads⟩
  have unknown : world.tailer.state.inode = 0 := by
    by_contra seen
    exact absurd (missing.symm.trans (reads.located.log seen)) (Option.some_ne_none _).symm
  have drains := kept.unseen unknown
  have none : result.2.pendingDrains = [] := by
    rcases read.front with through | ⟨drain, rest, taken, left, -, -⟩
    · exact through
    · simp [drains] at left
  rcases read.missing missing with ⟨nothing, state, file⟩
  have holds := reads.holds.read read (by rw [nothing]; exact List.nil_prefix)
  rw [List.append_assoc, state] at holds
  rw [after, missing]
  refine ⟨kept.sound, kept.copies, ⟨before, content, ?_, ?_, ?_⟩, ?_, ?_, ?_, ?_⟩
  · rw [state]
    exact reads.located
  · rw [state]
    exact holds
  · rw [none]
    exact .none
  · intro cursor saved
    rcases kept.saved cursor saved with ⟨earlier, there, located, restarts⟩
    exact ⟨earlier, there, located, restarts⟩
  · apply kept.resumes.keep ?_ (Or.inl read.resumes)
    rw [none]
    exact List.forall_mem_nil _
  · left
    rw [file]
    exact kept.file.resolve_right fun opened => opened.2 unknown
  · intro _
    exact none

theorem Kept.read (resumable : world.resumable hash (.read maxLines) = true) :
    Kept hash (world.read hash maxLines) := by
  rcases Nat.eq_zero_or_pos maxLines with rfl | wanted
  · have same : world.read hash 0 = world := by
      simp [CopyWorld.read, LogTailer.readBatch, LogTailer.readBatchBounded, LogTailer.readEntries]
    rw [same]
    exact kept
  · cases found : world.disk.fs.log with
    | none => exact kept.read_missing wanted found
    | some inode =>
        apply kept.read_found ?_ wanted found
        simpa [CopyWorld.resumable, Nat.pos_iff_ne_zero.mp wanted] using resumable

theorem Kept.step {action : CopyAction}
    (resumable : world.resumable hash action = true) : Kept hash (world.step hash action) := by
  cases action with
  | append bytes => exact kept.append bytes
  | copytruncate => exact kept.copytruncate resumable
  | read maxLines => exact kept.read resumable
  | commit => exact kept.commit
  | crash => exact kept.crash

end Reading

section Results

/-- Reading on returns these lines, in this order, and all of them once the log is there. -/
def CopyWorld.Returns (hash : Bytes → Digest) : CopyWorld → List Bytes → Prop :=
  Run.Yields (fun world size => world.read hash size)
    (fun world size => world.resumable hash (.read size)) (0 < ·) (·.disk.fs.log.isSome) (·.handed)

/-- What is still to be handed out follows what was. -/
theorem Kept.remaining (kept : Kept hash world) :
    world.committed ++ world.handed <+: texts world.written := by
  rcases kept.reading with ⟨before, content, reads⟩
  have beginning : generationLines world.disk.fs before ++ linesOf content <+: world.written := by
    cases reads.located with
    | unseen => exact List.prefix_rfl
    | live found same =>
        have same := Disk.content_of_log found
        exact ⟨[], by rw [CopyWorld.written, same, List.append_nil]⟩
    | copied found same split =>
        rw [CopyWorld.written, split, generationLines_append, generationLines_cons,
          ← List.append_assoc, List.append_assoc (_ ++ _)]
        exact List.prefix_append _ _
  rcases beginning with ⟨later, whole⟩
  rw [← whole, texts_append, reads.holds.whole, List.append_assoc]
  exact List.prefix_append _ _

/-- A call that finds the log hands out a line, if there is one left. -/
theorem Kept.read_more (kept : Kept hash world) (distinguished : world.distinguished hash = true)
    (wanted : 0 < maxLines) (found : world.disk.fs.log = some inode) :
    texts world.written = world.committed ++ world.handed ∨
      world.handed.length < (world.read hash maxLines).handed.length := by
  rcases @CopyWorld.read_batchRead hash world maxLines wanted with
    ⟨takens, exhausted, live, result, read, after⟩
  have stands := kept.noticed distinguished found
  rw [after, CopyWorld.written, Disk.content_of_log found, stands.holds.whole]
  exact read.more found

/-- Calls leave the log alone. -/
theorem Kept.returns {lines : List Bytes} (kept : Kept hash world)
    (whole : texts world.written = world.committed ++ lines) : world.Returns hash lines := by
  refine Run.yields_of_meets (Kept hash) (fun world => (world.committed, texts world.written))
    Prod.fst Prod.snd (fun _ _ guard before => before.read guard) (fun _ _ => rfl)
    (fun _ _ => id) (fun _ _ => List.prefix_append _ _) (fun _ before => before.remaining) ?_
    kept whole
  intro reached size guard positive before present
  rcases Option.isSome_iff_exists.mp present with ⟨inode, found⟩
  apply before.read_more ?_ positive found
  simpa [CopyWorld.resumable, positive.ne'] using guard

/-- A restart on the saved cursor reads on from what was committed. -/
theorem restart_resumes (hash : Bytes → Digest) (actions : List CopyAction)
    (resumable : Run.meets (CopyWorld.step hash) (CopyWorld.resumable hash) CopyWorld.start
      actions = true) :
    let world := CopyWorld.start.run hash actions
    ∃ later, texts world.written = world.committed ++ (world.handed ++ later) ∧
      world.Returns hash (world.handed ++ later) ∧
      (world.saved.isSome → world.crash.Returns hash (world.handed ++ later)) := by
  intro world
  have kept : Kept hash world :=
    Run.invariant_of_meets (Kept hash) (fun _ _ guard before => before.step guard)
      CopyWorld.start_kept resumable
  rcases kept.remaining with ⟨later, whole⟩
  rw [List.append_assoc] at whole
  refine ⟨later, whole.symm, kept.returns whole.symm, ?_⟩
  intro saved
  apply kept.crash.returns
  rcases Option.isSome_iff_exists.mp saved with ⟨cursor, there⟩
  rw [CopyWorld.crash, there]
  exact whole.symm

/-- Two rotations go by before the restart, and a copy is being drained at the end. -/
def restartedActions : List CopyAction :=
  [.append (ofText "a\nb\n"), .read 1, .commit, .copytruncate, .append (ofText "c\n"),
    .copytruncate, .append (ofText "d\n"), .crash, .read 1, .commit, .read 1]

theorem restart_resumes_restarted :
    Run.meets (CopyWorld.step sha256) (CopyWorld.resumable sha256) CopyWorld.start
        restartedActions = true ∧
      let world := CopyWorld.start.run sha256 restartedActions
      ∃ later, texts world.written = world.committed ++ (world.handed ++ later) ∧
        world.Returns sha256 (world.handed ++ later) ∧
        (world.saved.isSome → world.crash.Returns sha256 (world.handed ++ later)) := by
  have resumable : Run.meets (CopyWorld.step sha256) (CopyWorld.resumable sha256) CopyWorld.start
      restartedActions = true := by decide +kernel
  exact ⟨resumable, restart_resumes sha256 restartedActions resumable⟩

/-- The contents of the copies and of the log, oldest first. -/
def CopyWorld.generations (world : CopyWorld) : List Bytes :=
  world.copies.map world.disk.fs.data ++ [world.disk.content]

/-- The cursor is saved while the log is empty. -/
def emptyActions : List CopyAction :=
  [.append [], .read 9, .commit, .append (ofText "a\n"), .copytruncate, .append (ofText "b\n"),
    .crash, .read 9, .read 9]

/-- The next generation begins like this one did when the cursor was saved. -/
def similarActions : List CopyAction :=
  [.append (ofText "a\n"), .read 9, .commit, .append (ofText "b\n"), .copytruncate,
    .append (ofText "a\nc\n"), .crash, .read 9, .read 9]

/-- What a run hands out, what it was to hand out, and whether the generations can be told apart by
their first 256 bytes. -/
def restartOutcome (actions : List CopyAction) : List Bytes × List Bytes × Bool :=
  let world := CopyWorld.start.run sha256 actions
  (world.committed ++ world.handed, texts world.written,
    (world.generations.map (·.take 256)).Nodup)

theorem restart_skips_lines :
    restartOutcome emptyActions = ([ofText "b"], [ofText "a", ofText "b"], true) ∧
      restartOutcome similarActions = ([ofText "a", ofText "c"],
        [ofText "a", ofText "b", ofText "a", ofText "c"], true) := by
  decide +kernel

end Results

end Propolis
