import Propolis.Tailer.Positions

/-!
# What a tailer holds of a rotated log

The lines of a log and of its rotated generations, in the order they were
written, are those reached, those of the files being drained behind their offsets,
and those of the file the tailer stands in behind its own.  `Holds` says so of a
position: `prior` are the lines of the generations before the file, `content` is
that file, `reached` are the lines before the position.  `Held` says it of a tailer
as it is, with the lines committed and those handed out since, and of what a rewind
makes of it.

Reading, committing and rewinding keep it, and so does the step to the next
generation, whether the file is queued to be drained or has nothing left.
-/

namespace Propolis

open Bytes

variable {drain : ℕ × ℕ}

/-- The complete lines of the drains behind their offsets. -/
def drainsAhead (fs : Fs) (drains : List (ℕ × ℕ)) : List Bytes :=
  (drains.map (drainAhead fs)).flatten

/-- A position between two lines of a file, with drains before it. -/
structure Holds (fs : Fs) (prior : List Bytes) (content : Bytes) (reached : List Bytes)
    (offset : ℕ) (drains : List (ℕ × ℕ)) : Prop where
  inside : offset ≤ content.length
  clean : EndsClean (content.take offset)
  ahead : texts (prior ++ linesOf (content.take offset)) =
    reached ++ texts (drainsAhead fs drains)

/-- The uncommitted batch goes back to where the committed lines end. -/
structure BatchHeld (fs : Fs) (prior : List Bytes) (content : Bytes) (committed : List Bytes)
    (uncommitted : UncommittedRead) (drains : List (ℕ × ℕ)) (offset : ℕ) : Prop where
  aligned : Aligned uncommitted drains
  back : uncommitted.offset ≤ offset
  holds : Holds fs prior content committed uncommitted.offset (rewoundDrains uncommitted drains)

structure Held (fs : Fs) (prior : List Bytes) (content : Bytes) (committed handed : List Bytes)
    (tailer : LogTailer) : Prop where
  holds : Holds fs prior content (committed ++ handed) tailer.state.offset tailer.pendingDrains
  quiet : tailer.uncommitted = none → handed = []
  batch : ∀ uncommitted, tailer.uncommitted = some uncommitted →
    BatchHeld fs prior content committed uncommitted tailer.pendingDrains tailer.state.offset

variable {fs : Fs} {drains : List (ℕ × ℕ)} {takens : List (List Bytes)} {exhausted : ℕ}
  {content : Bytes} {offset : ℕ} {live prior : List Bytes} {longer : Bytes} {other : Fs} {file : ℕ}
  {next : Bytes} {committed handed : List Bytes} {tailer : LogTailer} {inode : ℕ}

section Lists

theorem drainsAhead_append (front back : List (ℕ × ℕ)) :
    drainsAhead fs (front ++ back) = drainsAhead fs front ++ drainsAhead fs back := by
  simp [drainsAhead]

theorem drainsAhead_cons (drain : ℕ × ℕ) (rest : List (ℕ × ℕ)) :
    drainsAhead fs (drain :: rest) = drainAhead fs drain ++ drainsAhead fs rest := by
  simp [drainsAhead]

/-- A drain some lines of which have been taken. -/
theorem drainAhead_advanced {taken : List Bytes} (beginning : taken <+: drainAhead fs drain) :
    taken ++ drainAhead fs (drain.1, drain.2 + (terminated taken).length) =
      drainAhead fs drain := by
  rcases beginning with ⟨others, split⟩
  have behind := (take_drop_of_linesOf_eq split).2
  rw [List.drop_drop] at behind
  rw [drainAhead, behind, split]

theorem advanced_untouched (paired : drains.length = takens.length)
    (untouched : ∀ taken ∈ takens, taken = []) : advanced drains takens = drains := by
  induction drains generalizing takens with
  | nil => rfl
  | cons drain rest ih =>
      cases takens with
      | nil => simp at paired
      | cons =>
          rw [List.forall_mem_cons] at untouched
          rw [advanced_cons, ih (Nat.succ.inj paired) untouched.2, untouched.1]
          rfl

/-- The lines of the drains are those taken and those still ahead. -/
theorem drainsAhead_taken
    (each : List.Forall₂ (fun drain taken => taken <+: drainAhead fs drain) drains takens)
    (whole : takens.take exhausted = (drains.take exhausted).map (drainAhead fs))
    (untouched : ∀ taken ∈ takens.drop (exhausted + 1), taken = []) :
    drainsAhead fs drains =
      takens.flatten ++ drainsAhead fs ((advanced drains takens).drop exhausted) := by
  induction each generalizing exhausted with
  | nil => simp [advanced]
  | @cons drain taken drains takens here others ih =>
      cases exhausted with
      | zero =>
          have nothing : takens.flatten = [] := List.flatten_eq_nil_iff.mpr untouched
          rw [List.drop_zero, advanced_cons, advanced_untouched others.length_eq untouched,
            drainsAhead_cons, drainsAhead_cons, List.flatten_cons, nothing, List.append_nil,
            ← List.append_assoc, drainAhead_advanced here]
      | succ =>
          simp only [List.take_succ_cons, List.map_cons, List.cons.injEq] at whole
          have rest := ih whole.2 untouched
          rw [drainsAhead_cons, rest, ← whole.1, List.flatten_cons, advanced_cons,
            List.drop_succ_cons, List.append_assoc]

end Lists

/-- The lines of a file on both sides of a place between two lines. -/
theorem linesOf_split (clean : EndsClean (content.take offset)) :
    linesOf (content.take offset) ++ linesOf (content.drop offset) = linesOf content := by
  rw [← clean.linesOf_append, List.take_append_drop]

section Positions

variable {reached : List Bytes}

variable (holds : Holds fs prior content reached offset drains)
include holds

theorem Holds.grow (extended : content <+: longer) :
    Holds fs prior longer reached offset drains := by
  have same : longer.take offset = content.take offset := by
    rcases extended with ⟨more, rfl⟩
    exact List.take_append_of_le_length holds.inside
  refine ⟨holds.inside.trans extended.length_le, ?_, ?_⟩
  · rw [same]
    exact holds.clean
  · rw [same]
    exact holds.ahead

/-- At the beginning of a file it does not matter which one it is. -/
theorem Holds.atStart
    (start : offset = 0) {other : Bytes} : Holds fs prior other reached offset drains := by
  subst start
  exact ⟨Nat.zero_le _, Or.inl rfl, holds.ahead⟩

theorem Holds.congr (same : ∀ drain ∈ drains, other.data drain.1 = fs.data drain.1) :
    Holds other prior content reached offset drains := by
  have equal : drainsAhead other drains = drainsAhead fs drains := by
    rw [drainsAhead]
    congr 1
    apply List.map_congr_left
    intro drain member
    rw [drainAhead, drainAhead, same drain member]
  refine ⟨holds.inside, holds.clean, ?_⟩
  rw [equal]
  exact holds.ahead

/-- The lines reached, those of the drains and those behind the position are all there are. -/
theorem Holds.whole : texts (prior ++ linesOf content) =
    reached ++ texts (drainsAhead fs drains ++ linesOf (content.drop offset)) := by
  rw [← linesOf_split holds.clean, ← List.append_assoc, texts_append, holds.ahead,
    texts_append (drainsAhead _ _), List.append_assoc]

/-- The rest of the file is queued, and the position is the beginning of the next one. -/
theorem Holds.queued (same : fs.data file = content) :
    Holds fs (prior ++ linesOf content) next reached 0 (drains ++ [(file, offset)]) := by
  have rest : drainsAhead fs [(file, offset)] = linesOf (content.drop offset) := by
    simp [drainsAhead, drainAhead, same]
  have nothing : linesOf (next.take 0) = [] := rfl
  refine ⟨Nat.zero_le _, Or.inl rfl, ?_⟩
  rw [drainsAhead_append, rest, nothing, List.append_nil, holds.whole]

/-- There is no rest, and the position is the beginning of the next file. -/
theorem Holds.left (nothing : linesOf (content.drop offset) = []) :
    Holds fs (prior ++ linesOf content) next reached 0 drains := by
  have whole := linesOf_split holds.clean
  rw [nothing, List.append_nil] at whole
  refine ⟨Nat.zero_le _, Or.inl rfl, ?_⟩
  change texts (prior ++ linesOf content ++ []) = _
  rw [List.append_nil, ← whole]
  exact holds.ahead

/-- Nothing is ahead in a file without lines. -/
theorem Holds.nothing_ahead
    (blank : linesOf content = []) : linesOf (content.drop offset) = [] := by
  have whole := linesOf_split holds.clean
  rw [blank] at whole
  exact (List.append_eq_nil_iff.mp whole).2

end Positions

section Steps

section

variable (held : Held fs prior content committed handed tailer)
include held

theorem Held.back :
    ∀ uncommitted, tailer.uncommitted = some uncommitted →
      uncommitted.offset ≤ tailer.state.offset :=
  fun uncommitted batch => (held.batch uncommitted batch).back

theorem Held.commit : Held fs prior content (committed ++ handed) [] tailer.commitBatch := by
  refine ⟨?_, fun _ => rfl, ?_⟩
  · rw [List.append_nil]
    exact held.holds
  · intro uncommitted impossible
    simp [LogTailer.commitBatch] at impossible

theorem Held.rewind : Held fs prior content committed [] tailer.rewindBatch := by
  cases batch : tailer.uncommitted with
  | none =>
      have same : tailer.rewindBatch = tailer := by simp [LogTailer.rewindBatch, batch]
      have none := held.quiet batch
      rw [same]
      rw [none] at held
      exact held
  | some uncommitted =>
      have back := held.batch uncommitted batch
      rw [rewindBatch_eq batch back.aligned]
      refine ⟨?_, fun _ => rfl, ?_⟩
      · rw [List.append_nil]
        exact back.holds
      · intro other impossible
        simp at impossible

theorem rewindBatch_fields :
    tailer.rewindBatch.state =
        { tailer.state with offset := tailer.rewindBatch.state.offset } ∧
      tailer.rewindBatch.state.offset ≤ tailer.state.offset ∧
      tailer.rewindBatch.file = tailer.file := by
  cases batch : tailer.uncommitted with
  | none =>
      rw [LogTailer.rewindBatch, batch]
      exact ⟨rfl, le_rfl, rfl⟩
  | some uncommitted =>
      have back := held.batch uncommitted batch
      rw [rewindBatch_eq batch back.aligned]
      exact ⟨rfl, back.back, rfl⟩

theorem Held.atStart (start : tailer.state.offset = 0) {other : Bytes} :
    Held fs prior other committed handed tailer := by
  refine ⟨held.holds.atStart start, held.quiet, ?_⟩
  intro uncommitted batch
  have back := held.batch uncommitted batch
  have zero : uncommitted.offset = 0 := by
    have before := back.back
    omega
  exact ⟨back.aligned, back.back, back.holds.atStart zero⟩

theorem Held.grow (extended : content <+: longer) :
    Held fs prior longer committed handed tailer := by
  refine ⟨held.holds.grow extended, held.quiet, ?_⟩
  intro uncommitted batch
  have back := held.batch uncommitted batch
  exact ⟨back.aligned, back.back, back.holds.grow extended⟩

end

/-- The files a tailer drains or may go back to. -/
def LogTailer.draining (tailer : LogTailer) : List ℕ :=
  match tailer.uncommitted with
  | none => tailer.pendingDrains.map Prod.fst
  | some uncommitted => uncommitted.exhausted ++ tailer.pendingDrains.map Prod.fst

theorem mem_draining_of_pending (member : drain ∈ tailer.pendingDrains) :
    drain.1 ∈ tailer.draining := by
  have file : drain.1 ∈ tailer.pendingDrains.map Prod.fst := List.mem_map_of_mem member
  rw [LogTailer.draining]
  cases tailer.uncommitted with
  | none => exact file
  | some => exact List.mem_append_right _ file

theorem mem_draining_of_rewound {uncommitted : UncommittedRead}
    (batch : tailer.uncommitted = some uncommitted)
    (member : drain ∈ rewoundDrains uncommitted tailer.pendingDrains) :
    drain.1 ∈ tailer.draining := by
  rw [LogTailer.draining, batch]
  exact (List.of_mem_zip member).1

theorem draining_commitBatch (member : inode ∈ tailer.commitBatch.draining) :
    inode ∈ tailer.draining := by
  rcases List.mem_map.mp member with ⟨drain, pending, rfl⟩
  exact mem_draining_of_pending pending

variable (held : Held fs prior content committed handed tailer)
include held

theorem Held.draining_rewindBatch (member : inode ∈ tailer.rewindBatch.draining) :
    inode ∈ tailer.draining := by
  cases batch : tailer.uncommitted with
  | none =>
      rw [LogTailer.rewindBatch, batch] at member
      exact member
  | some uncommitted =>
      rw [rewindBatch_eq batch (held.batch uncommitted batch).aligned] at member
      rcases List.mem_map.mp member with ⟨drain, restored, rfl⟩
      exact mem_draining_of_rewound batch restored

/-- What is held does not depend on files that are not drained. -/
theorem Held.congr (same : ∀ inode ∈ tailer.draining, other.data inode = fs.data inode) :
    Held other prior content committed handed tailer := by
  refine ⟨?_, held.quiet, ?_⟩
  · apply held.holds.congr
    intro drain member
    exact same drain.1 (mem_draining_of_pending member)
  · intro uncommitted batch
    have back := held.batch uncommitted batch
    refine ⟨back.aligned, back.back, back.holds.congr ?_⟩
    intro drain member
    exact same drain.1 (mem_draining_of_rewound batch member)

end Steps

section Reads

variable {look : Look → Fs} {start : LogTailer} {result : List TailEntry × LogTailer}

/-- The batch a read joins or begins. -/
theorem Held.snapshot (held : Held fs prior content committed handed start) :
    BatchHeld fs prior content committed start.snapshot start.pendingDrains start.state.offset := by
  cases batch : start.uncommitted with
  | none =>
      have holds := held.holds
      rw [held.quiet batch, List.append_nil] at holds
      rw [snapshot_of_fresh batch]
      refine ⟨?_, le_rfl, ?_⟩
      · simp [Aligned]
      · rw [rewoundDrains, List.nil_append, zip_fst_snd]
        exact holds
  | some uncommitted =>
      have back := held.batch uncommitted batch
      have joined : start.snapshot = { uncommitted with spansValid := false } := by
        rw [LogTailer.snapshot, batch]
      rw [joined]
      exact { back with }

section

variable (read : BatchRead look start takens exhausted live result)
include read

theorem BatchRead.drainsAhead :
    drainsAhead (look .drain) start.pendingDrains =
      takens.flatten ++ drainsAhead (look .drain) result.2.pendingDrains := by
  rw [read.pending]
  exact drainsAhead_taken read.each read.whole read.untouched

/-- Lines of the file itself are read only once the drains are through. -/
theorem BatchRead.exclusive : live = [] ∨ result.2.pendingDrains = [] := by
  rcases Nat.lt_or_ge exhausted start.pendingDrains.length with left | through
  · exact Or.inl (read.drained left)
  · right
    have length := congrArg List.length (advanced_map_fst read.paired)
    rw [List.length_map, List.length_map] at length
    rw [read.pending]
    exact List.drop_eq_nil_of_le (length.trans_le through)

theorem BatchRead.draining : result.2.draining = start.draining := by
  rw [LogTailer.draining, read.recorded]
  dsimp only
  rw [List.append_assoc, read.slots, LogTailer.draining, LogTailer.snapshot]
  cases start.uncommitted with
  | none => rfl
  | some => rfl

end

/-- A log that is not there: only the drains are read. -/
theorem BatchRead.missing (read : BatchRead (fun _ => fs) start takens exhausted live result)
    (missing : fs.log = none) :
    live = [] ∧ result.2.state = start.state ∧ result.2.file = start.file := by
  have nothing : live = [] := by
    have ahead := read.ahead
    simp only [liveContent, missing, List.drop_nil] at ahead
    exact List.prefix_nil.mp ahead
  refine ⟨nothing, ?_, ?_⟩
  · rw [read.state, nothing]
    rfl
  · rw [read.file, missing]
    split <;> rfl

/-- Where the log is there a line is taken, if there is one left. -/
theorem BatchRead.more (read : BatchRead (fun _ => fs) start takens exhausted live result)
    (found : fs.log = some inode) :
    committed ++ handed ++ texts (Propolis.drainsAhead fs start.pendingDrains ++
        linesOf ((fs.data inode).drop start.state.offset)) = committed ++ handed ∨
      handed.length < (handed ++ texts (takens.flatten ++ live)).length := by
  have ahead : Propolis.drainsAhead fs start.pendingDrains ++
      linesOf ((fs.data inode).drop start.state.offset) = linesAhead (fun _ => fs) start := by
    rw [linesAhead, liveContent, found, Propolis.drainsAhead]
  rw [ahead]
  by_cases nothing : texts (linesAhead (fun _ => fs) start) = []
  · left
    rw [nothing, List.append_nil]
  · right
    have taken := List.length_pos_iff.mpr (read.moved nothing)
    rw [List.length_append]
    omega

/-- A call, in terms of the lines it takes. -/
theorem readBatch_batchRead {hash : Bytes → Digest} {maxLines : ℕ} (wanted : 0 < maxLines)
    (tailer : LogTailer) : ∃ takens exhausted live result,
      BatchRead look (tailer.handleRotation hash look) takens exhausted live result ∧
      tailer.readBatch hash maxLines look = (texts (takens.flatten ++ live), result.2) := by
  rcases @readEntries_batchRead hash look maxLines (2 ^ 64 - 1) tailer wanted with
    ⟨takens, exhausted, live, read⟩
  refine ⟨takens, exhausted, live, _, read, Prod.ext ?_ rfl⟩
  rw [← texts_of_entries, ← read.entries]
  rfl

/-- Lines taken from the drains and the file the position is in. -/
theorem Holds.read {reached : List Bytes}
    (holds : Holds (look .drain) prior content reached start.state.offset start.pendingDrains)
    (read : BatchRead look start takens exhausted live result)
    (behind : live <+: linesOf (content.drop start.state.offset)) :
    Holds (look .drain) prior content (reached ++ texts (takens.flatten ++ live))
      result.2.state.offset result.2.pendingDrains := by
  have offset : result.2.state.offset = start.state.offset + (terminated live).length := by
    rw [read.state]
  have before := holds.ahead
  rw [read.drainsAhead] at before
  rw [offset]
  refine ⟨inside_behind behind holds.inside, clean_behind behind holds.clean, ?_⟩
  rw [linesOf_behind behind holds.clean, ← List.append_assoc, texts_append, before]
  rcases read.exclusive with none | through
  · simp [none, texts_append]
  · simp [through, Propolis.drainsAhead, texts_append]

/-- A batch taken from the drains and the file the tailer stands in. -/
theorem Held.read (held : Held (look .drain) prior content committed handed start)
    (read : BatchRead look start takens exhausted live result)
    (behind : live <+: linesOf (content.drop start.state.offset)) :
    Held (look .drain) prior content committed (handed ++ texts (takens.flatten ++ live))
      result.2 := by
  refine ⟨?_, ?_, ?_⟩
  · rw [← List.append_assoc]
    exact held.holds.read read behind
  · intro impossible
    rw [read.recorded] at impossible
    exact absurd impossible (Option.some_ne_none _)
  · intro uncommitted batch
    have back := held.snapshot
    have slots := read.slots
    have aligned := back.aligned
    have lengths := congrArg List.length slots
    rw [read.recorded] at batch
    cases batch
    refine ⟨?_, ?_, ?_⟩
    · simp only [Aligned, UncommittedRead.extended, List.length_append, List.length_map]
        at aligned lengths ⊢
      omega
    · rw [read.state]
      exact back.back.trans (Nat.le_add_right _ _)
    · have same := back.holds
      simp only [rewoundDrains, List.append_assoc, slots]
      exact same

end Reads

section Generations

variable {after : LogTailer}

/-- The rest of the file is queued behind the drains and the tailer goes to the next one. -/
structure QueuedBehind (file : ℕ) (tailer after : LogTailer) : Prop where
  drains : after.pendingDrains = tailer.pendingDrains ++ [(file, tailer.state.offset)]
  offset : after.state.offset = 0
  batch : after.uncommitted = tailer.uncommitted.map fun uncommitted =>
    { uncommitted with
      drainOffsets := uncommitted.drainOffsets ++ [uncommitted.offset], offset := 0 }

/-- Nothing is queued and the tailer goes to the next file. -/
structure LeftBehind (tailer after : LogTailer) : Prop where
  drains : after.pendingDrains = tailer.pendingDrains
  offset : after.state.offset = 0
  batch : after.uncommitted = tailer.uncommitted.map fun uncommitted =>
    { uncommitted with offset := 0 }
  resumes : after.resumes = tailer.resumes ∨ after.resumes =
    tailer.resumes.filter fun resume => resume.1 ∈ tailer.pendingDrains.map Prod.fst

theorem QueuedBehind.draining (queued : QueuedBehind file tailer after) :
    after.draining = tailer.draining ++ [file] := by
  rw [LogTailer.draining, LogTailer.draining, queued.batch, queued.drains]
  cases tailer.uncommitted with
  | none => simp
  | some => simp

theorem LeftBehind.draining (left : LeftBehind tailer after) :
    after.draining = tailer.draining := by
  rw [LogTailer.draining, LogTailer.draining, left.batch, left.drains]
  cases tailer.uncommitted with
  | none => rfl
  | some => rfl

variable (held : Held fs prior content committed handed tailer)
include held

theorem Held.queued (same : fs.data file = content) (queued : QueuedBehind file tailer after) :
    Held fs (prior ++ linesOf content) next committed handed after := by
  refine ⟨?_, ?_, ?_⟩
  · rw [queued.offset, queued.drains]
    exact held.holds.queued same
  · intro none
    rw [queued.batch, Option.map_eq_none_iff] at none
    exact held.quiet none
  · intro uncommitted batch
    rw [queued.batch] at batch
    rcases Option.map_eq_some_iff.mp batch with ⟨earlier, found, rfl⟩
    have back := held.batch earlier found
    have aligned := back.aligned
    refine ⟨?_, Nat.zero_le _, ?_⟩
    · simp only [Aligned, queued.drains, List.length_append, List.length_singleton] at aligned ⊢
      omega
    · have restored : rewoundDrains
          { earlier with drainOffsets := earlier.drainOffsets ++ [earlier.offset], offset := 0 }
          after.pendingDrains =
          rewoundDrains earlier tailer.pendingDrains ++ [(file, earlier.offset)] := by
        simp only [rewoundDrains, queued.drains, List.map_append]
        rw [← List.append_assoc, List.zip_append]
        · rfl
        · rw [Aligned] at aligned
          simp [aligned]
      rw [restored]
      exact back.holds.queued same

theorem Held.left (nothing : linesOf (content.drop tailer.state.offset) = [])
    (nothingRewound : ∀ uncommitted, tailer.uncommitted = some uncommitted →
      linesOf (content.drop uncommitted.offset) = [])
    (left : LeftBehind tailer after) :
    Held fs (prior ++ linesOf content) next committed handed after := by
  refine ⟨?_, ?_, ?_⟩
  · rw [left.offset, left.drains]
    exact held.holds.left nothing
  · intro none
    rw [left.batch, Option.map_eq_none_iff] at none
    exact held.quiet none
  · intro uncommitted batch
    rw [left.batch] at batch
    rcases Option.map_eq_some_iff.mp batch with ⟨earlier, found, rfl⟩
    have back := held.batch earlier found
    rw [left.drains]
    exact ⟨back.aligned, Nat.zero_le _, back.holds.left (nothingRewound earlier found)⟩

end Generations

end Propolis
