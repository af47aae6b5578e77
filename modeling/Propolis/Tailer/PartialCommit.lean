import Propolis.Lib.Sha256
import Propolis.Tailer.Landing

/-!
# A partial commit lands on the requested line

`commit_batch_through` puts the positions of a batch back and moves them over the
spans of its first lines.  Reading on from there returns the other lines of the batch
and then what is behind it, whether the log stands as it was, has been appended to or
has been renamed.  `uncommitted_line` says where in its file each line of the batch
begins.
-/

namespace Propolis

open Bytes

variable {hash : Bytes → Digest} {log : Option ℕ} {drained : List ℕ} {fs : Fs} {tailer : LogTailer}
  {calls more : List LaterRead} {later : Fs} {start : LogTailer} {takens : List (List Bytes)}
  {exhausted : ℕ} {live : List Bytes} {result : List TailEntry × LogTailer}
  {parts : List (List Bytes)} {offsets : List ℕ}

section Calls

variable {opened : Prop} {origin : CursorState}

/-- A call that reads on: what it finds, how much it takes, and whether it is committed. -/
structure LaterRead where
  fs : Fs
  maxLines : ℕ
  maxBytes : ℕ
  commits : Bool

/-- One call, with the lines returned so far. -/
def LogTailer.readOn (hash : Bytes → Digest) (reader : LogTailer × List Bytes)
    (call : LaterRead) : LogTailer × List Bytes :=
  let read := reader.1.readBatchBounded hash call.maxLines call.maxBytes fun _ => call.fs
  (if call.commits then read.2.commitBatch else read.2, reader.2 ++ read.1)

/-- Every call finds the files as they may be since the one before. -/
def Successive (hash : Bytes → Digest) (log : Option ℕ) (drained : List ℕ) (opened : Prop)
    (origin : CursorState) : Fs → List LaterRead → Prop
  | _, [] => True
  | earlier, call :: later =>
      Since log drained earlier call.fs ∧ Findable hash log opened origin call.fs ∧
        Successive hash log drained opened origin call.fs later

/-- What the last of the calls finds. -/
def lastFs (fs : Fs) (calls : List LaterRead) : Fs :=
  calls.foldl (fun _ call => call.fs) fs

theorem Stage.commitBatch (stage : Stage hash log drained opened origin fs tailer) :
    Stage hash log drained opened origin fs tailer.commitBatch := by
  cases stage with
  | absent none_ missing drains => exact .absent none_ missing drains
  | reading some_ knows grown file unmeasured drains =>
      exact .reading some_ { knows with } grown file unmeasured drains
  | over_ some_ found different knows grown measured drains =>
      exact .over_ some_ found different { knows with } grown measured drains

/-- Whether a call is committed or not, it reads on. -/
theorem Stage.readOn {call : LaterRead}
    (stage : Stage hash log drained opened origin call.fs tailer)
    (findable : Findable hash log opened origin call.fs) (handed : List Bytes) :
    ∃ after lines, LogTailer.readOn hash (tailer, handed) call = (after, handed ++ lines) ∧
      Stage hash log drained opened origin call.fs after ∧
      (∀ later, Since log drained call.fs later →
        texts (behind log later tailer) = lines ++ texts (behind log later after)) ∧
      (0 < call.maxLines → (log.isSome = true → call.fs.log.isSome = true) →
        texts (behind log call.fs tailer) ≠ [] → lines ≠ []) := by
  refine ⟨_, _, rfl, ?_⟩
  simp only [LogTailer.readBatchBounded]
  by_cases wanted : 0 < call.maxLines
  · have reads := @Stage.read hash call.fs log drained opened origin tailer call.maxLines
      call.maxBytes stage findable wanted
    cases call.commits with
    | false => exact ⟨reads.stage, reads.front, fun _ => reads.moves⟩
    | true => exact ⟨reads.stage.commitBatch, reads.front, fun _ => reads.moves⟩
  · have nothing : tailer.readEntries hash call.maxLines call.maxBytes (fun _ => call.fs) =
        ([], tailer) := by
      rw [LogTailer.readEntries, if_pos (by omega)]
    rw [nothing]
    cases call.commits with
    | false => exact ⟨stage, fun _ _ => rfl, fun positive => absurd positive wanted⟩
    | true => exact ⟨stage.commitBatch, fun _ _ => rfl, fun positive => absurd positive wanted⟩

theorem Since.missing_self {earlier : Fs} (since : Since log drained earlier later) :
    Since log drained later later :=
  Since.refl since.missing

/-- What a run of calls returns, followed by what is behind it, is what was behind its start. -/
theorem Stage.run (handed : List Bytes) (stage : Stage hash log drained opened origin fs tailer)
    (refl : Since log drained fs fs)
    (successive : Successive hash log drained opened origin fs calls) :
    ∃ after lines, calls.foldl (LogTailer.readOn hash) (tailer, handed) =
        (after, handed ++ lines) ∧
      Stage hash log drained opened origin (lastFs fs calls) after ∧
      Since log drained fs (lastFs fs calls) ∧
      ∀ later, Since log drained (lastFs fs calls) later →
        texts (behind log later tailer) = lines ++ texts (behind log later after) := by
  induction calls generalizing tailer handed fs with
  | nil => exact ⟨tailer, [], by simp, stage, refl, fun _ _ => rfl⟩
  | cons call later ih =>
      obtain ⟨since, findable, rest⟩ := successive
      obtain ⟨middle, first, read, stage, front, -⟩ :=
        (stage.since since).readOn findable handed
      obtain ⟨after, lines, run, final, followed, behind_⟩ :=
        ih (handed ++ first) stage since.missing_self rest
      refine ⟨after, first ++ lines, ?_, final, since.trans followed, ?_⟩
      · rw [List.foldl_cons, read, run, List.append_assoc]
      · intro final since
        rw [front _ (followed.trans since), behind_ final since, List.append_assoc]

/-- Enough calls to the files as they stand return everything. -/
theorem Stage.run_all (handed : List Bytes) (stage : Stage hash log drained opened origin fs tailer)
    (successive : Successive hash log drained opened origin fs calls)
    (still : ∀ call ∈ calls, call.fs = fs ∧ 0 < call.maxLines)
    (there : log.isSome = true → fs.log.isSome = true)
    (enough : (texts (behind log fs tailer)).length ≤ calls.length) :
    texts (behind log fs (calls.foldl (LogTailer.readOn hash) (tailer, handed)).1) = [] := by
  induction calls generalizing tailer handed with
  | nil => exact List.length_eq_zero_iff.mp (Nat.le_zero.mp enough)
  | cons call later ih =>
      obtain ⟨same, wanted⟩ := still call List.mem_cons_self
      obtain ⟨since, findable, rest⟩ := successive
      rw [same] at since findable rest
      have stage' : Stage hash log drained opened origin call.fs tailer := same.symm ▸ stage
      obtain ⟨middle, first, read, next, front, moves⟩ :=
        stage'.readOn (same.symm ▸ findable) handed
      rw [same] at next front moves
      have split := front fs since
      rw [List.foldl_cons, read]
      apply ih _ next rest
      · exact fun other member => still other (List.mem_cons_of_mem _ member)
      · rw [split, List.length_append, List.length_cons] at enough
        by_cases nothing : texts (behind log fs tailer) = []
        · rw [split] at nothing
          rw [(List.append_eq_nil_iff.mp nothing).2]
          exact Nat.zero_le _
        · have some_ := List.length_pos_iff.mpr (moves wanted there nothing)
          omega

theorem successive_append
    (successive : Successive hash log drained opened origin fs (calls ++ more)) :
    Successive hash log drained opened origin fs calls ∧
      Successive hash log drained opened origin (lastFs fs calls) more := by
  induction calls generalizing fs with
  | nil => exact ⟨trivial, successive⟩
  | cons call later ih =>
      obtain ⟨since, findable, rest⟩ := successive
      obtain ⟨before, after⟩ := ih rest
      exact ⟨⟨since, findable, before⟩, after⟩

/-- However the files have changed meanwhile, enough calls to them as they stand in the end return
everything. -/
theorem Stage.run_appended (stage : Stage hash log drained opened origin fs tailer)
    (successive : Successive hash log drained opened origin fs (calls ++ more))
    (refl : Since log drained fs fs)
    (still : ∀ call ∈ more, call.fs = lastFs fs (calls ++ more) ∧ 0 < call.maxLines)
    (there : log.isSome = true → (lastFs fs (calls ++ more)).log.isSome = true)
    (enough : (texts (behind log (lastFs fs (calls ++ more)) tailer)).length ≤ more.length) :
    texts (behind log (lastFs fs (calls ++ more))
      ((calls ++ more).foldl (LogTailer.readOn hash) (tailer, [])).1) = [] := by
  obtain ⟨before, after⟩ := successive_append successive
  obtain ⟨middle, lines, run, reached, followed, split⟩ := stage.run [] refl before
  have unfinished : Since log drained (lastFs fs calls) (lastFs fs (calls ++ more)) ∧
      Successive hash log drained opened origin (lastFs fs (calls ++ more)) more := by
    cases more with
    | nil =>
        rw [List.append_nil]
        exact ⟨followed.missing_self, trivial⟩
    | cons call later =>
        obtain ⟨since, findable, rest⟩ := after
        have same := (still call List.mem_cons_self).1
        rw [← same]
        exact ⟨since, since.missing_self, findable, rest⟩
  obtain ⟨since, again⟩ := unfinished
  rw [split _ since, List.length_append] at enough
  rw [List.foldl_append, run]
  exact (reached.since since).run_all _ again still there (by omega)

end Calls

section Batch

section

variable (read : BatchRead (fun _ => fs) start takens exhausted live result)
include read

theorem positions_movedThrough (count : ℕ) :
    positions log (movedThrough count takens live start result.2) =
      advanced (positions log start) (uptoLines count (takens ++ livePart log live)) := by
  rw [positions, positions, uptoLines_append, advanced, List.zipWith_append (by
    rw [uptoLines_length, read.paired])]
  cases log with
  | none => rfl
  | some _ => rfl

variable (kept : ∀ drain ∈ start.pendingDrains, later.data drain.1 = fs.data drain.1)
  (front : log.isSome = true → live <+: drainAhead later (start.state.inode, start.state.offset))
  (nothing : log = none → live = []) (count : ℕ)
include kept front nothing

/-- Moving over the first lines of a batch leaves the others ahead. -/
theorem BatchRead.texts_behind_moved :
    texts (behind log later start) =
      (texts (takens.flatten ++ live)).take count ++
        texts (behind log later (movedThrough count takens live start result.2)) := by
  have cut := ((read.cut kept front).uptoLines count).texts_eq
  rw [texts_uptoLines, flatten_livePart nothing, ← positions_movedThrough read] at cut
  have inode : (movedThrough count takens live start result.2).state.inode =
      start.state.inode := rfl
  rw [behind, texts_append, cut, List.append_assoc, behind, inode,
    texts_append (List.map _ _).flatten]

/-- What is behind a partial commit: the other lines of the batch, and then what is behind it. -/
theorem BatchRead.texts_behind_through :
    texts (behind log later (movedThrough count takens live start result.2)) =
      (texts (takens.flatten ++ live)).drop count ++ texts (behind log later result.2) := by
  have all := read.texts_behind kept front nothing
  have moved := read.texts_behind_moved kept front nothing count
  have same : (texts (takens.flatten ++ live)).take count ++
      texts (behind log later (movedThrough count takens live start result.2)) =
      (texts (takens.flatten ++ live)).take count ++
        ((texts (takens.flatten ++ live)).drop count ++ texts (behind log later result.2)) := by
    rw [← moved, all, ← List.append_assoc, List.take_append_drop]
  exact List.append_cancel_left same

end

/-- The short lines of a file behind a position, each with the file and where it begins. -/
def linesAt (fs : Fs) (source : ℕ × ℕ) : List (ℕ × ℕ × Bytes) :=
  (linePlaces source.2 (drainAhead fs source)).map fun place => (source.1, place)

/-- The lines ahead of a tailer, each with its file and where it begins there. -/
def placesAhead (fs : Fs) (tailer : LogTailer) : List (ℕ × ℕ × Bytes) :=
  ((positions fs.log tailer).map (linesAt fs)).flatten

theorem linePlaces_begins {content : Bytes} {offset : ℕ} {lines : List Bytes}
    (front : terminated lines <+: content.drop offset) {place : ℕ × Bytes}
    (member : place ∈ linePlaces offset lines) :
    (place.2 ++ [newline]) <+: content.drop place.1 := by
  induction lines generalizing offset with
  | nil => cases member
  | cons line rest ih =>
      obtain ⟨more, split⟩ := front
      rw [terminated_cons] at split
      have later : terminated rest <+: content.drop (offset + (line.length + 1)) := by
        refine ⟨more, ?_⟩
        rw [← List.drop_drop, ← split]
        simp
      rw [linePlaces] at member
      split at member
      · rcases List.mem_cons.mp member with rfl | behind_
        · refine ⟨terminated rest ++ more, ?_⟩
          rw [← split]
          simp
        · exact ih later behind_
      · exact ih later member

/-- A line that is listed stands where it is said to. -/
theorem placesAhead_begins {place : ℕ × ℕ × Bytes} (member : place ∈ placesAhead fs tailer) :
    (place.2.2 ++ [newline]) <+: (fs.data place.1).drop place.2.1 := by
  obtain ⟨lines, listed, inside⟩ := List.mem_flatten.mp member
  obtain ⟨source, -, rfl⟩ := List.mem_map.mp listed
  obtain ⟨found, foundMember, rfl⟩ := List.mem_map.mp inside
  refine linePlaces_begins ?_ foundMember
  refine ⟨(splitLines ((fs.data source.1).drop source.2)).2, ?_⟩
  exact terminated_splitLines _

theorem sourcePlaces_untouched (untouched : ∀ other ∈ parts, other = []) :
    sourcePlaces offsets parts = [] := by
  induction parts generalizing offsets with
  | nil => cases offsets <;> rfl
  | cons part rest ih =>
      cases offsets with
      | nil => rfl
      | cons =>
          rw [sourcePlaces, untouched part List.mem_cons_self,
            ih fun other member => untouched other (List.mem_cons_of_mem _ member)]
          rfl

/-- The lines that are passed are the first ones listed. -/
theorem Cut.places {sources : List (ℕ × ℕ)} (cut : Cut (drainAhead fs) sources parts) :
    sourcePlaces (sources.map Prod.snd) parts <+:
      ((sources.map (linesAt fs)).flatten).map Prod.snd := by
  induction cut with
  | nil => exact List.prefix_rfl
  | @passed source sources part rest parts whole over_ later ih =>
      have none_ : linePlaces (source.2 + (terminated part).length) rest = [] := by
        apply List.length_eq_zero_iff.mp
        rw [linePlaces_length, over_, List.length_nil]
      have here : (linesAt fs source).map Prod.snd = linePlaces source.2 part := by
        rw [linesAt, ← whole, linePlaces_append, none_]
        simp
      rw [List.map_cons, List.map_cons, List.flatten_cons, List.map_append, here]
      exact (List.prefix_append_right_inj _).mpr ih
  | @within source sources part parts front untouched paired =>
      obtain ⟨rest, split⟩ := front
      have here : (linesAt fs source).map Prod.snd =
          linePlaces source.2 part ++ linePlaces (source.2 + (terminated part).length) rest := by
        rw [linesAt, ← split, linePlaces_append]
        simp
      rw [List.map_cons, sourcePlaces, sourcePlaces_untouched untouched, List.append_nil,
        List.map_cons, List.flatten_cons, List.map_append, here, List.append_assoc]
      exact List.prefix_append _ _

theorem sourcePlaces_append {more : List ℕ} {others : List (List Bytes)}
    (paired : offsets.length = parts.length) :
    sourcePlaces (offsets ++ more) (parts ++ others) =
      sourcePlaces offsets parts ++ sourcePlaces more others := by
  induction parts generalizing offsets with
  | nil =>
      have none_ : offsets = [] := List.length_eq_zero_iff.mp paired
      subst none_
      rfl
  | cons part rest ih =>
      cases offsets with
      | nil => cases paired
      | cons =>
          simp [sourcePlaces, ih (Nat.succ.inj paired)]

/-- The lines of a batch are the first of those ahead. -/
theorem BatchRead.batchPlaces_front
    (read : BatchRead (fun _ => fs) start takens exhausted live result)
    (same : ∀ inode, fs.log = some inode → start.state.inode = inode) :
    batchPlaces start takens live <+: (placesAhead fs start).map Prod.snd := by
  have front : fs.log.isSome = true →
      live <+: drainAhead fs (start.state.inode, start.state.offset) := by
    intro there
    obtain ⟨inode, found⟩ := Option.isSome_iff_exists.mp there
    have ahead := read.ahead
    rw [liveContent] at ahead
    simp only [found] at ahead
    rw [same inode found]
    exact ahead
  have cut := (read.cut (fun _ _ => rfl) front).places
  have offsets : sourcePlaces ((positions fs.log start).map Prod.snd)
      (takens ++ livePart fs.log live) = batchPlaces start takens live := by
    cases found : fs.log with
    | none =>
        rw [batchPlaces, (read.missing found).1, sourcePlaces_append (by simp [read.paired])]
        simp [positions, liveSource, livePart, sourcePlaces, linePlaces]
    | some inode =>
        rw [batchPlaces]
        simp [positions, liveSource, livePart]
  rw [offsets] at cut
  exact cut

end Batch

section Through

variable {now : Fs}

variable (read : BatchRead (fun _ => fs) start takens exhausted live result)
include read

/-- Where the lines of a batch begin. -/
theorem BatchRead.locates (fresh : start.uncommitted = none)
    (same : ∀ inode, fs.log = some inode → start.state.inode = inode) {index : ℕ}
    (inside : index < (texts (takens.flatten ++ live)).length) :
    ∃ inode offset line,
      (placesAhead fs start)[index]? = some (inode, offset, line) ∧
      (line ++ [newline]) <+: (fs.data inode).drop offset ∧
      (texts (takens.flatten ++ live))[index]? = some (lossy line) ∧
      (result.2.uncommittedLine index).map Prod.fst = some offset := by
  have texts_eq : texts (takens.flatten ++ live) =
      (batchPlaces start takens live).map fun place => lossy place.2 := by
    rw [← read.texts_places, read.entries, texts_of_entries]
  rw [texts_eq, List.length_map] at inside
  have found := List.getElem?_eq_getElem inside
  generalize (batchPlaces start takens live)[index] = place at found
  have ahead := read.batchPlaces_front same
  have listed : ((placesAhead fs start).map Prod.snd)[index]? = some place := by
    obtain ⟨others, split⟩ := ahead
    rw [← split, List.getElem?_append_left inside, found]
  rw [List.getElem?_map] at listed
  obtain ⟨⟨inode, offset, line⟩, there, rfl⟩ := Option.map_eq_some_iff.mp listed
  refine ⟨inode, offset, line, there, ?_, ?_, ?_⟩
  · exact placesAhead_begins (List.mem_of_getElem? there)
  · rw [texts_eq, List.getElem?_map, found]
    rfl
  · rw [read.uncommittedLine fresh found]
    rfl

variable (poised : ∀ inode, fs.log = some inode → Poised hash fs inode start)
include poised

theorem BatchRead.kept_since (since : Since fs.log (start.pendingDrains.map Prod.fst) fs now) :
    (∀ drain ∈ start.pendingDrains, now.data drain.1 = fs.data drain.1) ∧
      (fs.log.isSome = true → live <+: drainAhead now (start.state.inode, start.state.offset)) ∧
      (fs.log = none → live = []) := by
  refine ⟨?_, ?_, ?_⟩
  · exact fun drain member => since.drained _ (List.mem_map_of_mem member)
  · intro there
    obtain ⟨inode, found⟩ := Option.isSome_iff_exists.mp there
    exact read.front_of_ahead (poised inode found) (since.grown inode found)
  · exact fun missing => (read.missing missing).1

variable (sized : result.2.lastKnownSize = fs.logLen.getD start.lastKnownSize)
include sized

/-- A log that is as it was, appended to or renamed does not look truncated. -/
theorem BatchRead.unchanged_since (since : Since fs.log drained fs now) :
    detectRotation hash now now result.2.state = .none ∨
      detectRotation hash now now result.2.state = .inodeChanged ∨
      detectRotation hash now now result.2.state = .replaced ∧
        result.2.maybeFalsePositiveReplaced now = true := by
  cases found : now.log with
  | none =>
      left
      rw [detectRotation, found]
  | some other =>
      cases known : fs.log with
      | none =>
          rw [since.missing known] at found
          cases found
      | some inode =>
          have stands := (poised inode known).knows read sized
          by_cases same : other = inode
          · subst same
            rcases stands.detectRotation found (since.grown other known) with
              event | ⟨event, grown, -⟩
            · exact .inl event
            · exact .inr (.inr ⟨event, grown⟩)
          · right
            left
            have sighted := @detectRotation_sighted hash now other found result.2.state
            generalize detectRotation hash now now result.2.state = event at sighted
            have elsewhere : result.2.state.inode ≠ other := by
              rw [stands.same]
              exact fun equal => same equal.symm
            cases sighted with
            | inodeChanged => rfl
            | truncated here | unrotated here | replaced here => exact absurd here elsewhere

variable (since : Since fs.log (start.pendingDrains.map Prod.fst) fs now) (count : ℕ)
include since

/-- The tailer reads on from where a partial commit has put it. -/
theorem BatchRead.stage_movedThrough :
    Stage hash fs.log (start.pendingDrains.map Prod.fst) (result.2.file = fs.log) result.2.state
      now (movedThrough count takens live start result.2) := by
  have drains : ∀ drain ∈ (movedThrough count takens live start result.2).pendingDrains,
      drain.1 ∈ start.pendingDrains.map Prod.fst := by
    intro drain member
    have listed := List.mem_map_of_mem (f := Prod.fst) member
    rwa [movedThrough, advanced_map_fst (by rw [uptoLines_length, read.paired])] at listed
  cases found : fs.log with
  | none => exact .absent rfl (since.missing found) drains
  | some inode =>
      have stands := (poised inode found).knows read sized
      have again : StandsIn hash inode (fs.data inode)
          (movedThrough count takens live start result.2) := by
        refine ⟨(poised inode found).same, ?_, ?_, stands.sized⟩
        · have inside := stands.inside
          rw [read.state] at inside
          have part := (uptoLine_initial (min (count - (texts takens.flatten).length)
            (texts live).length) live)
          obtain ⟨others, split⟩ := part
          have longer : (terminated (uptoLine (min (count - (texts takens.flatten).length)
              (texts live).length) live)).length ≤ (terminated live).length := by
            conv_rhs => rw [← split]
            rw [terminated_append, List.length_append]
            omega
          simp only [movedThrough]
          dsimp only at inside
          omega
        · exact (poised inode found).fits.congr rfl rfl
      refine .reading rfl again (since.grown inode found) ?_ ?_ drains
      · intro held
        exact held
      · intro len
        rw [read.fingerprint.1, read.fingerprint.2]
        exact ⟨len, rfl⟩

/-- Reading on from a partial commit. -/
theorem BatchRead.reads_on
    (successive : Successive hash fs.log (start.pendingDrains.map Prod.fst)
      (result.2.file = fs.log) result.2.state now (calls ++ more)) :
    let last := lastFs now (calls ++ more)
    let handed := ((calls ++ more).foldl (LogTailer.readOn hash)
      (movedThrough count takens live start result.2, [])).2
    let rest := (texts (takens.flatten ++ live)).drop count ++
      texts (behind fs.log last result.2)
    handed <+: rest ∧
      ((∀ call ∈ more, call.fs = last ∧ 0 < call.maxLines) →
        (fs.log.isSome = true → last.log.isSome = true) → rest.length ≤ more.length →
        handed = rest) := by
  intro last handed rest
  have stage := read.stage_movedThrough poised sized since count
  obtain ⟨after, lines, run, -, followed, split⟩ :=
    stage.run [] since.missing_self successive
  obtain ⟨kept, front, nothing⟩ := read.kept_since poised (since.trans followed)
  have through : texts (behind fs.log last (movedThrough count takens live start result.2)) =
      rest := read.texts_behind_through kept front nothing count
  have whole : rest = lines ++ texts (behind fs.log last after) := by
    rw [← split last followed.missing_self, through]
  have returned : handed = lines := congrArg Prod.snd run
  rw [returned]
  refine ⟨whole ▸ List.prefix_append _ _, ?_⟩
  intro still there enough
  have spent := stage.run_appended successive since.missing_self still there
    (by rw [through]; exact enough)
  rw [run] at spent
  rw [whole, spent, List.append_nil]

end Through

/-- For every tailer, every read of a positive size that begins a batch, and every number of its
lines: where the log is as it was, has been appended to or, if the tailer has it open, has been
renamed since, `commit_batch_through` accepts, and the calls that follow return the other lines of
the batch and then what is behind it, and all of that once there is a log.  Every line of the
batch begins in its file where `uncommitted_line` says. -/
theorem partial_commit_lands (hash : Bytes → Digest) (tailer : LogTailer)
    (quiet : tailer.uncommitted = none) {maxLines : ℕ} (wanted : 0 < maxLines) (maxBytes : ℕ)
    (fs : Fs) :
    let read := tailer.readBatchBounded hash maxLines maxBytes fun _ => fs
    let begun := tailer.handleRotation hash fun _ => fs
    let drained := begun.pendingDrains.map Prod.fst
    let opened := read.2.file = fs.log
    (∀ count ≤ read.1.length, ∀ now, Since fs.log drained fs now →
      ∃ after, read.2.commitBatchThrough hash count (fun _ => now) = (true, after) ∧
      ∀ calls more, Successive hash fs.log drained opened read.2.state now (calls ++ more) →
        let last := lastFs now (calls ++ more)
        let handed := ((calls ++ more).foldl (LogTailer.readOn hash) (after, [])).2
        let rest := read.1.drop count ++ texts (behind fs.log last read.2)
        handed <+: rest ∧
        ((∀ call ∈ more, call.fs = last ∧ 0 < call.maxLines) →
          (fs.log.isSome = true → last.log.isSome = true) → rest.length ≤ more.length →
          handed = rest)) ∧
    ∀ index < read.1.length, ∃ inode offset line,
      (placesAhead fs begun)[index]? = some (inode, offset, line) ∧
      (line ++ [newline]) <+: (fs.data inode).drop offset ∧
      read.1[index]? = some (lossy line) ∧
      (read.2.uncommittedLine index).map Prod.fst = some offset := by
  intro read begun drained opened
  obtain ⟨takens, exhausted, live, batch⟩ :=
    @readEntries_batchRead hash (fun _ => fs) maxLines maxBytes tailer wanted
  have sized := @readEntries_lastKnownSize hash fs tailer maxLines maxBytes wanted
  have fresh : begun.uncommitted = none := handleRotation_quiet _ quiet
  have poised : ∀ inode, fs.log = some inode → Poised hash fs inode begun :=
    fun _ => handleRotation_poised tailer
  have lines : read.1 = texts (takens.flatten ++ live) := by
    change (tailer.readEntries hash maxLines maxBytes fun _ => fs).1.filterMap TailEntry.text = _
    rw [batch.entries, texts_of_entries]
  rw [lines]
  constructor
  · intro count inside now since
    refine ⟨movedThrough count takens live begun read.2, ?_, ?_⟩
    · exact batch.commitThrough_of_unchanged fresh inside
        (batch.unchanged_since poised sized since)
    · intro calls more successive
      exact batch.reads_on poised sized since count successive
  · intro index inside
    exact batch.locates fresh (fun inode found => (poised inode found).same) inside

/-- Files with their contents. -/
def filesAt (files : List (ℕ × String)) (log one : Option ℕ) : Fs where
  data inode := ofText ((files.lookup inode).getD "")
  log := log
  one := one
  two := none

/-- A tailer in the log, with two rotated-out files to drain. -/
def drainingTailer : LogTailer where
  state := ⟨3, 0, sha256 (ofText "c\nd\n"), some 4⟩
  file := some 3
  pendingDrains := [(1, 2), (2, 0)]
  lastKnownSize := 4

def drainingFiles : Fs :=
  filesAt [(1, "a\nb\n"), (2, "x\n"), (3, "c\nd\n")] (some 3) none

/-- The log was appended to and renamed, and another one has begun. -/
def renamedFiles : Fs :=
  filesAt [(1, "a\nb\n"), (2, "x\n"), (3, "c\nd\ny\n"), (4, "e\n")] (some 4) none

def drainingRead : List Bytes × LogTailer :=
  drainingTailer.readBatchBounded sha256 3 99 fun _ => drainingFiles

theorem partial_commit_lands_renamed :
    drainingTailer.uncommitted = none ∧ 0 < 3 ∧
    drainingRead.1 = [ofText "b", ofText "x", ofText "c"] ∧
    ∃ after, drainingRead.2.commitBatchThrough sha256 2 (fun _ => renamedFiles) = (true, after) ∧
      ((List.replicate 4 ⟨renamedFiles, 1, 99, true⟩).foldl (LogTailer.readOn sha256)
        (after, [])).2 = [ofText "c", ofText "d", ofText "y", ofText "e"] := by
  have lines : drainingRead.1 = [ofText "b", ofText "x", ofText "c"] := by
    decide +kernel
  have enough : 2 ≤ drainingRead.1.length := by
    rw [lines]
    decide
  have drained : (drainingTailer.handleRotation sha256 fun _ => drainingFiles).pendingDrains.map
      Prod.fst = [1, 2] := by
    decide +kernel
  have opened : drainingRead.2.file = drainingFiles.log := by
    decide +kernel
  have measured : drainingRead.2.state.fingerprintLen ≠ none := by
    decide +kernel
  have since : Since drainingFiles.log [1, 2] drainingFiles renamedFiles := by
    refine ⟨?_, ?_, ?_, ?_⟩
    · decide +kernel
    · intro missing
      cases missing
    · rintro _ ⟨⟩
      exact List.isPrefixOf_iff_prefix.mp (by decide +kernel)
    · rintro _ ⟨⟩ _ ⟨⟩ different
      exact absurd rfl different
  have again : Since drainingFiles.log [1, 2] renamedFiles renamedFiles := since.missing_self
  have findable : Findable sha256 drainingFiles.log (drainingRead.2.file = drainingFiles.log)
      drainingRead.2.state renamedFiles := ⟨.inr opened, fun none_ => absurd none_ measured⟩
  obtain ⟨after, commits, reads⟩ := (partial_commit_lands sha256 drainingTailer rfl
    (by decide : 0 < 3) 99 drainingFiles).1 2 enough renamedFiles
    (by rw [drained]; exact since)
  refine ⟨rfl, by decide, lines, after, commits, ?_⟩
  have returned := (reads [] (List.replicate 4 ⟨renamedFiles, 1, 99, true⟩) (by
    rw [drained]
    exact ⟨again, findable, again, findable, again, findable, again, findable, trivial⟩)).2
    (by simp [lastFs, List.replicate]) (fun _ => rfl) (by decide +kernel)
  exact returned.trans (by decide +kernel)

/-- What a read returns, whether a partial commit of it is accepted, and what a call then
returns. -/
def partialOutcome (tailer : LogTailer) (maxLines count : ℕ) (fs now : Fs) :
    List Bytes × Bool × List Bytes :=
  let read := tailer.readBatchBounded sha256 maxLines 99 fun _ => fs
  let committed := read.2.commitBatchThrough sha256 count fun _ => now
  (read.1, committed.1, (committed.2.readBatchBounded sha256 9 99 fun _ => now).1)

/-- A tailer with the cursor of an older version. -/
def unmeasuredTailer : LogTailer where
  state := ⟨1, 0, sha256 (ofText "a\nb\n"), none⟩
  lastKnownSize := 4

/-- A tailer whose log has been renamed and replaced. -/
def displacedTailer : LogTailer where
  state := ⟨1, 0, sha256 (ofText "a\nb\n"), some 4⟩
  file := some 1
  lastKnownSize := 4

/-- A read of size zero begins no batch.  A cursor without its window is taken for one of a
rotated copy that carries its fingerprint once the log has grown, and the log is read again.  A
log that is renamed before it was opened is never read. -/
theorem partial_commit_goes_astray :
    partialOutcome drainingTailer 0 0 drainingFiles drainingFiles =
      ([], false, [ofText "b", ofText "x", ofText "c", ofText "d"]) ∧
    partialOutcome unmeasuredTailer 2 1
        (filesAt [(1, "a\nb\n"), (2, "a\nb\n")] (some 1) (some 2))
        (filesAt [(1, "a\nb\nc\n"), (2, "a\nb\n")] (some 1) (some 2)) =
      ([ofText "a", ofText "b"], true, [ofText "b", ofText "a", ofText "b", ofText "c"]) ∧
    partialOutcome displacedTailer 1 1
        (filesAt [(1, "a\nb\n"), (2, "c\n")] (some 2) none)
        (filesAt [(1, "a\nb\n"), (2, "c\n"), (3, "d\n")] (some 3) none) =
      ([ofText "a"], true, [ofText "b", ofText "d"]) := by
  decide +kernel

end Propolis
