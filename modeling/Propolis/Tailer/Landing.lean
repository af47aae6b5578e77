import Propolis.Tailer.Fitting
import Propolis.Tailer.Positions

/-!
# Where a partial commit lands

`behind` are the lines behind the positions of a tailer: those of the files it drains,
then those of the log it reads, then those of the log that has taken its place.  A read
takes its lines from their front (`Cut`), and so does what a partial commit passes of a
batch: what is behind the tailer after it are the other lines of the batch, and then what
is behind the tailer that committed all of them.
-/

namespace Propolis

open Bytes

variable {hash : Bytes → Digest} {fs : Fs} {source : ℕ × ℕ} {takens : List (List Bytes)}
  {exhausted : ℕ} {log : Option ℕ} {drained : List ℕ} {later : Fs} {start : LogTailer}
  {live : List Bytes} {result : List TailEntry × LogTailer} {inode : ℕ} {content : Bytes}

section Cuts

variable {ahead : ℕ × ℕ → List Bytes} {sources : List (ℕ × ℕ)} {part : List Bytes}
  {parts : List (List Bytes)}

/-- What is passed of several files read one after the other: nothing to return is left of the
first ones, the next one is passed in part and the others are not begun. -/
inductive Cut (ahead : ℕ × ℕ → List Bytes) : List (ℕ × ℕ) → List (List Bytes) → Prop where
  | nil : Cut ahead [] []
  | passed {source : ℕ × ℕ} {sources : List (ℕ × ℕ)} {part rest : List Bytes}
      {parts : List (List Bytes)} (whole : part ++ rest = ahead source) (over_ : texts rest = [])
      (later : Cut ahead sources parts) : Cut ahead (source :: sources) (part :: parts)
  | within {source : ℕ × ℕ} {sources : List (ℕ × ℕ)} {part : List Bytes}
      {parts : List (List Bytes)} (front : part <+: ahead source)
      (untouched : ∀ other ∈ parts, other = []) (paired : sources.length = parts.length) :
      Cut ahead (source :: sources) (part :: parts)

/-- What is passed comes first, and then what is ahead of the advanced positions. -/
theorem Cut.texts_eq (cut : Cut (drainAhead fs) sources parts) :
    texts (sources.map (drainAhead fs)).flatten =
      texts parts.flatten ++ texts ((advanced sources parts).map (drainAhead fs)).flatten := by
  induction cut with
  | nil => rfl
  | @passed source sources part rest parts whole over_ later ih =>
      have front : part <+: drainAhead fs source := ⟨rest, whole⟩
      have behind := drainAhead_advanced front
      rw [← whole] at behind
      rw [advanced_cons, List.map_cons, List.map_cons, List.flatten_cons, List.flatten_cons,
        List.flatten_cons, texts_append, texts_append, texts_append, ih, ← whole,
        List.append_cancel_left behind, texts_append, over_]
      simp
  | within front untouched paired =>
      have behind := drainAhead_advanced front
      rw [List.eq_replicate_iff.mpr ⟨rfl, untouched⟩, ← paired, advanced_cons, advanced_replicate,
        List.map_cons, List.map_cons, List.flatten_cons, List.flatten_cons, List.flatten_cons,
        ← behind, List.flatten_replicate_nil]
      simp [texts_append]

theorem uptoLine_nil (count : ℕ) : uptoLine count [] = [] := by
  cases count <;> rfl

theorem uptoLines_untouched (untouched : ∀ other ∈ parts, other = []) (count : ℕ) :
    ∀ other ∈ uptoLines count parts, other = [] := by
  induction parts generalizing count with
  | nil => simp [uptoLines]
  | cons part later ih =>
      rw [List.forall_mem_cons] at untouched
      rw [uptoLines, List.forall_mem_cons, untouched.1]
      exact ⟨uptoLine_nil _, ih untouched.2 _⟩

theorem uptoLines_zero (parts : List (List Bytes)) :
    ∀ other ∈ uptoLines 0 parts, other = [] := by
  induction parts with
  | nil => simp [uptoLines]
  | cons part later ih =>
      rw [uptoLines, Nat.zero_min, Nat.zero_sub, List.forall_mem_cons]
      exact ⟨by rw [uptoLine], ih⟩

theorem Cut.paired (cut : Cut ahead sources parts) : sources.length = parts.length := by
  induction cut with
  | nil => rfl
  | passed whole over_ later ih => simp [ih]
  | within front untouched paired => simp [paired]

/-- The first lines of what is passed are passed. -/
theorem Cut.uptoLines (cut : Cut ahead sources takens) (count : ℕ) :
    Cut ahead sources (uptoLines count takens) := by
  induction cut generalizing count with
  | nil => exact .nil
  | @passed source sources part rest parts whole over_ later ih =>
      rw [Propolis.uptoLines]
      obtain ⟨others, split⟩ := uptoLine_initial (min count (texts part).length) part
      by_cases all : (texts part).length ≤ count
      · rw [Nat.min_eq_right all] at split ⊢
        refine @Cut.passed _ _ _ _ (others ++ rest) _ ?_ ?_ (ih _)
        · rw [← List.append_assoc, split, whole]
        · -- The lines up to the last short one leave no short line.
          have counted := congrArg (fun lines => (texts lines).length) split
          simp only [texts_append, texts_uptoLine, List.take_length, List.length_append] at counted
          have none_ : texts others = [] := List.length_eq_zero_iff.mp (by omega)
          rw [texts_append, none_, over_]
          rfl
      · have stop : count - (texts part).length = 0 := by omega
        rw [stop]
        refine .within ⟨others ++ rest, ?_⟩ (uptoLines_zero _) ?_
        · rw [← List.append_assoc, split, whole]
        · rw [uptoLines_length]
          exact later.paired
  | @within source sources part parts front untouched paired =>
      rw [Propolis.uptoLines]
      refine .within ((uptoLine_initial _ part).trans front) (uptoLines_untouched untouched _) ?_
      rw [uptoLines_length, paired]

theorem texts_uptoLines (count : ℕ) (takens : List (List Bytes)) :
    texts (uptoLines count takens).flatten = (texts takens.flatten).take count := by
  induction takens generalizing count with
  | nil => simp [uptoLines]
  | cons taken later ih =>
      rw [uptoLines, List.flatten_cons, texts_append, texts_uptoLine, ih, List.flatten_cons,
        texts_append, List.take_append]
      simp

/-- Of the files a batch exhausted nothing is left, of the next one it took some lines, of the
others none. -/
theorem cut_of_exhausted {drains tail : List (ℕ × ℕ)} {tailParts : List (List Bytes)}
    (each : List.Forall₂ (fun drain taken => taken <+: ahead drain) drains takens)
    (whole : takens.take exhausted = (drains.take exhausted).map ahead)
    (untouched : ∀ taken ∈ takens.drop (exhausted + 1), taken = [])
    (stopped : exhausted < drains.length → ∀ part ∈ tailParts, part = [])
    (last : Cut ahead tail tailParts) : Cut ahead (drains ++ tail) (takens ++ tailParts) := by
  induction each generalizing exhausted with
  | nil => exact last
  | cons front each ih =>
      cases exhausted with
      | zero =>
          refine .within front ?_ ?_
          · intro other member
            rcases List.mem_append.mp member with inside | behind
            · exact untouched other inside
            · exact stopped (Nat.succ_pos _) other behind
          · have paired := each.length_eq
            have tailPaired := last.paired
            simp only [List.append_eq, List.length_append]
            omega
      | succ =>
          simp only [List.take_succ_cons, List.map_cons, List.cons.injEq] at whole
          refine @Cut.passed _ _ _ _ [] _ ?_ rfl (ih whole.2 ?_ ?_)
          · rw [List.append_nil, whole.1]
          · simpa using untouched
          · intro early
            exact stopped (Nat.succ_lt_succ early)

/-- Nothing is ahead of a file that was read to its end. -/
theorem texts_drop_exhausted {drains : List (ℕ × ℕ)} (paired : drains.length = takens.length)
    (whole : takens.take exhausted = (drains.take exhausted).map (drainAhead fs)) :
    (((advanced drains takens).drop exhausted).map (drainAhead fs)).flatten =
      ((advanced drains takens).map (drainAhead fs)).flatten := by
  induction drains generalizing takens exhausted with
  | nil => simp [advanced]
  | cons drain later ih =>
      cases takens with
      | nil => simp at paired
      | cons taken others =>
          cases exhausted with
          | zero => rfl
          | succ =>
              simp only [List.take_succ_cons, List.map_cons, List.cons.injEq] at whole
              have spent : drainAhead fs (drain.1, drain.2 + (terminated taken).length) = [] := by
                have front : taken <+: drainAhead fs drain := whole.1 ▸ List.prefix_rfl
                have behind := drainAhead_advanced front
                rw [whole.1] at behind ⊢
                exact List.append_right_eq_self.mp behind
              rw [advanced_cons, List.map_cons, spent]
              exact ih (Nat.succ.inj paired) whole.2

end Cuts

section Behind

/-- The lines of a log that has taken the place of the file. -/
def freshLines (fs : Fs) (inode : ℕ) : List Bytes :=
  match fs.log with
  | none => []
  | some other => if other = inode then [] else linesOf (fs.data other)

/-- The position in the log, if there was one when the batch was read. -/
def liveSource (log : Option ℕ) (tailer : LogTailer) : List (ℕ × ℕ) :=
  (log.map fun _ => (tailer.state.inode, tailer.state.offset)).toList

/-- The files a tailer reads from, in order, each with its position. -/
def positions (log : Option ℕ) (tailer : LogTailer) : List (ℕ × ℕ) :=
  tailer.pendingDrains ++ liveSource log tailer

/-- The lines behind the positions of a tailer, as the files stand. -/
def behind (log : Option ℕ) (fs : Fs) (tailer : LogTailer) : List Bytes :=
  ((positions log tailer).map (drainAhead fs)).flatten ++
    if log.isSome then freshLines fs tailer.state.inode else []

/-- What may happen to the files between two calls.  The log is appended to, or renamed, and
another log may take its place; then the renamed file is complete.  Rotated-out files do not
change, and where there was no log there is still none. -/
structure Since (log : Option ℕ) (drained : List ℕ) (earlier later : Fs) : Prop where
  drained : ∀ inode ∈ drained, later.data inode = earlier.data inode
  missing : log = none → later.log = none
  grown : ∀ inode, log = some inode → earlier.data inode <+: later.data inode
  replaced : ∀ inode, log = some inode → ∀ other, earlier.log = some other → other ≠ inode →
    later.log = some other ∧ earlier.data other <+: later.data other ∧
      later.data inode = earlier.data inode

variable {first second third : Fs}

theorem Since.refl (missing : log = none → first.log = none) :
    Since log drained first first := by
  refine ⟨fun _ _ => rfl, missing, fun _ _ => List.prefix_rfl, ?_⟩
  intro inode _ other found _
  exact ⟨found, List.prefix_rfl, rfl⟩

theorem Since.trans (before : Since log drained first second)
    (after : Since log drained second third) : Since log drained first third := by
  refine ⟨?_, after.missing, ?_, ?_⟩
  · intro inode member
    rw [after.drained inode member, before.drained inode member]
  · intro inode known
    exact (before.grown inode known).trans (after.grown inode known)
  · intro inode known other found different
    obtain ⟨still, grown, complete⟩ := before.replaced inode known other found different
    obtain ⟨now, more, unchanged⟩ := after.replaced inode known other still different
    exact ⟨now, grown.trans more, unchanged.trans complete⟩

theorem drainAhead_congr (same : second.data source.1 = first.data source.1) :
    drainAhead second source = drainAhead first source := by
  rw [drainAhead, drainAhead, same]

theorem drainAhead_mono (grown : first.data source.1 <+: second.data source.1) :
    drainAhead first source <+: drainAhead second source := by
  obtain ⟨more, extended⟩ := grown
  apply linesOf_mono
  rw [← extended, List.drop_append]
  exact List.prefix_append _ _

end Behind

section Reads

/-- What a batch took of the log, if there was one. -/
def livePart (log : Option ℕ) (live : List Bytes) : List (List Bytes) :=
  (log.map fun _ => live).toList

theorem flatten_livePart (nothing : log = none → live = []) :
    (takens ++ livePart log live).flatten = takens.flatten ++ live := by
  cases log with
  | none => simp [livePart, nothing rfl]
  | some _ => simp [livePart]

variable (read : BatchRead (fun _ => fs) start takens exhausted live result)
include read

/-- The drains a call leaves are of files that were drained before it. -/
theorem BatchRead.drains {known : ℕ → Prop}
    (before : ∀ drain ∈ start.pendingDrains, known drain.1) :
    ∀ drain ∈ result.2.pendingDrains, known drain.1 := by
  intro drain member
  have listed : drain.1 ∈ start.pendingDrains.map Prod.fst := by
    rw [← read.slots]
    exact List.mem_append_right _ (List.mem_map_of_mem member)
  rcases List.mem_map.mp listed with ⟨old, oldMember, same⟩
  exact same ▸ before old oldMember

theorem BatchRead.fingerprint :
    result.2.state.fingerprint = start.state.fingerprint ∧
      result.2.state.fingerprintLen = start.state.fingerprintLen := by
  rw [read.state]
  exact ⟨rfl, rfl⟩

variable (kept : ∀ drain ∈ start.pendingDrains, later.data drain.1 = fs.data drain.1)
  (front : log.isSome = true → live <+: drainAhead later (start.state.inode, start.state.offset))
include kept front

/-- The lines a batch took are the first of those that were ahead. -/
theorem BatchRead.cut :
    Cut (drainAhead later) (positions log start) (takens ++ livePart log live) := by
  have same : ∀ drain ∈ start.pendingDrains, drainAhead later drain = drainAhead fs drain :=
    fun drain member => drainAhead_congr (kept drain member)
  apply cut_of_exhausted
  · exact (List.forall₂_iff_get.mpr ⟨read.paired, by
      intro index inside insideToo
      have front := (List.forall₂_iff_get.mp read.each).2 index inside insideToo
      rw [same _ (List.get_mem _ _)]
      exact front⟩)
  · rw [read.whole]
    apply List.map_congr_left
    intro drain member
    exact (same drain (List.mem_of_mem_take member)).symm
  · exact read.untouched
  · intro early part member
    rw [read.drained early] at member
    cases log with
    | none => cases member
    | some _ => simpa [livePart] using member
  · cases log with
    | none => exact .nil
    | some _ =>
        refine .within (front rfl) ?_ rfl
        simp

/-- Where a batch leaves the tailer there is ahead what was behind the lines it took. -/
theorem BatchRead.texts_behind (nothing : log = none → live = []) :
    texts (behind log later start) =
      texts (takens.flatten ++ live) ++ texts (behind log later result.2) := by
  have cut := (read.cut kept front).texts_eq
  have whole : takens.take exhausted =
      (start.pendingDrains.take exhausted).map (drainAhead later) := by
    rw [read.whole]
    apply List.map_congr_left
    intro drain member
    exact (drainAhead_congr (kept drain (List.mem_of_mem_take member))).symm
  have moved : texts ((advanced (positions log start) (takens ++ livePart log live)).map
      (drainAhead later)).flatten =
      texts ((positions log result.2).map (drainAhead later)).flatten := by
    rw [positions, positions, advanced, List.zipWith_append read.paired, List.map_append,
      List.map_append, List.flatten_append, List.flatten_append, texts_append, texts_append,
      read.pending, texts_drop_exhausted read.paired whole]
    congr 2
    cases log with
    | none => rfl
    | some _ => simp [liveSource, livePart, read.state]
  have inode : result.2.state.inode = start.state.inode := by
    rw [read.state]
  rw [behind, texts_append, cut, flatten_livePart nothing, moved, List.append_assoc, behind, inode,
    texts_append (List.map _ _).flatten]

end Reads

section Stages

variable {opened : Prop} {origin : CursorState} {tailer : LogTailer} {maxLines maxBytes : ℕ}

/-- How a tailer stands to the files while it reads on behind a batch: in the log the batch was
read from, which it has open if that may be renamed, or in the log that has taken its place. -/
inductive Stage (hash : Bytes → Digest) (log : Option ℕ) (drained : List ℕ) (opened : Prop)
    (origin : CursorState) (fs : Fs) (tailer : LogTailer) : Prop where
  | absent (none_ : log = none) (missing : fs.log = none)
      (drains : ∀ drain ∈ tailer.pendingDrains, drain.1 ∈ drained)
  | reading {inode : ℕ} {content : Bytes} (some_ : log = some inode)
      (knows : StandsIn hash inode content tailer) (grown : content <+: fs.data inode)
      (file : opened → tailer.file = some inode)
      (unmeasured : tailer.state.fingerprintLen = none →
        origin.fingerprintLen = none ∧ tailer.state.fingerprint = origin.fingerprint)
      (drains : ∀ drain ∈ tailer.pendingDrains, drain.1 ∈ drained)
  | over_ {inode other : ℕ} {content : Bytes} (some_ : log = some inode)
      (found : fs.log = some other) (different : other ≠ inode)
      (knows : StandsIn hash other content tailer) (grown : content <+: fs.data other)
      (measured : tailer.state.fingerprintLen ≠ none)
      (drains : ∀ drain ∈ tailer.pendingDrains, drain.1 ∈ drained ∨ drain.1 = inode)

/-- What a call may find: the log is where it was unless the tailer has it open, and a cursor
stored without its window is carried by no rotated copy. -/
structure Findable (hash : Bytes → Digest) (log : Option ℕ) (opened : Prop)
    (origin : CursorState) (fs : Fs) : Prop where
  file : fs.log = log ∨ opened
  unlike : origin.fingerprintLen = none → Unlike hash origin fs

theorem Stage.since (stage : Stage hash log drained opened origin fs tailer)
    (since : Since log drained fs later) : Stage hash log drained opened origin later tailer := by
  cases stage with
  | absent none_ missing drains => exact .absent none_ (since.missing none_) drains
  | @reading inode content some_ knows grown file unmeasured drains =>
      exact .reading some_ knows (grown.trans (since.grown inode some_)) file unmeasured drains
  | @over_ inode other content some_ found different knows grown measured drains =>
      obtain ⟨still, more, -⟩ := since.replaced inode some_ other found different
      exact .over_ some_ still different knows (grown.trans more) measured drains

/-- The size of the log a call found. -/
theorem readEntries_lastKnownSize (wanted : 0 < maxLines) :
    (tailer.readEntries hash maxLines maxBytes fun _ => fs).2.lastKnownSize =
      fs.logLen.getD (tailer.handleRotation hash fun _ => fs).lastKnownSize := by
  rw [LogTailer.readEntries, if_neg (Nat.pos_iff_ne_zero.mp wanted)]
  dsimp only
  split
  · rw [refreshLastKnownSize_eq]
  · cases found : fs.log with
    | none => simp [Fs.logLen, found]
    | some inode =>
        dsimp only
        rw [refreshLastKnownSize_eq]

/-- A tailer behind `handle_rotation`: it stands in the log, if there is one. -/
structure Poised (hash : Bytes → Digest) (fs : Fs) (inode : ℕ) (tailer : LogTailer) : Prop where
  found : fs.log = some inode
  same : tailer.state.inode = inode
  inside : tailer.state.offset ≤ (fs.data inode).length
  fits : FitsLog hash (fs.data inode) tailer.state

/-- A read of a log the tailer stands in leaves it knowing the log. -/
theorem Poised.knows (poised : Poised hash fs inode start)
    (read : BatchRead (fun _ => fs) start takens exhausted live result)
    (sized : result.2.lastKnownSize = fs.logLen.getD start.lastKnownSize) :
    StandsIn hash inode (fs.data inode) result.2 := by
  have content : liveContent (fun _ => fs) = fs.data inode := by
    simp [liveContent, poised.found]
  have ahead := read.ahead
  rw [content] at ahead
  refine ⟨?_, ?_, ?_, ?_⟩
  · rw [read.state]
    exact poised.same
  · rw [read.state]
    exact inside_behind ahead poised.inside
  · apply poised.fits.congr <;> rw [read.state]
  · rw [sized, Fs.logLen, poised.found]
    rfl

/-- What a tailer makes of a log it knows and finds again. -/
structure KeepsLog (hash : Bytes → Digest) (fs : Fs) (inode : ℕ) (tailer start : LogTailer) :
    Prop where
  poised : Poised hash fs inode start
  drains : start.pendingDrains = tailer.pendingDrains
  offset : start.state.offset = tailer.state.offset
  file : start.file = tailer.file
  unmeasured : start.state.fingerprintLen = none →
    tailer.state.fingerprintLen = none ∧ start.state.fingerprint = tailer.state.fingerprint

theorem handleRotation_poised (tailer : LogTailer) (found : fs.log = some inode) :
    Poised hash fs inode (tailer.handleRotation hash fun _ => fs) := by
  obtain ⟨same, inside, fits⟩ := handleRotation_fits found tailer
  exact ⟨found, same, inside, fits⟩

theorem StandsIn.kept (knows : StandsIn hash inode content tailer) (found : fs.log = some inode)
    (grown : content <+: fs.data inode)
    (unlike : tailer.state.fingerprintLen = none → Unlike hash tailer.state fs) :
    KeepsLog hash fs inode tailer (tailer.handleRotation hash fun _ => fs) := by
  have poised := @handleRotation_poised hash fs inode tailer found
  rcases knows.handleRotation found grown unlike with unchanged | stamped
  · rw [unchanged] at poised ⊢
    exact ⟨poised, rfl, rfl, rfl, fun len => ⟨len, rfl⟩⟩
  · rw [stamped] at poised ⊢
    refine ⟨poised, rfl, rfl, rfl, ?_⟩
    intro len
    cases len

theorem KeepsLog.behind (kept : KeepsLog hash fs inode tailer start)
    (same : tailer.state.inode = inode) (log : Option ℕ) (later : Fs) :
    behind log later start = behind log later tailer := by
  rw [Propolis.behind, Propolis.behind, positions, positions, liveSource, liveSource, kept.drains,
    kept.offset, kept.poised.same, same]

/-- Where the tailer stands in the log that is there, the lines ahead of a call are those behind
its positions. -/
theorem Poised.linesAhead (poised : Poised hash fs inode tailer)
    (some_ : log.isSome = true) :
    linesAhead (fun _ => fs) tailer = behind log fs tailer := by
  obtain ⟨known, rfl⟩ := Option.isSome_iff_exists.mp some_
  simp [Propolis.linesAhead, behind, positions, liveSource, liveContent, poised.found, freshLines,
    drainAhead, poised.same]

/-- What a call that reads on does: the tailer is in its stage again, it returns the first of the
lines behind it, and some if there are any. -/
structure GoesOn (hash : Bytes → Digest) (log : Option ℕ) (drained : List ℕ) (opened : Prop)
    (origin : CursorState) (fs : Fs) (tailer after : LogTailer) (lines : List Bytes) : Prop where
  stage : Stage hash log drained opened origin fs after
  front : ∀ later, Since log drained fs later →
    texts (behind log later tailer) = lines ++ texts (behind log later after)
  moves : (log.isSome = true → fs.log.isSome = true) → texts (behind log fs tailer) ≠ [] →
    lines ≠ []

theorem BatchRead.front_of_ahead (read : BatchRead (fun _ => fs) start takens exhausted live result)
    (poised : Poised hash fs inode start) (grown : fs.data inode <+: later.data inode) :
    live <+: drainAhead later (start.state.inode, start.state.offset) := by
  have content : liveContent (fun _ => fs) = fs.data inode := by
    simp [liveContent, poised.found]
  have ahead := read.ahead
  rw [content] at ahead
  rw [poised.same]
  exact ahead.trans (@drainAhead_mono (inode, start.state.offset) fs later grown)

section Cases

variable {other : ℕ}

/-- A call that finds the log where it stands, possibly behind a rotation it has noticed. -/
theorem Poised.goesOn (poised : Poised hash fs inode start)
    (read : BatchRead (fun _ => fs) start takens exhausted live result) (some_ : log.isSome = true)
    (stage : Stage hash log drained opened origin fs result.2)
    (same : ∀ later, Since log drained fs later → behind log later start = behind log later tailer)
    (kept : ∀ later, Since log drained fs later →
      ∀ drain ∈ start.pendingDrains, later.data drain.1 = fs.data drain.1)
    (grown : ∀ later, Since log drained fs later → fs.data inode <+: later.data inode) :
    GoesOn hash log drained opened origin fs tailer result.2 (texts (takens.flatten ++ live)) := by
  have known : log ≠ none := Option.isSome_iff_ne_none.mp some_
  refine ⟨stage, ?_, ?_⟩
  · intro later since
    rw [← same later since]
    apply read.texts_behind (kept later since)
    · exact fun _ => read.front_of_ahead poised (grown later since)
    · exact fun none_ => absurd none_ known
  · intro _ ahead
    rw [← same fs (Since.refl fun none_ => absurd none_ known), ← poised.linesAhead some_] at ahead
    exact read.moved ahead

section Standing

variable (some_ : log = some inode)
  (knows : StandsIn hash inode content tailer) (grown : content <+: fs.data inode)
  (file : opened → tailer.file = some inode)
  (unmeasured : tailer.state.fingerprintLen = none →
    origin.fingerprintLen = none ∧ tailer.state.fingerprint = origin.fingerprint)
  (drains : ∀ drain ∈ tailer.pendingDrains, drain.1 ∈ drained)
include some_ knows grown file unmeasured drains

theorem Stage.read_reading
    (findable : Findable hash log opened origin fs) (found : fs.log = some inode)
    (read : BatchRead (fun _ => fs) (tailer.handleRotation hash fun _ => fs) takens exhausted live
      result)
    (sized : result.2.lastKnownSize =
      fs.logLen.getD (tailer.handleRotation hash fun _ => fs).lastKnownSize) :
    GoesOn hash log drained opened origin fs tailer result.2 (texts (takens.flatten ++ live)) := by
  have unlike : tailer.state.fingerprintLen = none → Unlike hash tailer.state fs := by
    intro len
    obtain ⟨stored, fingerprint⟩ := unmeasured len
    intro copy listed
    have unlike := findable.unlike stored copy listed
    rwa [headMatches, stored, ← fingerprint, ← len] at unlike
  have kept := knows.kept found grown unlike
  generalize tailer.handleRotation hash (fun _ => fs) = start at read sized kept
  have drains' : ∀ drain ∈ start.pendingDrains, drain.1 ∈ drained := by
    rw [kept.drains]
    exact drains
  apply kept.poised.goesOn read (by rw [some_]; rfl)
  · refine .reading some_ (kept.poised.knows read sized) List.prefix_rfl ?_ ?_ ?_
    · intro held
      rw [read.file, kept.file, file held, found]
      split <;> rfl
    · rw [read.fingerprint.1, read.fingerprint.2]
      intro len
      obtain ⟨before, same⟩ := kept.unmeasured len
      rw [same]
      exact unmeasured before
    · exact read.drains drains'
  · exact fun later _ => kept.behind knows.same log later
  · exact fun later since drain member => since.drained _ (drains' drain member)
  · exact fun later since => since.grown inode some_

/-- The log is gone: the call reads the drains and waits. -/
theorem Stage.read_gone (gone : fs.log = none)
    (read : BatchRead (fun _ => fs) tailer takens exhausted live result)
    (sized : result.2.lastKnownSize = fs.logLen.getD tailer.lastKnownSize) :
    GoesOn hash log drained opened origin fs tailer result.2 (texts (takens.flatten ++ live)) := by
  obtain ⟨nothing, state, sameFile⟩ := read.missing gone
  have size : result.2.lastKnownSize = tailer.lastKnownSize := by
    rw [sized, Fs.logLen, gone]
    rfl
  refine ⟨?_, ?_, ?_⟩
  · have again : StandsIn hash inode content result.2 := by
      refine ⟨?_, ?_, ?_, ?_⟩
      · rw [state]
        exact knows.same
      · rw [state]
        exact knows.inside
      · rw [state]
        exact knows.fits
      · rw [size]
        exact knows.sized
    refine .reading some_ again grown ?_ ?_ ?_
    · rw [sameFile]
      exact file
    · rw [state]
      exact unmeasured
    · exact read.drains drains
  · intro later since
    apply read.texts_behind
    · exact fun drain member => since.drained _ (drains drain member)
    · intro _
      rw [nothing]
      exact List.nil_prefix
    · exact fun _ => nothing
  · intro there
    have missing := there (by rw [some_]; rfl)
    rw [gone] at missing
    cases missing

end Standing

/-- A call that has gone over to the log that has taken the place. -/
theorem Poised.goesOver (some_ : log = some inode)
    (poised : Poised hash fs other start) (different : other ≠ inode)
    (measured : start.state.fingerprintLen ≠ none)
    (drains : ∀ drain ∈ start.pendingDrains, drain.1 ∈ drained ∨ drain.1 = inode)
    (read : BatchRead (fun _ => fs) start takens exhausted live result)
    (sized : result.2.lastKnownSize = fs.logLen.getD start.lastKnownSize)
    (same : ∀ later, Since log drained fs later →
      behind log later start = behind log later tailer) :
    GoesOn hash log drained opened origin fs tailer result.2 (texts (takens.flatten ++ live)) := by
  have replaced := fun later (since : Since log drained fs later) =>
    since.replaced inode some_ other poised.found different
  apply poised.goesOn read (by rw [some_]; rfl) ?_ same
  · intro later since drain member
    rcases drains drain member with old | last
    · exact since.drained _ old
    · rw [last]
      exact (replaced later since).2.2
  · exact fun later since => (replaced later since).2.1
  · refine .over_ some_ poised.found different (poised.knows read sized) List.prefix_rfl ?_ ?_
    · rw [read.fingerprint.2]
      exact measured
    · intro drain
      exact @BatchRead.drains _ _ _ _ _ _ read (fun file => file ∈ drained ∨ file = inode) drains
        drain

section Replaced

variable (some_ : log = some inode) (found : fs.log = some other) (different : other ≠ inode)
  (read : BatchRead (fun _ => fs) (tailer.handleRotation hash fun _ => fs) takens exhausted live
    result)
  (sized : result.2.lastKnownSize =
    fs.logLen.getD (tailer.handleRotation hash fun _ => fs).lastKnownSize)
include some_ found different read sized

/-- Another log has taken the place: the call queues the old one and goes over to it. -/
theorem Stage.read_replaced
    (knows : StandsIn hash inode content tailer) (file : tailer.file = some inode)
    (drains : ∀ drain ∈ tailer.pendingDrains, drain.1 ∈ drained) :
    GoesOn hash log drained opened origin fs tailer result.2 (texts (takens.flatten ++ live)) := by
  rcases @handleRotation_of_inodeChanged hash fs other tailer found
    (by rw [knows.same]; exact different) with ⟨ready, queues, -⟩
  have queued := queues inode file
  have poised := @handleRotation_poised hash fs other tailer found
  apply poised.goesOver some_ different ?_ ?_ read sized
  · intro later since
    rcases since.replaced inode some_ other found different with ⟨still, -, -⟩
    simp [behind, positions, liveSource, some_, queued.drains, queued.offset, poised.same,
      knows.same, freshLines, still, different, drainAhead]
  · rcases ready.stamped with ⟨window, stamped, -⟩
    rw [stamped.len]
    simp
  · rw [queued.drains]
    intro drain member
    rcases List.mem_append.mp member with old | last
    · exact .inl (drains drain old)
    · rw [List.mem_singleton.mp last]
      exact .inr rfl

/-- The tailer has gone over to the log that is there. -/
theorem Stage.read_over
    (knows : StandsIn hash other content tailer) (grown : content <+: fs.data other)
    (measured : tailer.state.fingerprintLen ≠ none)
    (drains : ∀ drain ∈ tailer.pendingDrains, drain.1 ∈ drained ∨ drain.1 = inode) :
    GoesOn hash log drained opened origin fs tailer result.2 (texts (takens.flatten ++ live)) := by
  have kept := knows.kept found grown fun len => absurd len measured
  apply kept.poised.goesOver some_ different ?_ ?_ read sized
  · exact fun later _ => kept.behind knows.same log later
  · exact fun len => measured (kept.unmeasured len).1
  · rw [kept.drains]
    exact drains

end Replaced

theorem Stage.read_absent (none_ : log = none) (missing : fs.log = none)
    (drains : ∀ drain ∈ tailer.pendingDrains, drain.1 ∈ drained)
    (read : BatchRead (fun _ => fs) tailer takens exhausted live result) :
    GoesOn hash log drained opened origin fs tailer result.2 (texts (takens.flatten ++ live)) := by
  obtain ⟨nothing, -, -⟩ := read.missing missing
  refine ⟨.absent none_ missing ?_, ?_, ?_⟩
  · exact read.drains drains
  · intro later since
    apply read.texts_behind
    · exact fun drain member => since.drained _ (drains drain member)
    · simp [none_]
    · exact fun _ => nothing
  · intro _ some_
    apply read.moved
    simpa [linesAhead, behind, positions, liveSource, none_, liveContent, missing, linesOf,
      splitLines] using some_

end Cases

theorem Stage.read (stage : Stage hash log drained opened origin fs tailer)
    (findable : Findable hash log opened origin fs) (wanted : 0 < maxLines) :
    GoesOn hash log drained opened origin fs tailer
      (tailer.readEntries hash maxLines maxBytes fun _ => fs).2
      ((tailer.readEntries hash maxLines maxBytes fun _ => fs).1.filterMap TailEntry.text) := by
  obtain ⟨takens, exhausted, live, read⟩ :=
    @readEntries_batchRead hash (fun _ => fs) maxLines maxBytes tailer wanted
  have sized := @readEntries_lastKnownSize hash fs tailer maxLines maxBytes wanted
  generalize tailer.readEntries hash maxLines maxBytes (fun _ => fs) = result at read sized
  have lines : result.1.filterMap TailEntry.text = texts (takens.flatten ++ live) := by
    rw [read.entries, texts_of_entries]
  rw [lines]
  cases stage with
  | absent none_ missing drains =>
      rw [handleRotation_of_missing missing] at read
      exact read_absent none_ missing drains read
  | @reading inode content some_ knows grown file unmeasured drains =>
      cases found : fs.log with
      | none =>
          rw [handleRotation_of_missing found] at read sized
          exact read_gone some_ knows grown file unmeasured drains found read sized
      | some other =>
          by_cases same : other = inode
          · subst same
            exact read_reading some_ knows grown file unmeasured drains findable found read sized
          · have held : opened := by
              apply findable.file.resolve_left
              rw [found, some_]
              exact fun equal => same (Option.some.inj equal)
            exact read_replaced some_ found same read sized knows (file held) drains
  | over_ some_ found different knows grown measured drains =>
      exact read_over some_ found different read sized knows grown measured drains

end Stages

end Propolis
