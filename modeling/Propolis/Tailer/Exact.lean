import Propolis.Tailer.Steady
import Propolis.Lib.Sha256

/-!
# Tailing a growing log is exact

Polls of a log that is only appended to, each committed: what has been returned is
what stands before the position reached, line by line, and polls of a log nobody
writes to any more return the rest.

This holds in every run of calm polls.  A log that is fingerprinted while it is
empty and written before the same poll reads it is taken for another file by the
next poll, which reads it again from its beginning unless the log has grown since.
-/

namespace Propolis

open Bytes

/-- One call of `read_batch_bounded`. -/
structure Poll where
  maxLines : ℕ
  maxBytes : ℕ
  someLines : 0 < maxLines
  someBytes : 0 < maxBytes
  watch : Watch

/-- The lines returned so far, and the tailer. -/
structure Tailing where
  returned : List Bytes
  tailer : LogTailer

namespace Tailing

def start (log : Option Bytes) : Tailing :=
  ⟨[], LogTailer.new (logFs log) none⟩

/-- A poll and its commit. -/
def poll (hash : Bytes → Digest) (tailing : Tailing) (poll : Poll) : Tailing :=
  let read := tailing.tailer.readBatchBounded hash poll.maxLines poll.maxBytes poll.watch.look
  ⟨tailing.returned ++ read.1, read.2.commitBatch⟩

def run (hash : Bytes → Digest) (tailing : Tailing) (polls : List Poll) : Tailing :=
  polls.foldl (poll hash) tailing

end Tailing

/-- The writer appends before, during and after the polls. -/
def WrittenDuring : Option Bytes → List Poll → Option Bytes → Prop
  | log, [], last => Grown log last
  | log, poll :: later, last =>
      Grown log (poll.watch.sight .stat) ∧ WrittenDuring (poll.watch.sight .refresh) later last

instance : (log : Option Bytes) → (polls : List Poll) → (last : Option Bytes) →
    Decidable (WrittenDuring log polls last)
  | log, [], last => inferInstanceAs (Decidable (Grown log last))
  | _, poll :: later, last =>
      have : Decidable (WrittenDuring (poll.watch.sight .refresh) later last) :=
        instDecidableWrittenDuring _ later last
      inferInstanceAs (Decidable (_ ∧ _))

/-- The log as the next of the polls, or of those to come, looks whether it has grown. -/
def nextSight (polls : List Poll) (last : Option Bytes) : Option Bytes :=
  polls.head?.elim last (·.watch.sight .grown)

/-- Every poll is calm, given how the next one finds the log. -/
def calmDuring : List Poll → Option Bytes → Bool
  | [], _ => true
  | call :: later, last => call.watch.Calm (nextSight later last) && calmDuring later last

/-- What has been returned is what stands before the position reached. -/
structure Exact (log : Option Bytes) (tailing : Tailing) : Prop where
  inside : tailing.tailer.state.offset ≤ (log.getD []).length
  clean : EndsClean ((log.getD []).take tailing.tailer.state.offset)
  returned : tailing.returned =
    texts (linesOf ((log.getD []).take tailing.tailer.state.offset))

/-- Exact, and ready for the next poll. -/
structure Tailed (hash : Bytes → Digest) (log next : Option Bytes) (tailing : Tailing) :
    Prop where
  settled : Settled hash (tailing.tailer.maybeFalsePositiveReplaced (logFs next)) log tailing.tailer
  quiet : tailing.tailer.uncommitted = none
  exact : Exact log tailing

variable {hash : Bytes → Digest} {log last next : Option Bytes} {tailing : Tailing} {call : Poll}

section Growth

variable {watch : Watch} {before after : Option Bytes}

theorem Grown.content (grown : Grown before after) : before.getD [] <+: after.getD [] := by
  cases before with
  | none => exact List.nil_prefix
  | some content =>
      rcases grown.of_some with ⟨longer, rfl, extended⟩
      exact extended

theorem Watch.content_grown (grown : Grown before (watch.sight .stat)) :
    before.getD [] <+: watch.content := by
  cases before with
  | none => exact List.nil_prefix
  | some content =>
      have opening := grown.trans (watch.grows .stat .openLog (by decide))
      have reading := grown.trans (watch.grows .stat .readLog (by decide))
      rcases opening.of_some with ⟨opened, atOpen, -⟩
      rw [Watch.content, atOpen]
      exact reading.content

theorem Watch.content_refresh (watch : Watch) :
    watch.content <+: (watch.sight .refresh).getD [] := by
  rw [Watch.content]
  cases watch.sight .openLog with
  | none => exact List.nil_prefix
  | some opened => exact (watch.grows .readLog .refresh (by decide)).content

theorem take_of_prefix {content longer : Bytes} {offset : ℕ} (extended : content <+: longer)
    (inside : offset ≤ content.length) : longer.take offset = content.take offset := by
  rcases extended with ⟨more, rfl⟩
  exact List.take_append_of_le_length inside

theorem Exact.grow (exact_ : Exact before tailing)
    (extended : before.getD [] <+: after.getD []) : Exact after tailing := by
  have same := take_of_prefix extended exact_.inside
  refine ⟨exact_.inside.trans extended.length_le, ?_, ?_⟩
  · rw [same]
    exact exact_.clean
  · rw [same]
    exact exact_.returned

end Growth

section Polls

theorem Tailed.grow (tailed : Tailed hash log next tailing) (grown : Grown log last) :
    Tailed hash last next tailing := by
  have settled := tailed.settled
  exact ⟨⟨settled.drains, settled.placed.grow grown, settled.unopened⟩, tailed.quiet,
    tailed.exact.grow grown.content⟩

theorem Tailed.start (fresh : log = none ∨ log = some []) :
    Tailed hash log next (Tailing.start log) := by
  have empty : log.getD [] = [] := by
    rcases fresh with rfl | rfl <;> rfl
  refine ⟨⟨rfl, .unseen rfl rfl rfl, fun _ => rfl⟩, rfl, Nat.zero_le _, ?_, ?_⟩
  · exact Or.inl rfl
  · rfl

/-- One calm poll returns the next lines of the log. -/
theorem Tailed.poll (tailed : Tailed hash log (call.watch.sight .grown) tailing)
    (grown : Grown log (call.watch.sight .stat)) (calm : call.watch.Calm next) :
    Tailed hash (call.watch.sight .refresh) next (tailing.poll hash call) := by
  have read : PollRead hash call.watch call.maxLines call.maxBytes tailing.tailer _ :=
    readEntries_settled tailed.settled tailed.quiet id grown calm.1 call.someLines
  have known : Exact (some call.watch.content) tailing :=
    tailed.exact.grow (Watch.content_grown grown)
  rcases readLinesFrom_fileRead call.watch.content tailing.tailer.state.offset call.maxLines
    ⟨call.maxBytes, true⟩ with ⟨taken, fileRead⟩
  have taking := fileRead.texts_eq
  have offset := read.offset
  rw [Watch.read, fileRead.consumed] at offset
  have reached : Exact (some call.watch.content) (tailing.poll hash call) := by
    simp only [Tailing.poll, LogTailer.readBatchBounded, LogTailer.commitBatch]
    refine ⟨?_, ?_, ?_⟩
    · rw [offset]
      exact inside_behind fileRead.ahead known.inside
    · rw [offset]
      exact clean_behind fileRead.ahead known.clean
    · rw [offset, read.entries, known.returned]
      simp only [Watch.read, Option.getD_some]
      rw [taking, linesOf_behind fileRead.ahead known.clean, texts_append]
  refine ⟨?_, rfl, reached.grow call.watch.content_refresh⟩
  have settled := read.settled_of_calm calm
  exact ⟨settled.drains, settled.placed, settled.unopened⟩

theorem Tailed.run {polls : List Poll} (tailed : Tailed hash log (nextSight polls last) tailing)
    (written : WrittenDuring log polls last) (calm : calmDuring polls last = true) :
    Tailed hash last last (tailing.run hash polls) := by
  induction polls generalizing log tailing with
  | nil => exact tailed.grow written
  | cons call later ih =>
      rcases written with ⟨grown, others⟩
      simp only [calmDuring, Bool.and_eq_true, decide_eq_true_eq] at calm
      exact ih (tailed.poll grown calm.1) others calm.2

end Polls

section Catching

/-- What is returned and what is still ahead make up the log. -/
theorem Exact.rest (exact_ : Exact log tailing) :
    texts (linesOf (log.getD [])) = tailing.returned ++
      texts (linesOf ((log.getD []).drop tailing.tailer.state.offset)) := by
  rw [exact_.returned, ← texts_append, ← exact_.clean.linesOf_append, List.take_append_drop]

theorem Watch.still_content (log : Option Bytes) : (still log).content = log.getD [] := by
  cases log <;> rfl

variable (tailed : Tailed hash log log tailing) (quiet : call.watch = .still log)
include tailed quiet

/-- A poll of a log nobody writes to returns a line if one is ahead. -/
theorem Tailed.poll_still
    (behind : tailing.returned.length < (texts (linesOf (log.getD []))).length) :
    tailing.returned.length < (tailing.poll hash call).returned.length := by
  rcases call with ⟨maxLines, maxBytes, someLines, someBytes, watch⟩
  obtain rfl : watch = .still log := quiet
  have read : PollRead hash (.still log) maxLines maxBytes tailing.tailer _ :=
    readEntries_settled tailed.settled tailed.quiet id (Grown.refl log) id someLines
  have ahead : texts (linesOf ((Watch.still log).content.drop tailing.tailer.state.offset)) ≠
      [] := by
    intro none
    rw [Watch.still_content] at none
    rw [tailed.exact.rest, none, List.append_nil] at behind
    exact lt_irrefl _ behind
  have some : (((Watch.still log).read tailing.tailer.state.offset maxLines
      maxBytes).entries.filterMap TailEntry.text) ≠ [] :=
    readLinesLoop_progress rfl (.inl ⟨someLines, ahead⟩)
  have counted := List.length_pos_of_ne_nil some
  simp only [Tailing.poll, LogTailer.readBatchBounded, read.entries, List.length_append]
  omega

theorem Tailed.poll_of_still : Tailed hash log log (tailing.poll hash call) := by
  rcases call with ⟨maxLines, maxBytes, someLines, someBytes, watch⟩
  obtain rfl : watch = .still log := quiet
  exact @Tailed.poll _ _ _ _ ⟨_, _, someLines, someBytes, _⟩ tailed (Grown.refl log)
    ((Watch.still_undisturbed log).calm log)

omit quiet in
theorem Tailed.catches_up {more : List Poll} (quiet : ∀ call ∈ more, call.watch = .still log)
    (enough : (texts (linesOf (log.getD []))).length ≤ tailing.returned.length + more.length) :
    (tailing.run hash more).returned = texts (linesOf (log.getD [])) := by
  induction more generalizing tailing with
  | nil => exact List.IsPrefix.eq_of_length_le ⟨_, tailed.exact.rest.symm⟩ enough
  | cons call later ih =>
      have still := quiet call List.mem_cons_self
      apply ih (tailed.poll_of_still still)
      · intro next member
        exact quiet next (List.mem_cons_of_mem call member)
      · rw [List.length_cons] at enough
        by_cases behind : tailing.returned.length < (texts (linesOf (log.getD []))).length
        · have further := tailed.poll_still still behind
          omega
        · have kept : tailing.returned.length ≤ (tailing.poll hash call).returned.length := by
            simp [Tailing.poll]
          omega

end Catching

/-- In every run of calm polls, what was returned is exactly the lines of at most
`MAX_LINE_BYTES` before the position reached, which never stands inside a line; and once writing
stops, as many further polls as there are lines return them all. -/
theorem tailing_exact (hash : Bytes → Digest) {start last : Option Bytes} {polls : List Poll}
    (fresh : start = none ∨ start = some []) (written : WrittenDuring start polls last)
    (calm : calmDuring polls last = true) :
    Exact last ((Tailing.start start).run hash polls) ∧
      ∀ more : List Poll, (∀ call ∈ more, call.watch = .still last) →
        (texts (linesOf (last.getD []))).length ≤ more.length →
        (((Tailing.start start).run hash polls).run hash more).returned =
          texts (linesOf (last.getD [])) := by
  have tailed : Tailed hash last last ((Tailing.start start).run hash polls) :=
    (Tailed.start fresh).run written calm
  refine ⟨tailed.exact, ?_⟩
  intro more quiet enough
  apply tailed.catches_up quiet
  omega

/-- The log is found empty, and the line `a` is written before the poll opens it. -/
def racedPoll : Poll where
  maxLines := 1
  maxBytes := 1
  someLines := Nat.one_pos
  someBytes := Nat.one_pos
  watch := .writtenBefore .openLog (some []) (some [97, 10]) List.nil_prefix

/-- The line `b` is written while the poll looks for a rotation. -/
def calmPoll : Poll :=
  { racedPoll with
    watch := .writtenBefore .probe (some [97, 10]) (some [97, 10, 98, 10]) ⟨[98, 10], rfl⟩ }

/-- A poll that nobody writes during. -/
def idlePoll (log : Bytes) : Poll :=
  { racedPoll with watch := .still (some log) }

theorem tailing_exact_calm :
    let polls := [racedPoll, calmPoll, idlePoll [97, 10, 98, 10]]
    let last := some [97, 10, 98, 10]
    WrittenDuring (some []) polls last ∧ calmDuring polls last = true ∧
      Exact last ((Tailing.start (some [])).run sha256 polls) := by
  intro polls last
  have written : WrittenDuring (some []) polls last := by decide
  have calm : calmDuring polls last = true := by decide
  exact ⟨written, calm, (tailing_exact sha256 (Or.inr rfl) written calm).1⟩

/-- The line of the raced poll is returned by the next one again. -/
theorem raced_line_returned_twice :
    let polls := [racedPoll, idlePoll [97, 10]]
    WrittenDuring (some []) polls (some [97, 10]) ∧
      ((Tailing.start (some [])).run sha256 polls).returned = [[97], [97]] ∧
      ¬Exact (some [97, 10]) ((Tailing.start (some [])).run sha256 polls) := by
  intro polls
  have returned : ((Tailing.start (some [])).run sha256 polls).returned = [[97], [97]] := by
    decide +kernel
  refine ⟨by decide, returned, ?_⟩
  intro exact_
  have whole := exact_.rest
  rw [returned] at whole
  have counted := congrArg List.length whole
  rw [List.length_append] at counted
  have one : (texts (linesOf ((some [97, 10] : Option Bytes).getD []))).length = 1 := by decide
  rw [one] at counted
  simp only [List.length_cons, List.length_nil] at counted
  omega

end Propolis
