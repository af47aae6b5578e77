import Propolis.Feed.Publisher
import Propolis.Ledger.AddressText

/-!
# A published feed never disappears

What is served is the build at `output_dir` or, where that is absent, the one parked
in `.previous`, which the next recovery puts back.  Whatever happens to the
operations of a publish, an error leaves what was served, and a death leaves that or
the new build, complete.  A `.previous` that was half removed is never served: it
is only removed while `output_dir` is there.
-/

namespace Propolis

open Bytes Crashing Program

variable {files : Files}

/-- The build that is published, or will be after a recovery. -/
def FeedDirs.served (dirs : FeedDirs) : Option Files :=
  dirs.output.or dirs.previous

variable {dirs : FeedDirs}

theorem FeedDirs.served_of_output (present : dirs.output = some files) :
    dirs.served = some files := by
  rw [served, present, Option.some_or]

theorem FeedDirs.served_of_absent (absent : dirs.output = none) : dirs.served = dirs.previous := by
  rw [served, absent, Option.none_or]

variable {exporters : Exporters} {named : Bool}

section Builds

variable (exporters)

/-- The files of one tier, written into a directory. -/
def tierFiles (name : String) (generated validUntil : ℤ) (entries : List FeedEntry)
    (files : Files) : Files :=
  Format.all.foldl (fun files format => files.write (tierFile name format)
    (exporters.export_ format name generated validUntil entries)) files

def tierManifest (name : String) (generated validUntil : ℤ) (entries : List FeedEntry) :
    TierManifest where
  count := entries.length
  sha256 := sha256Hex (exporters.export_ .txt name generated validUntil entries)
  validUntil := exporters.formatTimestamp validUntil

def windowFiles (buildTime : ℤ) (windows : List WindowFeed) (files : Files) : Files :=
  windows.foldl (fun files window => tierFiles exporters ("all-" ++ window.label) buildTime
    (buildTime + window.retention) window.entries files) files

def windowManifest (buildTime : ℤ) (window : WindowFeed) : WindowManifest :=
  let entry := tierManifest exporters ("all-" ++ window.label) buildTime
    (buildTime + window.retention) window.entries
  { label := window.label, count := entry.count, sha256 := entry.sha256,
    validUntil := entry.validUntil }

/-- The complete build of a snapshot: every file of every tier and the manifest. -/
def build (config : FeedConfig) (exclusions : ExclusionEngine) (snapshot : FeedSnapshot) :
    Option Files :=
  match revalidate snapshot exclusions with
  | .error _ => none
  | .ok _ =>
      let aggressiveUntil := snapshot.buildTime + config.aggressiveTtl
      let standardUntil := snapshot.buildTime + config.standardTtl
      let files := windowFiles exporters snapshot.buildTime snapshot.windows
        (tierFiles exporters "standard" snapshot.buildTime standardUntil snapshot.standard
          (tierFiles exporters "aggressive" snapshot.buildTime aggressiveUntil snapshot.aggressive
            []))
      (exporters.manifestJson
        { buildTime := exporters.formatTimestamp snapshot.buildTime
          aggressive := tierManifest exporters "aggressive" snapshot.buildTime aggressiveUntil
            snapshot.aggressive
          standard := tierManifest exporters "standard" snapshot.buildTime standardUntil
            snapshot.standard
          windows := snapshot.windows.map (windowManifest exporters snapshot.buildTime)
          exclusions := exclusionsManifest exclusions }).map (files.write "manifest.json")

end Builds

section Staging

/-- Only the staging directory has changed. -/
structure StagedOnly (dirs after : FeedDirs) : Prop where
  output : after.output = dirs.output
  previous : after.previous = dirs.previous

theorem StagedOnly.trans {first second third : FeedDirs} (before : StagedOnly first second)
    (after : StagedOnly second third) : StagedOnly first third :=
  ⟨after.output.trans before.output, after.previous.trans before.previous⟩

theorem stagedOnly_set (dirs : FeedDirs) (files : Option Files) :
    StagedOnly dirs (dirs.set .staging files) :=
  ⟨rfl, rfl⟩

theorem set_staging_self {files : Option Files} (staged : dirs.staging = files) :
    dirs = dirs.set .staging files := by
  rw [← staged, FeedDirs.set]

theorem writeFileSynced_ensures (staged : dirs.staging = some files)
    (name : String) (bytes : Bytes) :
    (writeFileSynced name bytes).Ensures dirs
      (fun _ after => after = dirs.set .staging (some (files.write name bytes)))
      (fun _ => StagedOnly dirs) (StagedOnly dirs) := by
  apply ensures_operation
  · intro after done
    rw [staged] at done
    exact (Option.some.inj done).symm
  · exact fun _ => ⟨rfl, rfl⟩
  all_goals exact fun _ => stagedOnly_set dirs _

theorem readStaged_ensures (name : String) :
    (readStaged name).Ensures dirs (fun _ after => after = dirs) (fun _ => StagedOnly dirs)
      (StagedOnly dirs) := by
  apply ensures_bind
  apply ensures_operation
  · intro after done
    cases done
    apply ensures_bind
    apply ensures_look
    cases dirs.staging.bind (Files.read name) with
    | none => exact ensures_raise ⟨rfl, rfl⟩
    | some bytes => exact ensures_pure rfl
  all_goals exact fun _ => ⟨rfl, rfl⟩

theorem writeTier_ensures (staged : dirs.staging = some files) (name : String)
    (generated validUntil : ℤ) (entries : List FeedEntry) :
    (writeTier exporters name generated validUntil entries).Ensures dirs
      (fun manifest after =>
        manifest = tierManifest exporters name generated validUntil entries ∧
        after = dirs.set .staging
          (some (tierFiles exporters name generated validUntil entries files)))
      (fun _ => StagedOnly dirs) (StagedOnly dirs) := by
  -- What is still to be written turns what is there into the whole tier.
  apply (ensures_each (fun rest after => ∃ there, after = dirs.set .staging (some there) ∧
    rest.foldl (fun files format => files.write (tierFile name format)
      (exporters.export_ format name generated validUntil entries)) there =
      tierFiles exporters name generated validUntil entries files)
      ⟨files, set_staging_self staged, rfl⟩ ?_).bind
  · rintro _ after ⟨there, rfl, whole⟩
    subst whole
    apply ensures_bind
    apply (readStaged_ensures _).mono
    · rintro onDisk after rfl
      split
      · exact ensures_raise (stagedOnly_set dirs _)
      · exact ensures_pure ⟨rfl, rfl⟩
    · exact fun _ _ staged => (stagedOnly_set dirs _).trans staged
    · exact fun _ staged => (stagedOnly_set dirs _).trans staged
  · rintro format rest before ⟨there, rfl, whole⟩
    apply (writeFileSynced_ensures rfl _ _).mono
    · rintro _ after rfl
      exact ⟨_, rfl, whole⟩
    · exact fun _ _ staged => (stagedOnly_set dirs _).trans staged
    · exact fun _ staged => (stagedOnly_set dirs _).trans staged

theorem writeWindows_ensures (staged : dirs.staging = some files) (buildTime : ℤ)
    (windows : List WindowFeed) :
    (writeWindows exporters buildTime windows).Ensures dirs
      (fun manifests after => manifests = windows.map (windowManifest exporters buildTime) ∧
        after = dirs.set .staging (some (windowFiles exporters buildTime windows files)))
      (fun _ => StagedOnly dirs) (StagedOnly dirs) := by
  induction windows generalizing dirs files with
  | nil =>
      exact ensures_pure ⟨rfl, set_staging_self staged⟩
  | cons window rest ih =>
      apply (writeTier_ensures staged _ _ _ _).bind
      rintro entry after ⟨rfl, rfl⟩
      apply ensures_bind
      apply (ih rfl).mono
      · rintro later after ⟨rfl, rfl⟩
        exact ensures_pure ⟨rfl, rfl⟩
      · exact fun _ _ staged => (stagedOnly_set dirs _).trans staged
      · exact fun _ staged => (stagedOnly_set dirs _).trans staged

theorem createStagingDir_ensures :
    createStagingDir.Ensures dirs (fun _ after => after = dirs.set .staging (some []))
      (fun _ => StagedOnly dirs) (StagedOnly dirs) := by
  have creates : ∀ before : FeedDirs, before = dirs.set .staging none →
      (createDirAll .staging).Ensures before
        (fun _ after => after = dirs.set .staging (some []))
        (fun _ => StagedOnly dirs) (StagedOnly dirs) := by
    rintro before rfl
    apply ensures_operation
    · intro after done
      exact (Option.some.inj done).symm
    all_goals exact fun _ => stagedOnly_set dirs _
  apply ensures_mapError
  apply ensures_bind
  apply ensures_operation
  · intro after done
    cases done
    apply ensures_bind
    apply ensures_look
    apply ensures_bind
    apply ensures_provided
    · intro leftover
      obtain ⟨files, staged⟩ := Option.isSome_iff_exists.mp leftover
      apply ensures_operation
      · intro after done
        rw [FeedDirs.get, staged] at done
        exact creates after (Option.some.inj done).symm
      · exact fun _ => ⟨rfl, rfl⟩
      · exact fun cut => stagedOnly_set dirs _
      · exact fun cut => stagedOnly_set dirs _
    · intro absent
      exact creates dirs (set_staging_self (Option.not_isSome_iff_eq_none.mp (by simp [absent])))
  all_goals exact fun _ => ⟨rfl, rfl⟩

end Staging

section Swapping

variable {new : Option Files}

theorem StagedOnly.served {after : FeedDirs} (staged : StagedOnly dirs after) :
    after.served = dirs.served := by
  rw [FeedDirs.served, staged.output, staged.previous, FeedDirs.served]

/-- What a recovery leaves: the directory at the output is untouched if there is one, and a parked
one is put there otherwise. -/
structure RecoveredFrom (named : Bool) (dirs after : FeedDirs) : Prop where
  served : after.served = dirs.served
  staging : after.staging = dirs.staging
  untouched : dirs.output.isSome → after = dirs
  restored : named = true → after.output = dirs.served

theorem RecoveredFrom.refl_of_output (present : dirs.output.isSome) :
    RecoveredFrom named dirs dirs where
  served := rfl
  staging := rfl
  untouched _ := rfl
  restored _ := by
    obtain ⟨files, here⟩ := Option.isSome_iff_exists.mp present
    rw [FeedDirs.served_of_output here, here]

theorem recover_ensures :
    (recoverInterruptedPublish named).Ensures dirs (fun _ => RecoveredFrom named dirs)
      (fun _ after => after = dirs) (fun after => after = dirs) := by
  apply ensures_bind
  apply ensures_look
  by_cases present : dirs.output.isSome
  · rw [if_pos present]
    exact ensures_pure (.refl_of_output present)
  rw [if_neg present]
  have absent : dirs.output = none := Option.not_isSome_iff_eq_none.mp present
  have parked : dirs.served = dirs.previous := FeedDirs.served_of_absent absent
  by_cases unnamed : named = false
  · rw [if_pos unnamed]
    refine ensures_pure ⟨rfl, rfl, fun _ => rfl, fun yes => ?_⟩
    rw [unnamed] at yes
    cases yes
  rw [if_neg unnamed]
  cases there : dirs.previous with
  | none =>
      refine ensures_pure ⟨rfl, rfl, fun _ => rfl, fun _ => ?_⟩
      rw [parked, there, absent]
  | some files =>
      apply ensures_bind
      apply ensures_operation
      · intro after done
        simp only [FeedDirs.get, there, absent, FeedDirs.set, Option.bind_eq_bind,
          Option.bind_some, true_or, if_true, Option.some.injEq] at done
        subst done
        refine ensures_pure ⟨?_, rfl, fun here => absurd here present, fun _ => ?_⟩
        · rw [parked, there]
          rfl
        · rw [parked, there]
      all_goals exact fun _ => rfl

theorem renameStaging_ensures (staged : dirs.staging = new) :
    (renameDir .staging .output).Ensures dirs (fun _ after => after.output = new)
      (fun _ after => after = dirs) (fun after => after = dirs) := by
  apply ensures_operation
  · intro after done
    obtain ⟨files, here, placed⟩ := Option.bind_eq_some_iff.mp done
    obtain ⟨-, placed⟩ := Option.ite_none_right_eq_some.mp placed
    rw [← staged, ← Option.some.inj placed]
    exact here.symm
  all_goals exact fun _ => rfl

/-- The parked build survives a removal of what is parked only while the output is there. -/
theorem removePrevious_ensures {files : Option Files} (there : dirs.output = files) :
    (removeDirAll .previous).Ensures dirs
      (fun _ after => after = dirs.set .previous none)
      (fun _ after => after.output = files) (fun after => after.output = files) := by
  apply ensures_operation
  · intro after done
    obtain ⟨_, -, rfl⟩ := Option.map_eq_some_iff.mp done
    rfl
  all_goals exact fun _ => there

/-- Parking the output leaves it served. -/
theorem parkOutput_ensures (there : dirs.output = some files) :
    (renameDir .output .previous).Ensures dirs
      (fun _ after => after.output = none ∧ after.previous = some files ∧
        after.staging = dirs.staging)
      (fun _ after => after = dirs) (fun after => after = dirs) := by
  apply ensures_operation
  · intro after done
    obtain ⟨moved, here, placed⟩ := Option.bind_eq_some_iff.mp done
    obtain ⟨-, placed⟩ := Option.ite_none_right_eq_some.mp placed
    rw [← Option.some.inj placed]
    exact ⟨rfl, here.symm.trans there, rfl⟩
  all_goals exact fun _ => rfl

/-- The rollback: the parked build is put back or stays parked. -/
theorem rollback_ensures (absent : dirs.output = none)
    (parked : dirs.previous = some files) :
    (renameDir .previous .output).Ensures dirs
      (fun _ after => after.served = some files)
      (fun _ after => after.served = some files) (fun after => after.served = some files) := by
  have still : dirs.served = some files := by
    rw [FeedDirs.served_of_absent absent, parked]
  apply ensures_operation
  · intro after done
    obtain ⟨moved, here, placed⟩ := Option.bind_eq_some_iff.mp done
    obtain ⟨-, placed⟩ := Option.ite_none_right_eq_some.mp placed
    rw [← Option.some.inj placed]
    exact FeedDirs.served_of_output (here.symm.trans parked)
  all_goals exact fun _ => still

/-- The new build takes the place of the output, or the output is still served. -/
theorem replaceOutput_ensures (present : dirs.output = some files) (staged : dirs.staging = new) :
    replaceOutput.Ensures dirs
      (fun _ after => after.output = new) (fun _ after => after.served = some files)
      (fun after => after.served = some files ∨ after.output = new) := by
  apply ensures_bind
  apply (parkOutput_ensures present).mono
  · rintro _ aside ⟨absent, parked, same⟩
    have still : aside.served = some files := by
      rw [FeedDirs.served_of_absent absent, parked]
    apply ensures_bind
    apply ensures_attempt
    apply (renameStaging_ensures (same.trans staged)).mono
    · intro _ after placed
      apply ensures_bind
      apply ensures_attempt
      apply (removePrevious_ensures placed).mono
      · rintro _ after rfl
        exact ensures_pure placed
      · exact fun _ _ placed => ensures_pure placed
      · exact fun _ placed => .inr placed
    · rintro error after rfl
      apply ensures_bind
      apply ensures_attempt
      apply (rollback_ensures absent parked).mono
      · exact fun _ _ back => ensures_raise back
      · exact fun _ _ back => ensures_raise back
      · exact fun _ back => .inl back
    · rintro after rfl
      exact .inl still
  · rintro _ after rfl
    exact FeedDirs.served_of_output present
  · rintro after rfl
    exact .inl (FeedDirs.served_of_output present)

/-- With a build at the output, what is parked is removed first, and only then the build is
parked in its turn. -/
theorem swapIntoPlace_ensures (staged : dirs.staging = new) :
    (swapIntoPlace true).Ensures dirs (fun _ after => after.output = new)
      (fun _ after => after.served = dirs.served)
      (fun after => after.served = dirs.served ∨ after.output = new) := by
  apply ensures_bind
  apply recover_ensures.mono
  · intro _ back recovered
    apply ensures_bind
    apply ensures_look
    have stagedBack : back.staging = new := recovered.staging.trans staged
    cases present : back.output with
    | none =>
        apply (renameStaging_ensures stagedBack).mono
        · exact fun _ _ placed => placed
        · rintro _ after rfl
          exact recovered.served
        · rintro after rfl
          exact .inl recovered.served
    | some files =>
        rw [← recovered.served, FeedDirs.served_of_output present]
        apply ensures_bind
        apply ensures_provided
        · intro _
          apply (removePrevious_ensures present).mono
          · rintro _ cleared rfl
            exact replaceOutput_ensures present stagedBack
          · exact fun _ after kept => FeedDirs.served_of_output kept
          · exact fun after kept => .inl (FeedDirs.served_of_output kept)
        · intro _
          exact replaceOutput_ensures present stagedBack
  · rintro _ after rfl
    rfl
  · rintro after rfl
    exact .inl rfl

end Swapping

section Publishing

variable {config : FeedConfig} {exclusions : ExclusionEngine} {snapshot : FeedSnapshot}

/-- The output is the complete build of the snapshot. -/
def PublishedAs (built : Option Files) (after : FeedDirs) : Prop :=
  ∃ files, built = some files ∧ after.output = some files

/-- A part of a publish that works in the staging directory only, and then the rest of it. -/
theorem ensures_bind_of_staged {Value Other : Type} {program : Publishing Value}
    {next : Value → Publishing Other} {returned : Value → FeedDirs → Prop}
    {finished : Other → FeedDirs → Prop} {served : Option Files} {published : FeedDirs → Prop}
    (same : dirs.served = served)
    (staging : program.Ensures dirs returned (fun _ => StagedOnly dirs) (StagedOnly dirs))
    (rest : ∀ value after, returned value after → (next value).Ensures after finished
      (fun _ after => after.served = served)
      (fun after => after.served = served ∨ published after)) :
    (program >>= next).Ensures dirs finished (fun _ after => after.served = served)
      (fun after => after.served = served ∨ published after) := by
  apply ensures_bind
  apply staging.mono rest
  · exact fun _ _ staged => staged.served.trans same
  · exact fun _ staged => .inl (staged.served.trans same)

/-- Everything up to the swap leaves what is served; the swap then has the whole build staged. -/
theorem publish_ensures :
    (publish exporters named config exclusions snapshot).Ensures dirs
      (fun _ after => named = true ∧
        PublishedAs (build exporters config exclusions snapshot) after)
      (fun _ after => after.served = dirs.served)
      (fun after => after.served = dirs.served ∨
        PublishedAs (build exporters config exclusions snapshot) after) := by
  apply ensures_bind
  apply recover_ensures.mono
  · intro _ back recovered
    have same := recovered.served
    rw [build]
    cases valid : revalidate snapshot exclusions with
    | error error => exact ensures_raise same
    | ok _ =>
        cases named with
        | false => exact ensures_raise same
        | true =>
            refine ensures_bind_of_staged same createStagingDir_ensures ?_
            rintro _ after rfl
            refine ensures_bind_of_staged same (writeTier_ensures rfl _ _ _ _) ?_
            rintro _ after ⟨rfl, rfl⟩
            refine ensures_bind_of_staged same (writeTier_ensures rfl _ _ _ _) ?_
            rintro _ after ⟨rfl, rfl⟩
            refine ensures_bind_of_staged same (writeWindows_ensures rfl _ _) ?_
            rintro _ after ⟨rfl, rfl⟩
            dsimp only
            cases exporters.manifestJson _ with
            | none => exact ensures_raise same
            | some json =>
                refine ensures_bind_of_staged same (writeFileSynced_ensures rfl _ _) ?_
                rintro _ after rfl
                apply (swapIntoPlace_ensures rfl).mono
                · exact fun _ after placed => ⟨rfl, _, rfl, placed⟩
                · exact fun _ after kept => kept.trans same
                · rintro after (kept | placed)
                  · exact .inl (kept.trans same)
                  · exact .inr ⟨_, rfl, placed⟩
  · rintro _ after rfl
    rfl
  · rintro after rfl
    exact .inl rfl

end Publishing

section Runs

/-- The build is at the output, or parked with nothing at the output. -/
def Serves (dirs : FeedDirs) (files : Files) : Prop :=
  dirs.output = some files ∨ dirs.output = none ∧ dirs.previous = some files

theorem serves_iff : Serves dirs files ↔ dirs.served = some files := by
  cases present : dirs.output with
  | none => rw [FeedDirs.served_of_absent present, Serves, present]; simp
  | some there => rw [FeedDirs.served_of_output present, Serves, present]; simp

/-- A complete build of some snapshot, as a publish that succeeds leaves it. -/
def IsBuild (exporters : Exporters) (files : Files) : Prop :=
  ∃ config exclusions snapshot, build exporters config exclusions snapshot = some files

inductive FeedTask where
  | publish (config : FeedConfig) (exclusions : ExclusionEngine) (snapshot : FeedSnapshot)
  | recover

/-- A publish or a recovery, with what happens to its operations. -/
structure FeedCall where
  task : FeedTask
  fates : List (Fate DirCut)

def FeedCall.run (exporters : Exporters) (named : Bool) (dirs : FeedDirs) (call : FeedCall) :
    FeedDirs :=
  match call.task with
  | .publish config exclusions snapshot =>
      (publish exporters named config exclusions snapshot dirs call.fates).2.1
  | .recover => (recoverInterruptedPublish named dirs call.fates).2.1

/-- A complete build is served. -/
def ServesBuild (exporters : Exporters) (dirs : FeedDirs) : Prop :=
  ∃ files, IsBuild exporters files ∧ Serves dirs files

/-- A call leaves the build that was served, or a new one in its place. -/
theorem FeedCall.run_serves (call : FeedCall) (serves : ServesBuild exporters dirs) :
    ServesBuild exporters (call.run exporters named dirs) := by
  obtain ⟨files, complete, serves⟩ := serves
  have kept : ∀ after : FeedDirs, after.served = dirs.served → ServesBuild exporters after :=
    fun after same => ⟨files, complete, serves_iff.mpr (same.trans (serves_iff.mp serves))⟩
  obtain ⟨task, fates⟩ := call
  cases task with
  | publish config exclusions snapshot =>
      have placed : ∀ after, PublishedAs (build exporters config exclusions snapshot) after →
          ServesBuild exporters after := by
        rintro after ⟨new, built, output⟩
        exact ⟨new, ⟨config, exclusions, snapshot, built⟩, .inl output⟩
      have ensures : (publish exporters named config exclusions snapshot).Ensures dirs
          (fun _ => ServesBuild exporters) (fun _ => ServesBuild exporters)
          (ServesBuild exporters) := by
        apply publish_ensures.mono
        · exact fun _ after published => placed after published.2
        · exact fun _ after same => kept after same
        · rintro after (same | published)
          · exact kept after same
          · exact placed after published
      exact ensures.always fates
  | recover =>
      have ensures : (recoverInterruptedPublish named).Ensures dirs
          (fun _ => ServesBuild exporters) (fun _ => ServesBuild exporters)
          (ServesBuild exporters) := by
        apply recover_ensures.mono
        · exact fun _ after recovered => kept after recovered.served
        · exact fun _ after same => kept after (congrArg FeedDirs.served same)
        · exact fun after same => kept after (congrArg FeedDirs.served same)
      exact ensures.always fates

theorem FeedCall.runs_serve (named : Bool) (calls : List FeedCall)
    (serves : ServesBuild exporters dirs) :
    ServesBuild exporters (calls.foldl (FeedCall.run exporters named) dirs) := by
  induction calls generalizing dirs with
  | nil => exact serves
  | cons call rest ih => exact ih (call.run_serves serves)

/-- A directory at the output is left alone. -/
theorem recover_of_output (present : dirs.output.isSome)
    (fates : List (Fate DirCut)) : (recoverInterruptedPublish named dirs fates).2.1 = dirs := by
  have ensures : (recoverInterruptedPublish named).Ensures dirs (fun _ after => after = dirs)
      (fun _ after => after = dirs) (fun after => after = dirs) := by
    apply recover_ensures.mono
    · exact fun _ after recovered => recovered.untouched present
    · exact fun _ after same => same
    · exact fun after same => same
  exact ensures.always fates

/-- Once a publish has succeeded, however the later publishes and recoveries end: the output holds
a complete build or one is parked in its absence; a recovery that returns has put a complete
build at the output and has not touched one that was there; and a publish that returns an error
leaves the build that was published where a recovery finds it. -/
theorem published_feed_stays {config : FeedConfig} {exclusions : ExclusionEngine}
    {snapshot : FeedSnapshot} {start : FeedDirs} {fates : List (Fate DirCut)}
    (succeeded : (publish exporters named config exclusions snapshot start fates).1 = .returns ())
    (calls : List FeedCall) :
    let dirs := calls.foldl (FeedCall.run exporters named)
      (publish exporters named config exclusions snapshot start fates).2.1
    ServesBuild exporters dirs ∧
    (∀ fates restored, (recoverInterruptedPublish named dirs fates).1 = .returns restored →
      ∃ files, IsBuild exporters files ∧
        (recoverInterruptedPublish named dirs fates).2.1.output = some files) ∧
    (∀ config exclusions snapshot fates error,
      (publish exporters named config exclusions snapshot dirs fates).1 = .raises error →
      ∀ files, Serves dirs files →
        Serves (publish exporters named config exclusions snapshot dirs fates).2.1 files) ∧
    (∀ fates, dirs.output.isSome → (recoverInterruptedPublish named dirs fates).2.1 = dirs) := by
  intro dirs
  obtain ⟨isNamed, files, built, output⟩ := publish_ensures.of_returns succeeded
  obtain ⟨current, complete, serves⟩ :=
    FeedCall.runs_serve named calls ⟨files, ⟨_, _, _, built⟩, .inl output⟩
  refine ⟨⟨current, complete, serves⟩, ?_, ?_, ?_⟩
  · intro fates restored returned
    refine ⟨current, complete, ?_⟩
    rw [(recover_ensures.of_returns returned).restored isNamed]
    exact serves_iff.mp serves
  · intro config exclusions snapshot fates error raised files before
    rw [serves_iff] at before ⊢
    exact (publish_ensures.of_raises raised).trans before
  · intro fates present
    exact recover_of_output present fates

end Runs

section Interrupted

/-- One address a line, in every format. -/
def lineExporters : Exporters where
  export_ _ _ _ _ entries := entries.flatMap fun entry => ipText entry.sourceIp ++ [10]
  formatTimestamp _ := "2026-01-01T00:00:00Z"
  manifestJson manifest := some (ofText manifest.buildTime)

def oneAddressSnapshot : FeedSnapshot where
  buildTime := 0
  aggressive := []
  standard := [{
    sourceIp := .v4 203 0 113 7, tier := some .standard, firstSeen := 0, lastSeen := 0,
    eventCount := 3, distinctCategories := 1, categories := ["ssh"], validFrom := 0,
    validUntil := 86400 }]
  windows := []

def noExclusions : ExclusionEngine where
  isExcluded _ := false
  allowlistLen := 0
  delistLen := 0
  asnAllowlistLen := 0
  asnDbLoaded := false

def dailyConfig : FeedConfig := { aggressiveTtl := 86400, standardTtl := 86400 }

/-- A publish that dies between its two renames. -/
def interruptedPublish : FeedCall where
  task := .publish dailyConfig noExclusions oneAddressSnapshot
  fates := List.replicate 26 .succeeds ++
    [.dies { kept := fun _ => true, gone := false, written := none }]

theorem published_feed_stays_interrupted :
    (publish lineExporters true dailyConfig noExclusions oneAddressSnapshot
      ⟨none, none, none⟩ []).1 = .returns () ∧
    ServesBuild lineExporters (interruptedPublish.run lineExporters true
      (publish lineExporters true dailyConfig noExclusions oneAddressSnapshot
        ⟨none, none, none⟩ []).2.1) := by
  have succeeded : (publish lineExporters true dailyConfig noExclusions oneAddressSnapshot
      ⟨none, none, none⟩ []).1 = .returns () := by
    decide +kernel
  exact ⟨succeeded, (published_feed_stays succeeded [interruptedPublish]).1⟩

end Interrupted

end Propolis
