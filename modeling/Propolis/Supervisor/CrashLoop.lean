import Propolis.Lib.Run
import Mathlib

/-!
# Restarting a subsystem that panics

The supervisor counts the panics from an anchor on and keeps the anchor's time.  The anchor is the
first panic, or the one after a healthy run; a third panic outside the window becomes the anchor
itself.  The panic before it is then forgotten, though the next one may be close to both.
-/

namespace Propolis.Supervising

/-- In nanoseconds, as every duration here. -/
def seconds (count : ℕ) : ℕ := count * 10 ^ 9

def initialBackoff : ℕ := seconds 1

def maxBackoff : ℕ := seconds 60

def maxConsecutivePanics : ℕ := 3

def panicWindow : ℕ := seconds 60

def healthyReset : ℕ := seconds 300

inductive SubsysState
  | backingOff (consecutive : ℕ)
  | gaveUp
  deriving DecidableEq

structure Counter where
  consecutivePanics : ℕ
  firstPanicAt : Option ℕ
  backoff : ℕ

def Counter.reset : Counter := ⟨0, none, initialBackoff⟩

/-- What is published after a run that ended in a panic, and the counter for the next one. -/
def Counter.onPanic (counter : Counter) (ran now : ℕ) : SubsysState × Counter :=
  let counter := if healthyReset ≤ ran then .reset else counter
  let consecutive := counter.consecutivePanics + 1
  let first := counter.firstPanicAt.getD now
  if maxConsecutivePanics ≤ consecutive ∧ now - first < panicWindow then
    (.gaveUp, ⟨consecutive, some first, counter.backoff⟩)
  else if maxConsecutivePanics ≤ consecutive then (.backingOff 1, ⟨1, some now, initialBackoff⟩)
  else (.backingOff consecutive, ⟨consecutive, some first, counter.backoff⟩)

structure Panic where
  ran : ℕ
  time : ℕ
  published : SubsysState

structure Supervisor where
  counter : Counter
  /-- When the next run starts. -/
  clock : ℕ
  /-- The last one first. -/
  panics : List Panic

namespace Supervisor

def start : Supervisor := ⟨.reset, 0, []⟩

def stopped (supervisor : Supervisor) : Bool :=
  supervisor.panics.head?.any fun panic => panic.published = .gaveUp

/-- A run of so long, unless restarts have stopped, and the sleep after its panic. -/
def step (supervisor : Supervisor) (ran : ℕ) : Supervisor :=
  if supervisor.stopped then supervisor
  else
    let now := supervisor.clock + ran
    let (published, counter) := supervisor.counter.onPanic ran now
    { counter := { counter with backoff := min (counter.backoff * 2) maxBackoff }
      clock := now + counter.backoff
      panics := ⟨ran, now, published⟩ :: supervisor.panics }

/-- After a panic that became the anchor because the window was over, the next one is not within
the window of the panic before it. -/
def spaced (supervisor : Supervisor) (ran : ℕ) : Bool :=
  match supervisor.panics with
  | anchor :: before :: _ =>
      supervisor.counter.consecutivePanics ≠ 1 ∨ healthyReset ≤ anchor.ran ∨ healthyReset ≤ ran ∨
        panicWindow ≤ supervisor.clock + ran - before.time
  | _ => true

end Supervisor

/-- A panic and the two before it are within the window, with no healthy run between them. -/
def CrashLoop (ran time : ℕ) : List Panic → Prop
  | second :: first :: _ =>
      time - first.time < panicWindow ∧ second.ran < healthyReset ∧ ran < healthyReset
  | _ => False

/-- Which panics the counter counts. -/
inductive Anchored (counter : Counter) : List Panic → Prop
  | none_ (count : counter.consecutivePanics = 0) (first : counter.firstPanicAt = none) :
      Anchored counter []
  | one {anchor older} (count : counter.consecutivePanics = 1)
      (first : counter.firstPanicAt = some anchor.time) : Anchored counter (anchor :: older)
  | two {second anchor older} (count : counter.consecutivePanics = 2)
      (first : counter.firstPanicAt = some anchor.time) (unhealthy : second.ran < healthyReset) :
      Anchored counter (second :: anchor :: older)

theorem CrashLoop.unhealthy {ran time : ℕ} {older : List Panic} (loops : CrashLoop ran time older) :
    ran < healthyReset := by
  rcases older with _ | ⟨second, _ | ⟨first, older⟩⟩
  · exact loops.elim
  · exact loops.elim
  · exact loops.2.2

/-- The counter decides the rule, unless the panic before the anchor matters. -/
theorem onPanic_spec {counter : Counter} {older : List Panic} {ran now : ℕ}
    (anchored : Anchored counter older)
    (apart : counter.consecutivePanics = 1 → ¬CrashLoop ran now older) :
    ((counter.onPanic ran now).1 = .gaveUp ↔ CrashLoop ran now older) ∧
      ((counter.onPanic ran now).1 ≠ .gaveUp → ∀ published backoff, Anchored
        { (counter.onPanic ran now).2 with backoff } (⟨ran, now, published⟩ :: older)) := by
  by_cases healthy : healthyReset ≤ ran
  · have same : counter.onPanic ran now = (.backingOff 1, ⟨1, some now, initialBackoff⟩) := by
      simp [Counter.onPanic, healthy, Counter.reset, maxConsecutivePanics]
    rw [same]
    refine ⟨⟨by simp, fun loops => ?_⟩, fun _ _ _ => .one rfl rfl⟩
    exact absurd loops.unhealthy (Nat.not_lt.mpr healthy)
  · simp only [Counter.onPanic, healthy, if_false]
    cases anchored with
    | none_ count first =>
        simp only [count, first, maxConsecutivePanics]
        exact ⟨by simp [CrashLoop], fun _ _ _ => .one rfl rfl⟩
    | one count first =>
        simp only [count, first, maxConsecutivePanics]
        exact ⟨by simpa using apart count, fun _ _ _ => .two rfl rfl (Nat.not_le.mp healthy)⟩
    | @two second anchor older count first unhealthy =>
        simp only [count, first, maxConsecutivePanics]
        by_cases close : now - anchor.time < panicWindow
        · simp [close, CrashLoop, unhealthy, Nat.not_le.mp healthy]
        · simp only [close, Option.getD_some]
          exact ⟨by simp [close, CrashLoop], fun _ _ _ => .one rfl rfl⟩

namespace Supervisor

variable {supervisor : Supervisor} {ran : ℕ}

/-- Restarts stopped at the panics of a crash loop and at no other. -/
structure Judged (supervisor : Supervisor) : Prop where
  panics : ∀ newer panic older, supervisor.panics = newer ++ panic :: older →
    (panic.published = .gaveUp ↔ CrashLoop panic.ran panic.time older) ∧
      (panic.published = .gaveUp → newer = [])
  anchored : supervisor.stopped = false → Anchored supervisor.counter supervisor.panics

theorem judged_start : Judged start := by
  refine ⟨?_, fun _ => .none_ rfl rfl⟩
  intro newer panic older same
  simp [start] at same

theorem not_crashLoop_of_spaced (apart : supervisor.spaced ran = true)
    (one : supervisor.counter.consecutivePanics = 1) :
    ¬CrashLoop ran (supervisor.clock + ran) supervisor.panics := by
  intro loops
  rw [spaced] at apart
  split at apart
  case h_1 anchor before older same =>
    rw [same] at loops
    obtain ⟨close, earlier, unhealthy⟩ := loops
    simp only [decide_eq_true_eq] at apart
    omega
  case h_2 short =>
    rcases same : supervisor.panics with _ | ⟨second, _ | ⟨first, older⟩⟩
    · simp [CrashLoop] at loops
    · simp [CrashLoop] at loops
    · exact short _ _ _ same

theorem Judged.step (judged : Judged supervisor) (apart : supervisor.spaced ran = true) :
    Judged (supervisor.step ran) := by
  rw [Supervisor.step]
  split
  · exact judged
  case isFalse running =>
    rw [Bool.not_eq_true] at running
    obtain ⟨gives, counts⟩ := onPanic_spec (judged.anchored running)
      (not_crashLoop_of_spaced apart)
    refine ⟨?_, ?_⟩
    · intro newer panic older same
      rcases newer with _ | ⟨last, newer⟩
      · cases same
        exact ⟨gives, fun _ => rfl⟩
      · obtain ⟨rule, stops⟩ := judged.panics newer panic older (List.cons.inj same).2
        refine ⟨rule, fun gaveUp => ?_⟩
        -- nothing is run after the panic at which restarts stopped
        have tail := (List.cons.inj same).2
        rw [stops gaveUp] at tail
        simp [stopped, tail, gaveUp] at running
    · intro goesOn
      exact counts (by simpa [stopped] using goesOn) _ _

/-- A run that is not given up on is followed by the next. -/
theorem length_of_running {runs : List ℕ} (running : (runs.foldl step supervisor).stopped = false) :
    (runs.foldl step supervisor).panics.length = supervisor.panics.length + runs.length := by
  induction runs generalizing supervisor with
  | nil => rfl
  | cons ran runs ih =>
      by_cases ended : supervisor.stopped = true
      · have still : (ran :: runs).foldl step supervisor = supervisor :=
          List.foldl_fixed' (by simp [Supervisor.step, ended]) _
        simp [still, ended] at running
      · rw [List.foldl_cons, ih running]
        simp [Supervisor.step, ended]
        omega

/-- Where no panic is within the window of the one before a moved anchor, restarts stop at the
first panic that ends a crash loop, and at no other. -/
theorem gives_up_on_crash_loop (runs : List ℕ) (apart : Run.meets step spaced start runs = true) :
    (∀ newer panic older, (runs.foldl step start).panics = newer ++ panic :: older →
      (panic.published = .gaveUp ↔ CrashLoop panic.ran panic.time older) ∧
        (panic.published = .gaveUp → newer = [])) ∧
      ((runs.foldl step start).stopped = false →
        (runs.foldl step start).panics.length = runs.length) := by
  refine ⟨?_, ?_⟩
  · apply Judged.panics
    apply Run.invariant_of_meets Judged _ judged_start apart
    exact fun supervisor ran apart judged => judged.step apart
  · intro running
    simpa [start] using length_of_running running

/-- Three panics at once. -/
theorem gives_up_on_three_panics : ([0, 0, 0].foldl step start).stopped = true ∧
    ∃ panic older, ([0, 0, 0].foldl step start).panics = panic :: older ∧
      CrashLoop panic.ran panic.time older := by
  refine ⟨by decide +kernel, _, _, rfl, ?_⟩
  have judged := (gives_up_on_crash_loop [0, 0, 0] (by decide +kernel)).1 [] _ _ rfl
  exact judged.1.mp (by decide +kernel)

/-- Panics after 0, 50, 70 and 80 seconds: the last three are within half a minute, and the
subsystem is restarted. -/
theorem moved_anchor_misses_loop :
    ∃ panic older, ([0, seconds 49, seconds 18, seconds 9].foldl step start).panics =
      panic :: older ∧ CrashLoop panic.ran panic.time older ∧ panic.published = .backingOff 2 := by
  refine ⟨_, _, rfl, ⟨?_, ?_, ?_⟩, ?_⟩ <;> decide +kernel

end Supervisor

end Propolis.Supervising
