import Mathlib

/-!
# Debounce and re-page

`DebounceMachine` (`propolis/ops_alert/debounce.rs`), one for each condition.  Whatever it is
shown, its actions are a beginning of `(Page RePage* Recovered)*`, and a page comes at the end of
firing readings, with no healthy one between them, that span `for_dur`.
-/

namespace Propolis.OpsAlerts

inductive Signal where
  | ok | firing | unknown
  deriving DecidableEq

inductive Action where
  | none | page | rePage | recovered
  deriving DecidableEq

inductive DebounceState where
  | clear
  | pending (since : ℕ)
  | firing (lastPaged : ℕ)
  deriving DecidableEq

structure DebounceMachine where
  state : DebounceState
  forDur : ℕ
  repageCooldown : ℕ
  deriving DecidableEq

/-- What a machine is shown, and when. -/
abbrev Reading := Signal × ℕ

namespace DebounceMachine

def new (forDur repageCooldown : ℕ) : DebounceMachine :=
  ⟨.clear, forDur, repageCooldown⟩

def isOpen (machine : DebounceMachine) : Bool :=
  match machine.state with
  | .firing _ => true
  | _ => false

def step (machine : DebounceMachine) (signal : Signal) (now : ℕ) : DebounceMachine × Action :=
  match machine.state, signal with
  | _, .unknown => (machine, .none)
  | .clear, .ok => (machine, .none)
  | .pending _, .ok => ({ machine with state := .clear }, .none)
  | .clear, .firing =>
      if machine.forDur = 0 then ({ machine with state := .firing now }, .page)
      else ({ machine with state := .pending now }, .none)
  | .pending since, .firing =>
      if now - since ≥ machine.forDur then ({ machine with state := .firing now }, .page)
      else (machine, .none)
  | .firing lastPaged, .firing =>
      if now - lastPaged ≥ machine.repageCooldown then
        ({ machine with state := .firing now }, .rePage)
      else (machine, .none)
  | .firing _, .ok => ({ machine with state := .clear }, .recovered)

/-- The machine after some readings. -/
def after (machine : DebounceMachine) (readings : List Reading) : DebounceMachine :=
  readings.foldl (fun machine reading => (machine.step reading.1 reading.2).1) machine

/-- What it did on them. -/
def actions (machine : DebounceMachine) : List Reading → List Action
  | [] => []
  | reading :: later =>
      (machine.step reading.1 reading.2).2 ::
        (machine.step reading.1 reading.2).1.actions later

theorem step_forDur (machine : DebounceMachine) (signal : Signal) (now : ℕ) :
    (machine.step signal now).1.forDur = machine.forDur := by
  unfold step
  split <;> first | rfl | (split <;> rfl)

/-- The actions other than none. -/
def deeds (machine : DebounceMachine) (readings : List Reading) : List Action :=
  (machine.actions readings).filter (· ≠ .none)

theorem after_append (machine : DebounceMachine) (readings : List Reading) (reading : Reading) :
    machine.after (readings ++ [reading]) =
      ((machine.after readings).step reading.1 reading.2).1 := by
  simp [after]

theorem deeds_cons (machine : DebounceMachine) (reading : Reading) (later : List Reading) :
    machine.deeds (reading :: later) =
      [(machine.step reading.1 reading.2).2].filter (· ≠ .none) ++
        (machine.step reading.1 reading.2).1.deeds later := by
  rw [deeds, actions]
  by_cases idle : (machine.step reading.1 reading.2).2 = .none <;> simp [idle, deeds]

section Pattern

open RegularExpression

/-- `RePage* Recovered`, what is left of an incident once it has paged. -/
def remainder : RegularExpression Action :=
  .comp (.star (.char .rePage)) (.char .recovered)

/-- `(Page RePage* Recovered)*`. -/
def incidents : RegularExpression Action :=
  .star (.comp (.char .page) remainder)

variable {actions : List Action}

theorem nil_mem_incidents : [] ∈ incidents.matches' := by
  exact Language.nil_mem_kstar _

theorem cons_mem {action : Action} {before after : Language Action}
    (unfolds : {[action]} * after ≤ before) (rest : actions ∈ after) : action :: actions ∈ before :=
  unfolds (Language.mem_mul.mpr ⟨[action], rfl, actions, rest, rfl⟩)

theorem page_mem (rest : actions ∈ (remainder * incidents).matches') :
    .page :: actions ∈ incidents.matches' := by
  refine cons_mem ?_ rest
  rw [matches'_mul, ← mul_assoc]
  exact mul_kstar_le_kstar

theorem rePage_mem (rest : actions ∈ (remainder * incidents).matches') :
    .rePage :: actions ∈ (remainder * incidents).matches' := by
  refine cons_mem ?_ rest
  simp only [remainder, comp_def, matches'_mul, matches'_star, matches'_char, ← mul_assoc]
  gcongr
  exact mul_kstar_le_kstar

theorem recovered_mem (rest : actions ∈ incidents.matches') :
    .recovered :: actions ∈ (remainder * incidents).matches' := by
  refine Language.mem_mul.mpr ⟨[.recovered], ?_, actions, rest, rfl⟩
  exact Language.mem_mul.mpr ⟨[], Language.nil_mem_kstar _, [.recovered], rfl, rfl⟩

/-- What a machine may yet do: end the incident it is in, if any, and have others. -/
def prospects (machine : DebounceMachine) : Language Action :=
  if machine.isOpen then (remainder * incidents).matches' else incidents.matches'

theorem exists_prospect (machine : DebounceMachine) : ∃ rest, rest ∈ machine.prospects := by
  cases opened : machine.isOpen with
  | true => exact ⟨[.recovered], by simpa [prospects, opened] using recovered_mem nil_mem_incidents⟩
  | false => exact ⟨[], by simpa [prospects, opened] using nil_mem_incidents⟩

/-- A page opens an incident, a recovery closes it, a re-page is inside it. -/
theorem step_isOpen (machine : DebounceMachine) (signal : Signal) (now : ℕ) :
    match (machine.step signal now).2 with
    | .none => (machine.step signal now).1.isOpen = machine.isOpen
    | .page => machine.isOpen = false ∧ (machine.step signal now).1.isOpen = true
    | .rePage => machine.isOpen = true ∧ (machine.step signal now).1.isOpen = true
    | .recovered => machine.isOpen = true ∧ (machine.step signal now).1.isOpen = false := by
  unfold step
  grind [isOpen]

/-- An action, followed by what the machine may do after it, is what it may do before it. -/
theorem step_prospects (machine : DebounceMachine) (signal : Signal) (now : ℕ)
    (rest : actions ∈ (machine.step signal now).1.prospects) :
    [(machine.step signal now).2].filter (· ≠ .none) ++ actions ∈ machine.prospects := by
  have opens := machine.step_isOpen signal now
  cases action : (machine.step signal now).2 with
  | none => simpa [prospects, action ▸ opens] using rest
  | page =>
    simp only [action] at opens
    simpa [prospects, opens] using page_mem (by simpa [prospects, opens] using rest)
  | rePage =>
    simp only [action] at opens
    simpa [prospects, opens] using rePage_mem (by simpa [prospects, opens] using rest)
  | recovered =>
    simp only [action] at opens
    simpa [prospects, opens] using recovered_mem (by simpa [prospects, opens] using rest)

theorem deeds_prospects (machine : DebounceMachine) (readings : List Reading) :
    ∃ rest, machine.deeds readings ++ rest ∈ machine.prospects := by
  induction readings generalizing machine with
  | nil => exact machine.exists_prospect
  | cons reading later ih =>
    rcases ih (machine.step reading.1 reading.2).1 with ⟨rest, follows⟩
    refine ⟨rest, ?_⟩
    rw [deeds_cons, List.append_assoc]
    exact machine.step_prospects reading.1 reading.2 follows

end Pattern

section Holding

variable {readings : List Reading} {machine : DebounceMachine} {signal : Signal} {since now : ℕ}

/-- Firing readings, no healthy one between them, that begin at an instant. -/
def HeldSince (readings : List Reading) (since : ℕ) : Prop :=
  ∃ front later, readings = front ++ (.firing, since) :: later ∧ ∀ reading ∈ later, reading.1 ≠ .ok

theorem HeldSince.append (held : HeldSince readings since)
    {reading : Reading} (unhealthy : reading.1 ≠ .ok) :
    HeldSince (readings ++ [reading]) since := by
  rcases held with ⟨front, later, rfl, each⟩
  refine ⟨front, later ++ [reading], by simp, ?_⟩
  exact List.forall_mem_append.mpr
    ⟨each, List.forall_mem_singleton.mpr unhealthy⟩

theorem heldSince_self (readings : List Reading) (now : ℕ) :
    HeldSince (readings ++ [(.firing, now)]) now :=
  ⟨readings, [], rfl, by simp⟩

theorem pending_of_step (pending : (machine.step signal now).1.state = .pending since) :
    machine.state = .pending since ∧ signal ≠ .ok ∨ signal = .firing ∧ now = since := by
  unfold step at pending
  grind

theorem page_of_step (paged : (machine.step signal now).2 = .page) :
    signal = .firing ∧ (machine.forDur = 0 ∨
      ∃ since, machine.state = .pending since ∧ machine.forDur ≤ now - since) := by
  unfold step at paged
  grind

/-- A pending machine has been shown nothing healthy since. -/
theorem heldSince_of_pending {forDur repageCooldown : ℕ}
    (pending : ((new forDur repageCooldown).after readings).state = .pending since) :
    HeldSince readings since := by
  induction readings using List.reverseRecOn with
  | nil => cases pending
  | append_singleton readings reading ih =>
    rw [after_append] at pending
    rcases reading with ⟨signal, now⟩
    rcases pending_of_step pending with ⟨before, unhealthy⟩ | ⟨rfl, rfl⟩
    · exact (ih before).append unhealthy
    · exact heldSince_self readings now

theorem after_forDur (machine : DebounceMachine) (readings : List Reading) :
    (machine.after readings).forDur = machine.forDur := by
  induction readings using List.reverseRecOn with
  | nil => rfl
  | append_singleton readings reading ih => rw [after_append, step_forDur, ih]

/-- A page ends firing readings, with no healthy one between them, that span `for_dur`. -/
theorem heldSince_of_page {forDur repageCooldown : ℕ} {signal : Signal}
    {now : ℕ} (paged : (((new forDur repageCooldown).after readings).step signal now).2 = .page) :
    signal = .firing ∧
      ∃ since, HeldSince (readings ++ [(signal, now)]) since ∧ forDur ≤ now - since := by
  rcases page_of_step paged with ⟨rfl, span⟩
  rw [after_forDur] at span
  refine ⟨rfl, ?_⟩
  rcases span with zero | ⟨since, pending, held⟩
  · exact ⟨now, heldSince_self readings now, zero.le.trans (Nat.zero_le _)⟩
  · exact ⟨since, (heldSince_of_pending pending).append (by simp), held⟩

theorem heldSince_of_page_through_unknown :
    Signal.firing = .firing ∧ ∃ since,
      HeldSince ([(.firing, 1), (.unknown, 2)] ++ [(.firing, 3)]) since ∧ 2 ≤ 3 - since :=
  @heldSince_of_page [(.firing, 1), (.unknown, 2)] 2 9 .firing 3 (by decide)

/-- A machine that is pending pages when `for_dur` is over, unless it is shown something healthy. -/
theorem isOpen_of_pending {machine : DebounceMachine} {since now : ℕ}
    (pending : machine.state = .pending since) (unhealthy : ∀ reading ∈ readings, reading.1 ≠ .ok)
    (long : machine.forDur ≤ now - since) :
    (machine.after (readings ++ [(.firing, now)])).isOpen = true := by
  -- It waits or has paged, as no reading in between is healthy.
  have waits : (machine.after readings).isOpen = true ∨
      (machine.after readings).state = .pending since := by
    induction readings using List.reverseRecOn with
    | nil => exact .inr pending
    | append_singleton readings reading ih =>
      simp only [List.forall_mem_append, List.forall_mem_singleton] at unhealthy
      have before := ih unhealthy.1
      rw [after_append]
      generalize machine.after readings = waiting at before ⊢
      unfold step
      grind [isOpen]
  have same := after_forDur machine readings
  rw [after_append]
  unfold step
  grind [isOpen]

theorem isOpen_of_pending_once :
    (DebounceMachine.after ⟨.pending 1, 2, 9⟩ ([(.unknown, 2)] ++ [(.firing, 3)])).isOpen = true :=
  isOpen_of_pending rfl (by decide) (by decide)

end Holding

end DebounceMachine

end Propolis.OpsAlerts
