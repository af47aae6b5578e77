import Propolis.Lib.Run

/-!
# Processes that interact with a world

A process performs operations one after the other; each gets an answer from the
world, which it may change, or ends the process.  What the world does with an
operation depends on an input from outside.  A machine runs one process at a time
over a lasting state, one operation a step, and may start it again once it has
ended.

`Ensures` is what a process guarantees from a state, under inputs that are allowed
where they are given: a property of every state it reaches, an invariant where it is
ended, and a postcondition where it is done.  A process that keeps the invariant can
be run again and again, and the property holds all the way.
-/

namespace Interaction

/-- A process is done, or performs an operation and goes on with the answer. -/
inductive Process (Op : Type) (Answer : Op → Type) (Value : Type) where
  | done (value : Value)
  | perform (op : Op) (next : Answer op → Process Op Answer Value)

variable {Op : Type} {Answer : Op → Type} {Input State Value Other : Type}

namespace Process

def andThen : Process Op Answer Value → (Value → Process Op Answer Other) →
    Process Op Answer Other
  | done value, rest => rest value
  | perform op next, rest => perform op fun answer => (next answer).andThen rest

instance : Monad (Process Op Answer) where
  pure := done
  bind := andThen

def call (op : Op) : Process Op Answer (Answer op) :=
  perform op done

section Guarantees

variable (respond : (op : Op) → Input → State → Option (Answer op) × State)
  (allowed : Op → Input → State → Bool) (safe invariant : State → Prop) {state : State}
  {process : Process Op Answer Value}

/-- The answer, if there is one, leads on; without an answer the process ends there. -/
def Ensures : Process Op Answer Value → State → (Value → State → Prop) → Prop
  | done value, state, returned => returned value state
  | perform op next, state, returned =>
      safe state ∧ ∀ input, allowed op input state = true →
        match respond op input state with
        | (some answer, after) => (next answer).Ensures after returned
        | (none, after) => invariant after

variable {respond allowed safe invariant} {rest : Value → Process Op Answer Other}
  {returned : Value → State → Prop}

theorem ensures_pure {value : Value} (here : returned value state) :
    (pure value : Process Op Answer Value).Ensures respond allowed safe invariant state returned :=
  here

theorem ensures_perform {op : Op} {next : Answer op → Process Op Answer Value} (here : safe state)
    (answered : ∀ input, allowed op input state = true →
      ∀ answer after, respond op input state = (some answer, after) →
        (next answer).Ensures respond allowed safe invariant after returned)
    (ended : ∀ input, allowed op input state = true →
      ∀ after, respond op input state = (none, after) → invariant after) :
    (perform op next).Ensures respond allowed safe invariant state returned := by
  refine ⟨here, ?_⟩
  intro input admitted
  rcases responded : respond op input state with ⟨_ | answer, after⟩
  · exact ended input admitted after responded
  · exact answered input admitted answer after responded

theorem ensures_call {op : Op} {returned : Answer op → State → Prop} (here : safe state)
    (answered : ∀ input, allowed op input state = true →
      ∀ answer after, respond op input state = (some answer, after) → returned answer after)
    (ended : ∀ input, allowed op input state = true →
      ∀ after, respond op input state = (none, after) → invariant after) :
    (call op : Process Op Answer (Answer op)).Ensures respond allowed safe invariant state
      returned :=
  ensures_perform here answered ended

/-- The rule of sequence: the rest goes on from wherever the process is done. -/
theorem Ensures.bind {between : Value → State → Prop} {returned : Other → State → Prop}
    (ensures : process.Ensures respond allowed safe invariant state between)
    (goesOn : ∀ value after, between value after →
      (rest value).Ensures respond allowed safe invariant after returned) :
    (process >>= rest).Ensures respond allowed safe invariant state returned := by
  induction process generalizing state with
  | done value => exact goesOn value state ensures
  | perform op next ih =>
      obtain ⟨here, ensures⟩ := ensures
      apply ensures_perform here
      · intro input admitted answer after responded
        have later := ensures input admitted
        rw [responded] at later
        exact ih answer later
      · intro input admitted after responded
        have later := ensures input admitted
        rw [responded] at later
        exact later

theorem ensures_bind {returned : Other → State → Prop}
    (ensures : process.Ensures respond allowed safe invariant state
      fun value after => (rest value).Ensures respond allowed safe invariant after returned) :
    (process >>= rest).Ensures respond allowed safe invariant state returned :=
  ensures.bind fun _ _ later => later

end Guarantees

end Process

open Process

/-! ### A process that is run again and again -/

/-- The state that lasts, and what is left of the process while it runs. -/
structure Machine (Op : Type) (Answer : Op → Type) (State Value : Type) where
  state : State
  current : Option (Process Op Answer Value)

inductive Move (Input : Type) where
  | start
  | proceed (input : Input)

namespace Machine

variable (respond : (op : Op) → Input → State → Option (Answer op) × State)
  (program : Process Op Answer Value) {machine : Machine Op Answer State Value}

def step (machine : Machine Op Answer State Value) : Move Input → Machine Op Answer State Value
  | .start =>
      match machine.current with
      | none | some (.done _) => { machine with current := some program }
      | some (.perform _ _) => machine
  | .proceed input =>
      match machine.current with
      | none | some (.done _) => machine
      | some (.perform op next) =>
          match respond op input machine.state with
          | (some answer, after) => ⟨after, some (next answer)⟩
          | (none, after) => ⟨after, none⟩

/-- The operation about to be performed allows the input given to it. -/
def admits (allowed : Op → Input → State → Bool) (machine : Machine Op Answer State Value) :
    Move Input → Bool
  | .start => true
  | .proceed input =>
      match machine.current with
      | some (.perform op _) => allowed op input machine.state
      | _ => true

variable {respond program} {allowed : Op → Input → State → Bool}
  {safe invariant : State → Prop}

/-- What is left of the process still leads to the invariant. -/
def Sound (respond : (op : Op) → Input → State → Option (Answer op) × State)
    (allowed : Op → Input → State → Bool) (safe invariant : State → Prop)
    (machine : Machine Op Answer State Value) : Prop :=
  match machine.current with
  | none => invariant machine.state
  | some process =>
      process.Ensures respond allowed safe invariant machine.state fun _ => invariant

theorem Sound.holds (implies : ∀ state, invariant state → safe state)
    (sound : machine.Sound respond allowed safe invariant) : safe machine.state := by
  obtain ⟨state, _ | _ | ⟨op, next⟩⟩ := machine
  · exact implies state sound
  · exact implies state sound
  · exact sound.1

theorem Sound.step (keeps : ∀ state, invariant state →
      program.Ensures respond allowed safe invariant state fun _ => invariant)
    {move : Move Input}
    (admitted : machine.admits allowed move = true)
    (sound : machine.Sound respond allowed safe invariant) :
    (machine.step respond program move).Sound respond allowed safe invariant := by
  cases move with
  | start =>
      obtain ⟨state, _ | _ | ⟨op, next⟩⟩ := machine
      · exact keeps state sound
      · exact keeps state sound
      · exact sound
  | proceed input =>
      obtain ⟨state, _ | _ | ⟨op, next⟩⟩ := machine
      · exact sound
      · exact sound
      · have later := sound.2 input admitted
        rw [Machine.step]
        dsimp only
        generalize respond op input state = response at later
        rcases response with ⟨_ | answer, after⟩ <;> exact later

/-- A process that keeps the invariant is safe however often it is run. -/
theorem safe_of_run (implies : ∀ state, invariant state → safe state)
    (keeps : ∀ state, invariant state →
      program.Ensures respond allowed safe invariant state fun _ => invariant)
    {start : State} (initially : invariant start) {moves : List (Move Input)}
    (met : Run.meets (Machine.step respond program) (Machine.admits allowed) ⟨start, none⟩
      moves = true) :
    safe (moves.foldl (Machine.step respond program) ⟨start, none⟩).state := by
  have sound : (moves.foldl (Machine.step respond program) ⟨start, none⟩).Sound respond allowed
      safe invariant := by
    refine Run.invariant_of_meets _ ?_ ?_ met
    · intro machine move admitted sound
      exact sound.step keeps admitted
    · exact initially
  exact sound.holds implies

end Machine

end Interaction
