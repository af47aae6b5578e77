import Mathlib.Data.List.Basic

/-!
# Programs that may fail or die at any operation

A program runs over a state.  Every operation it makes succeeds, fails, or is the
last thing its process does; what happens to which operation is a list of fates
given from outside.  An operation that fails or dies may have been cut off half
way: the fate carries how far it got.

`Ensures` is what a program guarantees from a state whatever happens to its
operations: of what it returns, of what it leaves when it raises an error, and of
what it leaves when it dies.  There is one rule for each way to make a program, and
they are applied from the last operation back to the first.
-/

namespace Crashing

variable {State Cut Error Value Other Item : Type}

/-- What happens to an operation. -/
inductive Fate (Cut : Type) where
  | succeeds | fails (cut : Cut) | dies (cut : Cut)

inductive Ending (Error Value : Type) where
  | returns (value : Value) | raises (error : Error) | dies
  deriving DecidableEq

def Program (State Cut Error Value : Type) : Type :=
  State → List (Fate Cut) → Ending Error Value × State × List (Fate Cut)

namespace Program

def give (value : Value) : Program State Cut Error Value :=
  fun state fates => (.returns value, state, fates)

def andThen (first : Program State Cut Error Value)
    (next : Value → Program State Cut Error Other) : Program State Cut Error Other :=
  fun state fates =>
    match first state fates with
    | (.returns value, after, rest) => next value after rest
    | (.raises error, after, rest) => (.raises error, after, rest)
    | (.dies, after, rest) => (.dies, after, rest)

instance : Monad (Program State Cut Error) where
  pure := give
  bind := andThen

def raise (error : Error) : Program State Cut Error Value :=
  fun state fates => (.raises error, state, fates)

/-- The state as it stands. -/
def look : Program State Cut Error State :=
  fun state fates => (.returns state, state, fates)

/-- An error becomes a value. -/
def attempt (program : Program State Cut Error Value) :
    Program State Cut Other (Except Error Value) :=
  fun state fates =>
    match program state fates with
    | (.returns value, after, rest) => (.returns (.ok value), after, rest)
    | (.raises error, after, rest) => (.returns (.error error), after, rest)
    | (.dies, after, rest) => (.dies, after, rest)

/-- Another error in place of the one raised. -/
def mapError (change : Error → Other) (program : Program State Cut Error Value) :
    Program State Cut Other Value :=
  fun state fates =>
    match program state fates with
    | (.returns value, after, rest) => (.returns value, after, rest)
    | (.raises error, after, rest) => (.raises (change error), after, rest)
    | (.dies, after, rest) => (.dies, after, rest)

/-- One operation: `effect` is what it does where it can be done, `cutOff` what it leaves when it
does not get through. -/
def operation (error : Error) (effect : State → Option State) (cutOff : Cut → State → State) :
    Program State Cut Error Unit :=
  fun state fates =>
    match fates with
    | .fails cut :: rest => (.raises error, cutOff cut state, rest)
    | .dies cut :: rest => (.dies, cutOff cut state, rest)
    | fates =>
        match effect state with
        | some after => (.returns (), after, fates.tail)
        | none => (.raises error, state, fates.tail)

/-- A program that is run on a condition only. -/
def provided (condition : Bool) (program : Program State Cut Error Unit) :
    Program State Cut Error Unit :=
  if condition then program else give ()

/-- The same for every item, in order. -/
def each (items : List Item) (run : Item → Program State Cut Error Unit) :
    Program State Cut Error Unit :=
  match items with
  | [] => give ()
  | item :: rest => andThen (run item) fun _ => each rest run

/-- A run ended as it should. -/
def EndsIn (returned : Value → State → Prop) (raised : Error → State → Prop)
    (dead : State → Prop) : Ending Error Value × State × List (Fate Cut) → Prop
  | (.returns value, after, _) => returned value after
  | (.raises error, after, _) => raised error after
  | (.dies, after, _) => dead after

/-- What holds however the operations of a program fare. -/
def Ensures (program : Program State Cut Error Value) (state : State)
    (returned : Value → State → Prop) (raised : Error → State → Prop) (dead : State → Prop) :
    Prop :=
  ∀ fates, EndsIn returned raised dead (program state fates)

variable {program : Program State Cut Error Value} {state : State} {returned : Value → State → Prop}
  {raised : Error → State → Prop} {dead : State → Prop}
  {next : Value → Program State Cut Error Other} {finished : Other → State → Prop} {error : Error}

theorem ensures_pure {value : Value} (here : returned value state) :
    (pure value : Program State Cut Error Value).Ensures state returned raised dead :=
  fun _ => here

theorem ensures_raise (here : raised error state) :
    (raise error : Program State Cut Error Value).Ensures state returned raised dead :=
  fun _ => here

theorem ensures_look {seen : State → State → Prop} (here : seen state state) :
    (look : Program State Cut Error State).Ensures state seen raised dead :=
  fun _ => here

/-- The rule of sequence: what comes next goes on from wherever the program returns. -/
theorem Ensures.bind (ensures : program.Ensures state returned raised dead)
    (goesOn : ∀ value after, returned value after →
      (next value).Ensures after finished raised dead) :
    (program >>= next).Ensures state finished raised dead := by
  intro fates
  have ending := ensures fates
  change EndsIn finished raised dead (andThen program next state fates)
  rw [andThen]
  generalize program state fates = result at ending
  rcases result with ⟨value | error | _, after, rest⟩
  · exact goesOn value after ending rest
  · exact ending
  · exact ending

theorem ensures_bind (first : program.Ensures state
      (fun value after => (next value).Ensures after finished raised dead) raised dead) :
    (program >>= next).Ensures state finished raised dead :=
  first.bind fun _ _ later => later

section

variable (ensures : program.Ensures state returned raised dead)
include ensures

theorem Ensures.mono
    {returned' : Value → State → Prop} {raised' : Error → State → Prop} {dead' : State → Prop}
    (whenReturned : ∀ value after, returned value after → returned' value after)
    (whenRaised : ∀ error after, raised error after → raised' error after)
    (whenDead : ∀ after, dead after → dead' after) :
    program.Ensures state returned' raised' dead' := by
  intro fates
  have ending := ensures fates
  generalize program state fates = result at ending
  rcases result with ⟨value | error | _, after, rest⟩
  · exact whenReturned value after ending
  · exact whenRaised error after ending
  · exact whenDead after ending

/-! ### What is known of one run -/

theorem Ensures.of_returns
    {fates : List (Fate Cut)} {value : Value} (ending : (program state fates).1 = .returns value) :
    returned value (program state fates).2.1 := by
  have ended := ensures fates
  generalize program state fates = result at ended ending
  obtain ⟨_, after, rest⟩ := result
  cases ending
  exact ended

theorem Ensures.of_raises
    {fates : List (Fate Cut)} (ending : (program state fates).1 = .raises error) :
    raised error (program state fates).2.1 := by
  have ended := ensures fates
  generalize program state fates = result at ended ending
  obtain ⟨_, after, rest⟩ := result
  cases ending
  exact ended

end

/-- What holds however the program ends. -/
theorem Ensures.always {holds : State → Prop}
    (ensures : program.Ensures state (fun _ => holds) (fun _ => holds) holds)
    (fates : List (Fate Cut)) : holds (program state fates).2.1 := by
  have ended := ensures fates
  generalize program state fates = result at ended
  rcases result with ⟨value | error | _, after, rest⟩ <;> exact ended

/-! ### The rules -/

variable {otherwise : Other → State → Prop}

theorem ensures_attempt {outcome : Except Error Value → State → Prop}
    (ensures : program.Ensures state (fun value => outcome (.ok value))
      (fun error => outcome (.error error)) dead) :
    (program.attempt : Program State Cut Other (Except Error Value)).Ensures state outcome
      otherwise dead := by
  intro fates
  have ending := ensures fates
  rw [attempt]
  generalize program state fates = result at ending
  rcases result with ⟨value | error | _, after, rest⟩ <;> exact ending

theorem ensures_mapError {change : Error → Other}
    (ensures : program.Ensures state returned (fun error => otherwise (change error)) dead) :
    (program.mapError change).Ensures state returned otherwise dead := by
  intro fates
  have ending := ensures fates
  rw [mapError]
  generalize program state fates = result at ending
  rcases result with ⟨value | error | _, after, rest⟩ <;> exact ending

theorem ensures_operation {effect : State → Option State}
    {cutOff : Cut → State → State} {finished : Unit → State → Prop}
    (done : ∀ after, effect state = some after → finished () after)
    (undoable : effect state = none → raised error state)
    (failed : ∀ cut, raised error (cutOff cut state))
    (died : ∀ cut, dead (cutOff cut state)) :
    (operation error effect cutOff).Ensures state finished raised dead := by
  have through : ∀ rest : List (Fate Cut), EndsIn finished raised dead
      (match effect state with
        | some after => (.returns (), after, rest)
        | none => (.raises error, state, rest)) := by
    intro rest
    cases here : effect state with
    | none => exact undoable here
    | some after => exact done after here
  intro fates
  cases fates with
  | nil => exact through []
  | cons fate rest =>
      cases fate with
      | succeeds => exact through rest
      | fails cut => exact failed cut
      | dies cut => exact died cut

theorem ensures_provided {condition : Bool} {program : Program State Cut Error Unit}
    {finished : Unit → State → Prop}
    (met : condition = true → program.Ensures state finished raised dead)
    (unmet : condition = false → finished () state) :
    (provided condition program).Ensures state finished raised dead := by
  cases condition with
  | true => exact met rfl
  | false => exact fun _ => unmet rfl

/-- The loop rule: `invariant` holds of the items still to come. -/
theorem ensures_each {items : List Item} {run : Item → Program State Cut Error Unit}
    (invariant : List Item → State → Prop) (start : invariant items state)
    (step : ∀ item rest before, invariant (item :: rest) before →
      (run item).Ensures before (fun _ => invariant rest) raised dead) :
    (each items run).Ensures state (fun _ => invariant []) raised dead := by
  induction items generalizing state with
  | nil => exact fun _ => start
  | cons item rest ih =>
      apply (step item rest state start).bind
      intro _ after held
      exact ih held

end Program

end Crashing
