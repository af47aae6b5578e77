import Propolis.Lib.Process
import Mathlib.Algebra.BigOperators.Group.Finset.Basic
import Mathlib.Data.Fintype.Basic
import Mathlib.Tactic.Abel

/-!
# Threads over a shared state

Any number of threads, each running a process whose operations are atomic on a state they share.
A schedule says which thread goes on; each has data of its own beside its process.  What the
threads still owe to the shared state is summed over them: a step changes the summand of one.

A thread's obligation is stated on the process it runs, with a ghost that says where it stands:
`Pays` holds of a process that performs only operations its ghost permits, whatever it is answered,
and ends as it should.  It is proved once for each process, by the rules below.
-/

namespace Threads

open Interaction

variable {Op : Type} {Answer : Op → Type} {Shared Local : Type} {count : ℕ}

/-- A thread's own data, and what is left of the process it runs. -/
structure Thread (Op : Type) (Answer : Op → Type) (Local : Type) where
  data : Local
  rest : Process Op Answer Unit

/-- In the middle of something. -/
def Thread.busy (thread : Thread Op Answer Local) : Bool :=
  match thread.rest with
  | .done _ => false
  | .perform _ _ => true

structure Pool (Op : Type) (Answer : Op → Type) (Shared Local : Type) (count : ℕ) where
  shared : Shared
  threads : Fin count → Thread Op Answer Local

variable {thread : Fin count} {op : Op} {Value Other : Type} {own own' : Local} {shared : Shared}
  {rest : Value → Process Op Answer Other} {later : Answer op → Process Op Answer Other}

namespace Pool

/-- One operation of a thread. -/
def advance (respond : (op : Op) → Local → Shared → Answer op × Local × Shared)
    (pool : Pool Op Answer Shared Local count) (thread : Fin count) :
    Pool Op Answer Shared Local count :=
  match (pool.threads thread).rest with
  | .done _ => pool
  | .perform op next =>
      let answered := respond op (pool.threads thread).data pool.shared
      ⟨answered.2.2, Function.update pool.threads thread ⟨answered.2.1, next answered.1⟩⟩

/-- No thread is in the middle of anything. -/
def Idle (pool : Pool Op Answer Shared Local count) : Prop :=
  ∀ thread, (pool.threads thread).busy = false

theorem advance_eq {respond : (op : Op) → Local → Shared → Answer op × Local × Shared}
    {pool : Pool Op Answer Shared Local count} {next : Answer op → Process Op Answer Unit}
    (rest : (pool.threads thread).rest = .perform op next) :
    pool.advance respond thread = ⟨(respond op (pool.threads thread).data pool.shared).2.2,
      Function.update pool.threads thread ⟨(respond op (pool.threads thread).data pool.shared).2.1,
        next (respond op (pool.threads thread).data pool.shared).1⟩⟩ := by
  rw [advance, rest]

end Pool

/-- One thread changes, and what is known of it changes with it. -/
theorem forall_update {Known : Type} {holds : Value → Known → Prop}
    {values : Fin count → Value} {knowns : Fin count → Known} {value : Value} {known : Known}
    (each : ∀ other, holds (values other) (knowns other)) (here : holds value known)
    (other : Fin count) :
    holds (Function.update values thread value other)
      (Function.update knowns thread known other) := by
  by_cases same : other = thread
  · subst same
    rw [Function.update_self, Function.update_self]
    exact here
  · rw [Function.update_of_ne same, Function.update_of_ne same]
    exact each other

theorem Thread.rest_of_not_busy {thread : Thread Op Answer Local} (idle : thread.busy = false) :
    thread.rest = .done () := by
  rw [Thread.busy] at idle
  split at idle
  case h_1 done => exact done
  case h_2 => cases idle

/-- A sum over the threads when one of them changes. -/
theorem sum_update {Sum : Type} [AddCommGroup Sum] (weight : Value → Sum)
    (values : Fin count → Value) (thread : Fin count) (value : Value) :
    ∑ other, weight (Function.update values thread value other) =
      ∑ other, weight (values other) - weight (values thread) + weight value := by
  have split : ∀ values : Fin count → Value, ∑ other, weight (values other) =
      weight (values thread) + ∑ other ∈ Finset.univ.erase thread, weight (values other) :=
    fun values => (Finset.add_sum_erase _ _ (Finset.mem_univ thread)).symm
  rw [split, split values, Function.update_self]
  have others : ∑ other ∈ Finset.univ.erase thread,
      weight (Function.update values thread value other) =
        ∑ other ∈ Finset.univ.erase thread, weight (values other) := by
    apply Finset.sum_congr rfl
    intro other member
    rw [Function.update_of_ne (Finset.ne_of_mem_erase member)]
  rw [others]
  abel

section Alone

variable (respond : (op : Op) → Local → Shared → Answer op × Local × Shared)
  (allowed : Op → Shared → Bool) {process : Process Op Answer Value} {shared' : Shared}
  {ends : Other → Local → Shared → Prop}

/-- What holds when a process has run to its end with no other thread in between. -/
def Alone : Process Op Answer Value → Local → Shared → (Value → Local → Shared → Prop) → Prop
  | .done value, own, shared, ends => ends value own shared
  | .perform op next, own, shared, ends => allowed op shared = true ∧
      Alone (next (respond op own shared).1) (respond op own shared).2.1
        (respond op own shared).2.2 ends

variable {respond allowed}

theorem Alone.bind (runs : Alone respond allowed process own shared fun value own shared =>
      Alone respond allowed (rest value) own shared ends) :
    Alone respond allowed (process >>= rest) own shared ends := by
  induction process generalizing own shared with
  | done value => exact runs
  | perform op next ih => exact ⟨runs.1, ih _ runs.2⟩

theorem Alone.call (permitted : allowed op shared = true)
    (runs : Alone respond allowed (later (respond op own shared).1)
      (respond op own shared).2.1 (respond op own shared).2.2 ends) :
    Alone respond allowed (Process.call op >>= later) own shared ends :=
  ⟨permitted, runs⟩

variable (respond allowed) in
/-- What is left of a process after some operations with no other thread in between. -/
inductive Gets : Process Op Answer Value → Local → Shared → Process Op Answer Value → Local →
    Shared → Prop
  | here (process : Process Op Answer Value) (own : Local) (shared : Shared) :
      Gets process own shared process own shared
  | step {op : Op} {next : Answer op → Process Op Answer Value} {own own' : Local}
      {shared shared' : Shared} {process : Process Op Answer Value}
      (permitted : allowed op shared = true)
      (later : Gets (next (respond op own shared).1) (respond op own shared).2.1
        (respond op own shared).2.2 process own' shared') :
      Gets (.perform op next) own shared process own' shared'

/-- A process that has run to its end leaves what comes after it. -/
theorem Alone.gets {target : Process Op Answer Other}
    (runs : Alone respond allowed process own shared
      fun value own shared => Gets respond allowed (rest value) own shared target own' shared') :
    Gets respond allowed (process >>= rest) own shared target own' shared' := by
  induction process generalizing own shared with
  | done value => exact runs
  | perform op next ih => exact .step runs.1 (ih _ runs.2)

theorem Alone.ended {ends : Value → Local → Shared → Prop}
    (runs : Alone respond allowed process own shared ends) :
    ∃ value own' shared', ends value own' shared' ∧
      Gets respond allowed process own shared (.done value) own' shared' := by
  induction process generalizing own shared with
  | done value => exact ⟨value, own, shared, runs, .here _ _ _⟩
  | perform op next ih =>
      obtain ⟨value, own', shared', ended, later⟩ := ih _ runs.2
      exact ⟨value, own', shared', ended, .step runs.1 later⟩

end Alone

section Obligations

variable {Ghost : Type} (permits : Op → Ghost → Prop)
  (turns : (op : Op) → Ghost → Answer op → Ghost → Prop) {process : Process Op Answer Value}
  {ghost : Ghost} {ends : Other → Ghost → Prop}

/-- Each operation is permitted, and what it turns the ghost into is dealt with. -/
def Pays : Process Op Answer Value → Ghost → (Value → Ghost → Prop) → Prop
  | .done value, ghost, ends => ends value ghost
  | .perform op next, ghost, ends => permits op ghost ∧
      ∀ answer after, turns op ghost answer after → Pays (next answer) after ends

variable {permits turns}

theorem Pays.mono
    {ends weaker : Value → Ghost → Prop} (pays : Pays permits turns process ghost ends)
    (follows : ∀ value after, ends value after → weaker value after) :
    Pays permits turns process ghost weaker := by
  induction process generalizing ghost with
  | done value => exact follows value ghost pays
  | perform op next ih =>
      refine ⟨pays.1, ?_⟩
      intro answer after turned
      exact ih answer (pays.2 answer after turned)

theorem Pays.bind (pays : Pays permits turns process ghost fun value after =>
      Pays permits turns (rest value) after ends) :
    Pays permits turns (process >>= rest) ghost ends := by
  induction process generalizing ghost with
  | done value => exact pays
  | perform op next ih =>
      refine ⟨pays.1, ?_⟩
      intro answer after turned
      exact ih answer (pays.2 answer after turned)

theorem Pays.call {ends : Answer op → Ghost → Prop} (permitted : permits op ghost)
    (turned : ∀ answer after, turns op ghost answer after → ends answer after) :
    Pays permits turns (Process.call op) ghost ends :=
  ⟨permitted, turned⟩

/-- An operation, and what follows it. -/
theorem Pays.perform (permitted : permits op ghost)
    (turned : ∀ answer after, turns op ghost answer after →
      Pays permits turns (later answer) after ends) :
    Pays permits turns (Process.call op >>= later) ghost ends :=
  .bind (.call permitted turned)

theorem Pays.pure {value : Value} {ends : Value → Ghost → Prop} (here : ends value ghost) :
    Pays permits turns (Pure.pure value : Process Op Answer Value) ghost ends :=
  here

/-- A process all of whose operations are allowed, whatever it is answered. -/
def Only (allowed : Op → Prop) (process : Process Op Answer Value) (returns : Value → Prop) :
    Prop :=
  Pays (fun op (_ : Unit) => allowed op) (fun _ _ _ _ => True) process () fun value _ =>
    returns value

/-- Operations that are always permitted and leave the ghost alone discharge no obligation. -/
theorem Only.pays {allowed : Op → Prop} {returns : Value → Prop} {ends : Value → Ghost → Prop}
    (only : Only allowed process returns)
    (quiet : ∀ op, allowed op →
      permits op ghost ∧ ∀ answer after, turns op ghost answer after → after = ghost)
    (follows : ∀ value, returns value → ends value ghost) :
    Pays permits turns process ghost ends := by
  induction process with
  | done value => exact follows value only
  | perform op next ih =>
      obtain ⟨permitted, kept⟩ := quiet op only.1
      refine ⟨permitted, ?_⟩
      intro answer after turned
      rw [kept answer after turned]
      exact ih answer (only.2 answer () trivial)

end Obligations

end Threads
