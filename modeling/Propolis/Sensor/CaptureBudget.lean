import Mathlib.Algebra.BigOperators.Group.List.Basic
import Mathlib.Data.List.Perm.Basic
import Propolis.Sensor.Handoff

/-!
# The memory of capture bodies

`CaptureMemoryBudget`, `Reservation` and `CaptureBody` (`sensor-framework/capture_budget.rs`).
Reservations and calls in progress stand side by side, and a step is the next atomic
operation of one of them; a compare-exchange may fail though nothing has changed.  A
reservation that is being grown is borrowed by its call, so nobody else splits or drops it.

A body asks for its chunks one by one; what the budget answers depends on all its users, so
the answers of a call are given from outside.  The lengths of slices stay far below the
range of `usize`, where the source saturates.
-/

namespace Propolis.Sensor

section Budget

/-- `Inner`, without the waiters for a refund. -/
structure CaptureMemoryBudget where
  ceiling : UInt64
  current : ℕ
  highWater : ℕ
  refused : ℕ

/-- The next atomic operation of a call of `charge`. -/
inductive ChargeStage where
  | load
  | exchange (observed : ℕ)
  | refuse
  | raiseHighWater (next : ℕ)

/-- A live reservation, or a call of `charge` for one that grows or for a new one. -/
inductive CaptureHolder where
  | reservation (bytes : ℕ)
  | charge (grown : Option ℕ) (bytes : ℕ) (stage : ChargeStage)

inductive CaptureAct where
  | tryGrow (extra : ℕ)
  | splitOff (bytes : ℕ)
  | dropped
  | proceed (spurious : Bool)

namespace CaptureMemoryBudget

variable (budget : CaptureMemoryBudget)

/-- The sum that would be stored is checked first. -/
def check (bytes : ℕ) : ChargeStage :=
  if budget.current + bytes < 2 ^ 64 ∧ budget.current + bytes ≤ budget.ceiling.toNat then
    .exchange budget.current
  else .refuse

/-- The budget, and what becomes of the holder. -/
def act : CaptureHolder → CaptureAct → CaptureMemoryBudget × List CaptureHolder
  | .reservation held, .tryGrow extra =>
      (budget, [if held + extra < 2 ^ 64 then .charge (some held) extra .load
        else .reservation held])
  | .reservation held, .splitOff bytes =>
      (budget, if bytes ≤ held then [.reservation (held - bytes), .reservation bytes]
        else [.reservation held])
  | .reservation held, .dropped =>
      -- `fetch_sub` wraps
      ({ budget with current := (budget.current + 2 ^ 64 - held) % 2 ^ 64 }, [])
  | .charge grown bytes .load, .proceed _ => (budget, [.charge grown bytes (budget.check bytes)])
  | .charge grown bytes (.exchange observed), .proceed spurious =>
      if budget.current = observed ∧ spurious = false then
        ({ budget with current := observed + bytes },
          [.charge grown bytes (.raiseHighWater (observed + bytes))])
      else (budget, [.charge grown bytes (budget.check bytes)])
  | .charge grown _ .refuse, .proceed _ =>
      ({ budget with refused := (budget.refused + 1) % 2 ^ 64 }, grown.toList.map .reservation)
  | .charge grown bytes (.raiseHighWater next), .proceed _ =>
      ({ budget with highWater := max budget.highWater next },
        [.reservation (grown.getD 0 + bytes)])
  | holder, _ => (budget, [holder])

end CaptureMemoryBudget

structure CaptureUse where
  budget : CaptureMemoryBudget
  holders : List CaptureHolder

inductive CaptureStep where
  | tryReserve (bytes : ℕ)
  | act (index : ℕ) (act : CaptureAct)

def CaptureUse.new (ceilingBytes : UInt64) : CaptureUse :=
  ⟨⟨ceilingBytes, 0, 0, 0⟩, []⟩

def CaptureUse.step (use : CaptureUse) : CaptureStep → CaptureUse
  | .tryReserve bytes => { use with holders := use.holders ++ [.charge none bytes .load] }
  | .act index act =>
      match use.holders[index]? with
      | none => use
      | some holder =>
          let acted := use.budget.act holder act
          ⟨acted.1, use.holders.eraseIdx index ++ acted.2⟩

end Budget

section Accounting

namespace CaptureHolder

/-- The bytes of a reservation; of a call, those it has borrowed and those it was granted. -/
def holds : CaptureHolder → ℕ
  | .reservation bytes => bytes
  | .charge grown bytes (.raiseHighWater _) => grown.getD 0 + bytes
  | .charge grown _ _ => grown.getD 0

/-- A call only stores a sum that was within the ceiling. -/
def Checked (ceiling : UInt64) : CaptureHolder → Prop
  | .charge _ bytes (.exchange observed) => observed + bytes ≤ ceiling.toNat
  | _ => True

end CaptureHolder

variable {budget : CaptureMemoryBudget} {holder : CaptureHolder} {ceiling : UInt64}

/-- What one step does: the count changes with what is held. -/
structure ActAccounts (budget : CaptureMemoryBudget) (holder : CaptureHolder)
    (acted : CaptureMemoryBudget × List CaptureHolder) : Prop where
  counted : acted.1.current + holder.holds =
    budget.current + (acted.2.map CaptureHolder.holds).sum
  unchanged : acted.1.ceiling = budget.ceiling
  within : acted.1.current ≤ budget.ceiling.toNat
  checked : ∀ next ∈ acted.2, next.Checked budget.ceiling

theorem checked_check (budget : CaptureMemoryBudget) (grown : Option ℕ) (bytes : ℕ) :
    (CaptureHolder.charge grown bytes (budget.check bytes)).Checked budget.ceiling ∧
      (CaptureHolder.charge grown bytes (budget.check bytes)).holds = grown.getD 0 := by
  rw [CaptureMemoryBudget.check]
  split
  case isTrue fits => exact ⟨fits.2, rfl⟩
  case isFalse => exact ⟨trivial, rfl⟩

theorem CaptureMemoryBudget.act_accounts (within : budget.current ≤ budget.ceiling.toNat)
    (held : holder.holds ≤ budget.current) (checked : holder.Checked budget.ceiling)
    (act : CaptureAct) : ActAccounts budget holder (budget.act holder act) := by
  have same : ∀ next : CaptureHolder, next.Checked budget.ceiling → next.holds = holder.holds →
      ActAccounts budget holder (budget, [next]) :=
    fun next checked holds => ⟨by simp [holds], rfl, within, by simpa using checked⟩
  fun_cases CaptureMemoryBudget.act budget holder act with
  | case1 bytes extra => split <;> exact same _ trivial rfl
  | case2 bytes part =>
      split
      · refine ⟨?_, rfl, within, by simp [CaptureHolder.Checked]⟩
        simp only [CaptureHolder.holds, List.map_cons, List.map_nil, List.sum_cons, List.sum_nil]
        omega
      · exact same _ trivial rfl
  | case3 bytes =>
      change bytes ≤ budget.current at held
      have top := budget.ceiling.toNat_lt
      have less : (budget.current + 2 ^ 64 - bytes) % 2 ^ 64 = budget.current - bytes := by
        rw [Nat.sub_add_comm held, Nat.add_mod_right]
        exact Nat.mod_eq_of_lt (by omega)
      rw [less]
      exact ⟨Nat.sub_add_cancel held, rfl, (Nat.sub_le _ _).trans within, by simp⟩
  | case4 grown bytes | case6 grown bytes =>
      exact same _ (checked_check budget grown bytes).1 (checked_check budget grown bytes).2
  | case5 grown bytes observed spurious unchanged =>
      refine ⟨?_, rfl, checked, by simp [CaptureHolder.Checked]⟩
      simp only [CaptureHolder.holds, List.map_cons, List.map_nil, List.sum_singleton]
      omega
  | case7 grown =>
      cases grown with
      | none => exact ⟨rfl, rfl, within, by simp⟩
      | some bytes => exact ⟨rfl, rfl, within, by simp [CaptureHolder.Checked]⟩
  | case8 => exact ⟨rfl, rfl, within, by simp [CaptureHolder.Checked]⟩
  | case9 => exact same _ checked rfl

/-- The count is what is held, and within the ceiling. -/
structure CaptureUse.Accounted (ceiling : UInt64) (use : CaptureUse) : Prop where
  counted : use.budget.current = (use.holders.map CaptureHolder.holds).sum
  unchanged : use.budget.ceiling = ceiling
  within : use.budget.current ≤ ceiling.toNat
  checked : ∀ holder ∈ use.holders, holder.Checked ceiling

theorem CaptureUse.Accounted.step {use : CaptureUse} (accounted : use.Accounted ceiling)
    (step : CaptureStep) : (use.step step).Accounted ceiling := by
  obtain ⟨counted, rfl, within, checked⟩ := accounted
  fun_cases CaptureUse.step use step with
  | case1 bytes =>
      refine ⟨?_, rfl, within, ?_⟩
      · simpa [CaptureHolder.holds] using counted
      · exact List.forall_mem_append.mpr ⟨checked, by simp [CaptureHolder.Checked]⟩
  | case2 => exact ⟨counted, rfl, within, checked⟩
  | case3 index act holder found acted =>
      obtain ⟨less, rfl⟩ := List.getElem?_eq_some_iff.mp found
      have sum := ((List.getElem_cons_eraseIdx_perm less).map CaptureHolder.holds).sum_eq
      rw [List.map_cons, List.sum_cons, ← counted] at sum
      have accounts : ActAccounts use.budget use.holders[index] acted :=
        CaptureMemoryBudget.act_accounts within (sum ▸ Nat.le_add_right _ _)
          (checked _ (List.getElem_mem less)) act
      refine ⟨?_, accounts.unchanged, accounts.within, ?_⟩
      · have changed := accounts.counted
        dsimp only
        rw [List.map_append, List.sum_append]
        omega
      · refine List.forall_mem_append.mpr ⟨?_, accounts.checked⟩
        exact fun other member => checked other (List.mem_of_mem_eraseIdx member)

end Accounting

section Body

variable {pushes : CapturePushes}

def captureChunkBytes : ℕ := 64 * 1024

/-- A body, with the number of chunks it has reserved. -/
structure ChargedBody extends CaptureBody where
  chunks : ℕ

namespace ChargedBody

def empty : ChargedBody := ⟨⟨[], false⟩, 0⟩

def chargedCapacity (body : ChargedBody) : ℕ :=
  body.chunks * captureChunkBytes

/-- The loop of `extend_from_slice`: `granted` says whether the budget has room for the chunk
after so many.  Returns the chunks, and whether one was refused. -/
def reserveChunks (granted : ℕ → Bool) (wanted chunks : ℕ) : ℕ × Bool :=
  if chunks * captureChunkBytes < wanted then
    if granted chunks then reserveChunks granted wanted (chunks + 1) else (chunks, true)
  else (chunks, false)
termination_by wanted - chunks * captureChunkBytes
decreasing_by
  rw [captureChunkBytes] at *
  omega

/-- The body, and whether the call returned `Ok`. -/
def extendFromSlice (body : ChargedBody) (granted : ℕ → Bool) (data : Bytes) :
    ChargedBody × Bool :=
  if body.exhausted then (body, false)
  else
    let (chunks, exhausted) := reserveChunks granted (body.bytes.length + data.length) body.chunks
    let room := chunks * captureChunkBytes - body.bytes.length
    (⟨⟨body.bytes ++ data.take room, exhausted⟩, chunks⟩, !exhausted)

end ChargedBody

/-- A body, everything that was pushed to it, and whether a call was refused. -/
structure CapturePushes where
  body : ChargedBody
  pushed : Bytes
  refused : Bool

def CapturePushes.none_ : CapturePushes := ⟨.empty, [], false⟩

def CapturePushes.push (pushes : CapturePushes) (call : Bytes × (ℕ → Bool)) : CapturePushes :=
  let (body, ok) := pushes.body.extendFromSlice call.2 call.1
  ⟨body, pushes.pushed ++ call.1, pushes.refused || !ok⟩

theorem reserveChunks_spec (granted : ℕ → Bool) (wanted chunks : ℕ) :
    chunks ≤ (ChargedBody.reserveChunks granted wanted chunks).1 ∧
      ((ChargedBody.reserveChunks granted wanted chunks).2 = false →
        wanted ≤ (ChargedBody.reserveChunks granted wanted chunks).1 * captureChunkBytes) := by
  fun_induction ChargedBody.reserveChunks granted wanted chunks with
  | case1 chunks less room ih => exact ⟨(Nat.le_succ _).trans ih.1, ih.2⟩
  | case2 => exact ⟨le_rfl, by simp⟩
  | case3 chunks enough => exact ⟨le_rfl, fun _ => Nat.le_of_not_lt enough⟩

/-- The body is what was pushed until a call was refused. -/
structure CapturePushes.Contiguous (pushes : CapturePushes) : Prop where
  begins : pushes.body.bytes <+: pushes.pushed
  within : pushes.body.bytes.length ≤ pushes.body.chargedCapacity
  whole : pushes.refused = false → pushes.body.bytes = pushes.pushed
  latched : pushes.refused = pushes.body.exhausted

theorem CapturePushes.push_of_refused
    (latched : pushes.refused = pushes.body.exhausted) (refused : pushes.refused = true)
    (call : Bytes × (ℕ → Bool)) :
    pushes.push call = { pushes with pushed := pushes.pushed ++ call.1 } := by
  rw [CapturePushes.push, ChargedBody.extendFromSlice, ← latched, refused]
  rfl

theorem CapturePushes.Contiguous.push (contiguous : pushes.Contiguous)
    (call : Bytes × (ℕ → Bool)) : (pushes.push call).Contiguous := by
  obtain ⟨data, granted⟩ := call
  cases refused : pushes.refused with
  | true =>
      rw [CapturePushes.push_of_refused contiguous.latched refused]
      refine { contiguous with begins := ?_, whole := ?_ }
      · exact contiguous.begins.trans (List.prefix_append _ _)
      · intro accepted
        cases refused.symm.trans accepted
  | false =>
      obtain ⟨more, enough⟩ := reserveChunks_spec granted
        (pushes.body.bytes.length + data.length) pushes.body.chunks
      have within := contiguous.within
      have open_ : ¬ pushes.body.exhausted = true := by
        rw [← contiguous.latched, refused]
        exact Bool.false_ne_true
      rw [CapturePushes.push, ChargedBody.extendFromSlice, if_neg open_, refused]
      have capacity := Nat.mul_le_mul_right captureChunkBytes more
      rw [ChargedBody.chargedCapacity] at within
      refine ⟨?_, ?_, ?_, ?_⟩
      · rw [contiguous.whole refused]
        exact (List.prefix_append_right_inj _).mpr (List.take_prefix _ _)
      · simp only [ChargedBody.chargedCapacity, List.length_append, List.length_take]
        omega
      · simp only [Bool.not_not]
        intro accepted
        have all := enough accepted
        rw [List.take_of_length_le (by omega), contiguous.whole refused]
      · simp

theorem CapturePushes.Contiguous.body_of_refused
    (contiguous : pushes.Contiguous) (refused : pushes.refused = true)
    (later : List (Bytes × (ℕ → Bool))) :
    (later.foldl CapturePushes.push pushes).body = pushes.body := by
  induction later generalizing pushes with
  | nil => rfl
  | cons call later ih =>
      have same := CapturePushes.push_of_refused contiguous.latched refused call
      have next := ih (contiguous.push call) (by rw [same, refused])
      rw [List.foldl_cons, next, same]

end Body

/-- In every interleaving the count is what the reservations hold, with what a call in progress has
borrowed or was granted, and within the ceiling.  A body is a beginning of what was pushed, within
the chunks it has reserved, all of it until a call is refused, and the same ever after. -/
theorem capture_memory_exact (ceilingBytes : UInt64) (steps : List CaptureStep)
    (calls : List (Bytes × (ℕ → Bool))) :
    let use := steps.foldl CaptureUse.step (.new ceilingBytes)
    let pushes := calls.foldl CapturePushes.push .none_
    use.budget.current = (use.holders.map CaptureHolder.holds).sum ∧
    use.budget.current ≤ ceilingBytes.toNat ∧
    pushes.body.bytes <+: pushes.pushed ∧
    pushes.body.bytes.length ≤ pushes.body.chargedCapacity ∧
    (pushes.refused = false → pushes.body.bytes = pushes.pushed) ∧
    (pushes.refused = true → ∀ later : List (Bytes × (ℕ → Bool)),
      (later.foldl CapturePushes.push pushes).body.bytes = pushes.body.bytes) := by
  intro use pushes
  have accounted : use.Accounted ceilingBytes :=
    List.foldlRecOn steps CaptureUse.step ⟨rfl, rfl, Nat.zero_le _, by simp [CaptureUse.new]⟩
      fun _ before step _ => before.step step
  have contiguous : pushes.Contiguous :=
    List.foldlRecOn calls CapturePushes.push ⟨List.prefix_rfl, le_rfl, fun _ => rfl, rfl⟩
      fun _ before call _ => before.push call
  refine ⟨accounted.counted, accounted.within, contiguous.begins, contiguous.within,
    contiguous.whole, ?_⟩
  intro refused later
  rw [contiguous.body_of_refused refused later]

end Propolis.Sensor
