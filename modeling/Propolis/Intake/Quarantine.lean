import Propolis.Lib.Keyed
import Propolis.Lib.Lines
import Propolis.Lib.Run

/-!
# The quarantine store

`Quarantine::append` (`intake/quarantine.rs`) on the record files of its directory.  An
attempt that fails, or is cut by a crash, leaves any beginning of the bytes it writes at the
end of its file; the next one closes such a line first, with a byte that the caps were not
checked for.  The JSON text of a record, which has no newline, is a parameter.
-/

namespace Propolis.Quarantine

open Bytes Run

/-- The record files, under their names without the extension. -/
abbrev Store := List (String × Bytes)

structure Caps where
  maxBytes : ℕ
  maxRecords : ℕ

/-- A call of `append`, with the number of bytes it writes if it fails or is cut. -/
structure Attempt where
  sensor : String
  text : {text : Bytes // newline ∉ text}
  cut : Option ℕ

def fileFor (sensor : String) : String :=
  let name := sensor.map fun c => if c.isAlphanum || c = '_' || c = '-' then c else '_'
  if name.isEmpty then "_" else name

def Attempt.record (attempt : Attempt) : Bytes :=
  attempt.text.val ++ [newline]

def Store.content (store : Store) (sensor : String) : Bytes :=
  (store.lookup (fileFor sensor)).getD []

def Store.bytes (store : Store) : ℕ :=
  (store.map fun file => file.2.length).sum

def Store.newlines (store : Store) : ℕ :=
  (store.map fun file => file.2.count newline).sum

def Caps.checkCaps (caps : Caps) (store : Store) (incoming : ℕ) : Bool :=
  store.bytes + incoming ≤ caps.maxBytes && store.newlines < caps.maxRecords

/-- What `append` writes behind the content of a file. -/
def Attempt.buf (attempt : Attempt) (file : Bytes) : Bytes :=
  (if EndsClean file then [] else [newline]) ++ attempt.record

/-- `append`, and whether it returns `Ok`. -/
def append (caps : Caps) (store : Store) (attempt : Attempt) : Store × Bool :=
  if caps.checkCaps store attempt.record.length then
    let file := store.content attempt.sensor
    let buf := attempt.buf file
    (Keyed.insert (fileFor attempt.sensor) (file ++ buf.take (attempt.cut.getD buf.length)) store,
      attempt.cut.isNone)
  else (store, false)

def run (caps : Caps) : Store → List Attempt → Store :=
  List.foldl fun store attempt => (append caps store attempt).1

variable {caps : Caps} {store : Store} {attempt : Attempt}

/-- An attempt adds to one file a beginning of what it writes, or nothing to any. -/
theorem append_content (caps : Caps) (store : Store) (attempt : Attempt) (sensor : String) :
    ∃ more, (append caps store attempt).1.content sensor = store.content sensor ++ more := by
  rw [append]
  split
  case isTrue =>
    by_cases same : fileFor sensor = fileFor attempt.sensor
    · simp [Store.content, Keyed.lookup_insert, same]
    · simp [Store.content, Keyed.lookup_insert, same]
  case isFalse => exact ⟨[], (List.append_nil _).symm⟩

theorem run_content (caps : Caps) (store : Store) (attempts : List Attempt) (sensor : String) :
    ∃ more, (run caps store attempts).content sensor = store.content sensor ++ more := by
  induction attempts generalizing store with
  | nil => exact ⟨[], (List.append_nil _).symm⟩
  | cons attempt later ih =>
      obtain ⟨first, one⟩ := append_content caps store attempt sensor
      obtain ⟨second, others⟩ := ih (append caps store attempt).1
      exact ⟨first ++ second, by rw [← List.append_assoc, ← one]; exact others⟩

theorem append_stored (stored : (append caps store attempt).2 = true) :
    (append caps store attempt).1.content attempt.sensor =
      store.content attempt.sensor ++ attempt.buf (store.content attempt.sensor) := by
  rw [append] at stored ⊢
  split at stored
  case isTrue allowed =>
    rw [Option.isNone_iff_eq_none] at stored
    simp [allowed, stored, Store.content, Keyed.lookup_insert]
  case isFalse => contradiction

/-- Behind the byte that closes a torn line a record begins on a line of its own. -/
theorem buf_ownLine (attempt : Attempt) (file : Bytes) :
    ∃ position, file.length ≤ position ∧
      OwnLineAt (file ++ attempt.buf file) position attempt.text.val := by
  by_cases clean : EndsClean file
  · exact ⟨file.length, le_rfl, file, [], by simp [Attempt.buf, Attempt.record, clean], rfl, clean⟩
  · exact ⟨(file ++ [newline]).length, by simp, file ++ [newline], [],
      by simp [Attempt.buf, Attempt.record, clean], rfl, .inr (by simp)⟩

/-- A record that was reported stored stands behind what its file held as a line of its own, and
stands there after any later attempts. -/
theorem stored_record_whole (caps : Caps) (start : Store) (earlier : List Attempt)
    (attempt : Attempt) (stored : (append caps (run caps start earlier) attempt).2 = true) :
    newline ∉ attempt.text.val ∧ ∃ position,
      ((run caps start earlier).content attempt.sensor).length ≤ position ∧
      ∀ later, OwnLineAt ((run caps start (earlier ++ attempt :: later)).content attempt.sensor)
        position attempt.text.val := by
  obtain ⟨position, behind, own⟩ :=
    buf_ownLine attempt ((run caps start earlier).content attempt.sensor)
  refine ⟨attempt.text.property, position, behind, ?_⟩
  intro later
  obtain ⟨more, whole⟩ := run_content caps (append caps (run caps start earlier) attempt).1 later
    attempt.sensor
  rw [append_stored stored] at whole
  rw [run, List.foldl_append]
  exact whole ▸ own.append more

theorem stored_record_whole_torn :
    ∃ position, ∀ later, OwnLineAt ((run ⟨4, 2⟩ [] (⟨"telnet", ⟨[97], by decide⟩, some 1⟩ ::
      ⟨"telnet", ⟨[98], by decide⟩, none⟩ :: later)).content "telnet") position [98] := by
  obtain ⟨-, position, -, own⟩ := stored_record_whole ⟨4, 2⟩ []
    [⟨"telnet", ⟨[97], by decide⟩, some 1⟩] ⟨"telnet", ⟨[98], by decide⟩, none⟩ (by decide)
  exact ⟨position, own⟩

/-- An attempt that is not refused, on a file that ends within a line, has room for the byte that
closes it. -/
def roomToClose (caps : Caps) (store : Store) (attempt : Attempt) : Bool :=
  caps.checkCaps store attempt.record.length →
    EndsClean (store.content attempt.sensor) ∨
      (store.bytes + 1 + attempt.record.length ≤ caps.maxBytes ∧
        store.newlines + 1 < caps.maxRecords)

structure WithinCaps (caps : Caps) (store : Store) : Prop where
  unique : Keyed.Unique store
  bytes : store.bytes ≤ caps.maxBytes
  newlines : store.newlines ≤ caps.maxRecords

/-- What is written counts as the record, and as one byte and one newline more where it closes a
line. -/
theorem buf_counts (attempt : Attempt) (file : Bytes) (cut : ℕ) :
    ((attempt.buf file).take cut).length ≤
        (if EndsClean file then 0 else 1) + attempt.record.length ∧
      ((attempt.buf file).take cut).count newline ≤ if EndsClean file then 1 else 2 := by
  have part := List.take_sublist cut (attempt.buf file)
  have text := List.count_eq_zero.mpr attempt.text.property
  have size : (attempt.buf file).length =
      (if EndsClean file then 0 else 1) + attempt.record.length := by
    rw [Attempt.buf, List.length_append]
    split <;> rfl
  have marks : (attempt.buf file).count newline = if EndsClean file then 1 else 2 := by
    rw [Attempt.buf, Attempt.record, List.count_append, List.count_append, text]
    split <;> rfl
  exact ⟨part.length_le.trans_eq size, (part.count_le newline).trans_eq marks⟩

theorem WithinCaps.append (within : WithinCaps caps store)
    (room : roomToClose caps store attempt = true) :
    WithinCaps caps (append caps store attempt).1 := by
  rw [Quarantine.append]
  split
  case isTrue allowed =>
    have counts := buf_counts attempt (store.content attempt.sensor)
      (attempt.cut.getD (attempt.buf (store.content attempt.sensor)).length)
    replace room := of_decide_eq_true room allowed
    simp only [Caps.checkCaps, Bool.and_eq_true, decide_eq_true_eq] at allowed
    simp only [Store.bytes, Store.newlines] at allowed room
    dsimp only
    generalize List.take _ _ = taken at counts ⊢
    have bytes := Keyed.sum_insert_added within.unique (fileFor attempt.sensor) List.length []
      rfl _ (@List.length_append _ (store.content attempt.sensor) taken)
    have newlines := Keyed.sum_insert_added within.unique (fileFor attempt.sensor)
      (List.count newline) [] rfl _ (@List.count_append _ _ newline (store.content _) taken)
    refine ⟨within.unique.insert _ _, bytes.trans_le ?_, newlines.trans_le ?_⟩
    all_goals
      split at counts
      case isTrue => omega
      case isFalse torn =>
        have closing := room.resolve_left torn
        omega
  case isFalse => exact within

/-- Where an attempt that is not refused, on a file that ends within a line, has room for the byte
that closes it, the files of a store that starts empty stay within the caps. -/
theorem quarantine_within_caps (caps : Caps) (attempts : List Attempt)
    (room : meets (fun store attempt => (append caps store attempt).1) (roomToClose caps) []
      attempts = true) :
    (run caps [] attempts).bytes ≤ caps.maxBytes ∧
      (run caps [] attempts).newlines ≤ caps.maxRecords := by
  have start : WithinCaps caps [] := ⟨List.nodup_nil, Nat.zero_le _, Nat.zero_le _⟩
  have within := invariant_of_meets (WithinCaps caps) (fun _ _ met within => within.append met)
    start room
  exact ⟨within.bytes, within.newlines⟩

/-- A torn record, one that is refused behind it, and one whose newline closes the torn line. -/
def tornAttempts : List Attempt :=
  [⟨"telnet", ⟨[97], by decide⟩, some 1⟩, ⟨"telnet", ⟨[98, 98, 98, 98], by decide⟩, none⟩,
    ⟨"telnet", ⟨[99], by decide⟩, none⟩]

theorem quarantine_within_caps_torn :
    run ⟨5, 3⟩ [] tornAttempts = [("telnet", [97, newline, 99, newline])] ∧
      (run ⟨5, 3⟩ [] tornAttempts).bytes ≤ 5 ∧ (run ⟨5, 3⟩ [] tornAttempts).newlines ≤ 3 :=
  ⟨by decide +kernel, quarantine_within_caps ⟨5, 3⟩ tornAttempts (by decide +kernel)⟩

/-- The byte that closes the line of a torn record is in no check. -/
theorem closing_byte_exceeds_caps :
    (run ⟨3, 1⟩ [] [⟨"telnet", ⟨[97], by decide⟩, some 1⟩,
      ⟨"telnet", ⟨[97], by decide⟩, none⟩]).bytes = 4 ∧
    (run ⟨3, 1⟩ [] [⟨"telnet", ⟨[97], by decide⟩, some 1⟩,
      ⟨"telnet", ⟨[97], by decide⟩, none⟩]).newlines = 2 := by
  decide +kernel

end Propolis.Quarantine
