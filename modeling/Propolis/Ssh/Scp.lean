import Propolis.Lib.Digits
import Propolis.Lib.Lines
import Propolis.Lib.Utf8
import Propolis.Sensor.Capture

/-!
# Files received over SCP

`ScpReceiver` (`sensor-ssh/transfer.rs`): a header line, the bytes it announces, and a
trailing byte.  The receiver works on whatever has arrived, in blocks; it does the same
as a machine that takes the stream byte by byte, so how the stream was cut makes no
difference.

The fake file tree that a file is also written to is left out, and so is its target.
The capture budget never refuses.
-/

namespace Propolis.Ssh

open Bytes Sensor

section Header

def defaultUploadPerm : ℕ := 0o644

def maxCaptureBody : ℕ := 10000000

def maxHeaderLen : ℕ := 4096

/-- `split_once`. -/
def splitOnce (separator : UInt8) : Bytes → Option (Bytes × Bytes)
  | [] => none
  | byte :: rest =>
      if byte = separator then some ([], rest)
      else (splitOnce separator rest).map fun parts => (byte :: parts.1, parts.2)

/-- `parse_scp_header`: a `C`, the mode, the size and the name.  `from_utf8` accepts what its lossy
variant leaves as it is. -/
def parseScpHeader (line : Bytes) : Option (ℕ × ℕ × Bytes) :=
  if lossy line = line ∧ line.head? = some 67 then do
    let (mode, afterMode) ← splitOnce 32 line.tail
    let (sizeText, name) ← splitOnce 32 afterMode
    let size ← readDigits 10 (2 ^ 64) sizeText
    return (((readDigits 8 (2 ^ 32) mode).map (· % 0o1000)).getD defaultUploadPerm, size, name)
  else none

end Header

section Receiver

inductive ScpState where
  | waitHeader
  | readingBody (expected consumed : ℕ)
  | waitTrailer
  | done
  deriving DecidableEq

def ScpState.isReading : ScpState → Bool
  | .readingBody _ _ => true
  | _ => false

/-- The receiver, with what it has submitted and replied so far. -/
structure ScpReceiver where
  state : ScpState
  lineBuf : Bytes
  filename : Bytes
  perm : ℕ
  body : Bytes
  wireBytes : ℕ
  submitted : List Capture
  response : Bytes

namespace ScpReceiver

/-- The first reply is the ready acknowledgement. -/
def new : ScpReceiver where
  state := .waitHeader
  lineBuf := []
  filename := []
  perm := defaultUploadPerm
  body := []
  wireBytes := 0
  submitted := []
  response := [0]

variable (receiver : ScpReceiver)

/-- `capture_job` and `submit`: the body moves into the job. -/
def submit (ended : UploadEnd) : ScpReceiver :=
  { receiver with
    body := []
    submitted := receiver.submitted ++
      [⟨receiver.filename, receiver.body, receiver.wireBytes, ended⟩] }

/-- A header line is complete. -/
def header : ScpReceiver :=
  match parseScpHeader receiver.lineBuf with
  | some (perm, size, name) =>
      { receiver with
        filename := name, perm := perm, body := [], wireBytes := 0
        state := .readingBody size 0, response := receiver.response ++ [0], lineBuf := [] }
  | none => { receiver with state := .done, lineBuf := [] }

/-- The bytes of a header line, up to its end. -/
def readHeader (receiver : ScpReceiver) : Bytes → ScpReceiver × Bytes
  | [] => (receiver, [])
  | byte :: rest =>
      if byte = newline then (receiver.header, rest)
      else
        let longer := { receiver with lineBuf := receiver.lineBuf ++ [byte] }
        if maxHeaderLen < longer.lineBuf.length then ({ longer with state := .done }, rest)
        else readHeader longer rest

/-- What is past the cap is counted and not kept. -/
def store (block : Bytes) : ScpReceiver :=
  { receiver with
    body := receiver.body ++ block.take (maxCaptureBody - receiver.body.length)
    wireBytes := receiver.wireBytes + block.length }

/-- As much of the body as has arrived. -/
def readBody (expected consumed : ℕ) (data : Bytes) : ScpReceiver × Bytes :=
  let block := data.take (expected - consumed)
  ({ receiver.store block with
      state := if expected ≤ consumed + block.length then .waitTrailer
        else .readingBody expected (consumed + block.length) },
    data.drop (expected - consumed))

/-- The byte after the body, whatever it is. -/
def trailer : ScpReceiver :=
  let handed := receiver.submit .transferComplete
  { handed with response := handed.response ++ [0], state := .done }

/-- The loop of `feed`. -/
def feedLoop : ℕ → ScpReceiver → Bytes → ScpReceiver
  | 0, receiver, _ => receiver
  | fuel + 1, receiver, data =>
      if data.isEmpty then receiver
      else
        match receiver.state with
        | .waitHeader => feedLoop fuel (receiver.readHeader data).1 (receiver.readHeader data).2
        | .readingBody expected consumed =>
            feedLoop fuel (receiver.readBody expected consumed data).1
              (receiver.readBody expected consumed data).2
        | .waitTrailer => feedLoop fuel receiver.trailer data.tail
        | .done => receiver

/-- Every round but one takes a byte: the body of an empty file ends without one. -/
def feed (data : Bytes) : ScpReceiver :=
  receiver.feedLoop (2 * data.length + 1) data

/-- A file is under way and a byte of it has arrived. -/
def isUnfinished : Bool :=
  match receiver.state with
  | .readingBody _ _ | .waitTrailer => 0 < receiver.wireBytes
  | _ => false

/-- `abandon` and `cut_off`. -/
def cutOff (reason : CaptureEnd) : ScpReceiver :=
  if receiver.isUnfinished then { receiver.submit (.transferCut reason) with state := .done }
  else { receiver with state := .done }

end ScpReceiver

/-- The captures submitted for a stream that arrives in these chunks.  An ending the session sees
cuts the transfer off with it, and the receiver is dropped in any case. -/
def scpCaptures (chunks : List Bytes) (observed : Option CaptureEnd) : List Capture :=
  let fed := chunks.foldl ScpReceiver.feed .new
  let ended := match observed with
    | some reason => fed.cutOff reason
    | none => fed
  (ended.cutOff .cancelled).submitted

end Receiver

section Bytewise

namespace ScpReceiver

variable {receiver : ScpReceiver}

/-- The receiver, a byte at a time. -/
def feedByte (receiver : ScpReceiver) (byte : UInt8) : ScpReceiver :=
  match receiver.state with
  | .waitHeader => (receiver.readHeader [byte]).1
  | .readingBody expected consumed =>
      if expected ≤ consumed then receiver.trailer
      else (receiver.readBody expected consumed [byte]).1
  | .waitTrailer => receiver.trailer
  | .done => receiver

theorem foldl_done (done : receiver.state = .done) (data : Bytes) :
    data.foldl feedByte receiver = receiver := by
  induction data with
  | nil => rfl
  | cons byte rest ih =>
      rw [List.foldl_cons]
      have same : receiver.feedByte byte = receiver := by
        rw [feedByte, done]
      rw [same, ih]

/-- A header is read as far as its line goes; then the rest is taken. -/
theorem foldl_readHeader (waiting : receiver.state = .waitHeader) (data : Bytes) :
    data.foldl feedByte receiver =
      (receiver.readHeader data).2.foldl feedByte (receiver.readHeader data).1 := by
  induction data generalizing receiver with
  | nil => rfl
  | cons byte rest ih =>
      have step : receiver.feedByte byte = (receiver.readHeader [byte]).1 := by
        rw [feedByte, waiting]
      rw [List.foldl_cons, step, readHeader, readHeader]
      split
      · rfl
      · dsimp only
        split
        · rfl
        · exact ih waiting

@[simp]
theorem store_nil : receiver.store [] = receiver := by
  simp [store]

theorem store_store (first second : Bytes) :
    (receiver.store first).store second = receiver.store (first ++ second) := by
  simp only [store, List.take_append, List.length_append, List.length_take, List.append_assoc,
    Nat.add_assoc, ScpReceiver.mk.injEq, List.append_cancel_left_eq, and_true, true_and]
  congr 1
  omega

/-- The body is read as far as it goes; then the rest is taken. -/
theorem foldl_readBody {expected consumed : ℕ} (some_ : consumed < expected)
    (reading : receiver.state = .readingBody expected consumed) (data : Bytes) :
    data.foldl feedByte receiver = (receiver.readBody expected consumed data).2.foldl feedByte
      (receiver.readBody expected consumed data).1 := by
  induction data generalizing receiver consumed with
  | nil =>
      have unfinished : ¬ expected ≤ consumed := Nat.not_le.mpr some_
      simp [readBody, unfinished, ← reading]
  | cons byte rest ih =>
      have step : receiver.feedByte byte = (receiver.readBody expected consumed [byte]).1 := by
        rw [feedByte, reading]
        exact if_neg (Nat.not_le.mpr some_)
      obtain ⟨left, leftEq⟩ : ∃ left, expected - consumed = left + 1 :=
        ⟨expected - consumed - 1, by omega⟩
      rw [List.foldl_cons, step]
      by_cases last : expected ≤ consumed + 1
      · have none_ : left = 0 := by omega
        simp [readBody, leftEq, none_]
      · have next : expected - (consumed + 1) = left := by omega
        have first : (receiver.readBody expected consumed [byte]).1 =
            { receiver.store [byte] with state := .readingBody expected (consumed + 1) } := by
          simp [readBody, leftEq, last]
        have block : ({ receiver.store [byte] with
            state := .readingBody expected (consumed + 1) } : ScpReceiver).readBody expected
              (consumed + 1) rest = receiver.readBody expected consumed (byte :: rest) := by
          have joined := @store_store receiver [byte] (rest.take left)
          simp only [readBody, leftEq, next, List.take_succ_cons]
          rw [List.singleton_append] at joined
          rw [← joined, Nat.add_assoc, Nat.add_comm 1]
          rfl
        rw [first, ih (by omega) rfl, block]

theorem readHeader_length (data : Bytes) :
    (receiver.readHeader data).2.length ≤ data.length - 1 := by
  induction data generalizing receiver with
  | nil => exact le_rfl
  | cons byte rest ih =>
      rw [readHeader]
      split
      · exact le_rfl
      · dsimp only
        split
        · exact le_rfl
        · exact ih.trans (Nat.sub_le _ _)

/-- Feeding a block is feeding its bytes. -/
theorem feedLoop_eq {fuel : ℕ} {data : Bytes}
    (enough : 2 * data.length + receiver.state.isReading.toNat ≤ fuel) :
    receiver.feedLoop fuel data = data.foldl feedByte receiver := by
  induction fuel generalizing receiver data with
  | zero =>
      have empty : data = [] := List.length_eq_zero_iff.mp (by omega)
      rw [empty]
      rfl
  | succ fuel ih =>
      cases data with
      | nil => rfl
      | cons byte rest =>
          have most : ∀ state : ScpState, state.isReading.toNat ≤ 1 := fun state => Bool.toNat_le _
          rw [List.length_cons] at enough
          rw [feedLoop, if_neg (by simp)]
          cases state : receiver.state with
          | waitHeader =>
              have shorter := @readHeader_length receiver (byte :: rest)
              have bit := most (receiver.readHeader (byte :: rest)).1.state
              rw [List.length_cons] at shorter
              rw [foldl_readHeader state, ih (by omega)]
          | readingBody expected consumed =>
              rw [state] at enough
              change 2 * (rest.length + 1) + 1 ≤ fuel + 1 at enough
              dsimp only
              by_cases some_ : consumed < expected
              · have shorter : (receiver.readBody expected consumed (byte :: rest)).2.length ≤
                    rest.length := by
                  simp only [readBody, List.length_drop, List.length_cons]
                  omega
                have bit := most (receiver.readBody expected consumed (byte :: rest)).1.state
                rw [foldl_readBody some_ state, ih (by omega)]
              · -- An empty body ends without taking a byte; the byte is the trailer.
                have ended : receiver.readBody expected consumed (byte :: rest) =
                    ({ receiver with state := .waitTrailer }, byte :: rest) := by
                  simp [readBody, Nat.le_of_not_lt some_]
                have same : receiver.feedByte byte =
                    feedByte { receiver with state := .waitTrailer } byte := by
                  rw [feedByte, state]
                  exact if_pos (Nat.le_of_not_lt some_)
                have later : 2 * (byte :: rest).length + (ScpState.waitTrailer).isReading.toNat ≤
                    fuel := by
                  simp only [List.length_cons, ScpState.isReading, Bool.toNat_false]
                  omega
                rw [ended, ih later, List.foldl_cons, List.foldl_cons, same]
          | waitTrailer =>
              have step : receiver.feedByte byte = receiver.trailer := by
                rw [feedByte, state]
              have later : 2 * rest.length + (receiver.trailer).state.isReading.toNat ≤ fuel := by
                change 2 * rest.length + 0 ≤ fuel
                omega
              rw [List.foldl_cons, step, List.tail_cons, ih later]
          | done => exact (foldl_done state _).symm

theorem feed_eq (receiver : ScpReceiver) (data : Bytes) :
    receiver.feed data = data.foldl feedByte receiver := by
  apply feedLoop_eq
  have bit := Bool.toNat_le receiver.state.isReading
  omega

/-- How the stream was cut makes no difference. -/
theorem feed_chunks (receiver : ScpReceiver) (chunks : List Bytes) :
    chunks.foldl feed receiver = chunks.flatten.foldl feedByte receiver := by
  induction chunks generalizing receiver with
  | nil => rfl
  | cons chunk later ih =>
      rw [List.foldl_cons, feed_eq, ih, List.flatten_cons, List.foldl_append]

end ScpReceiver

end Bytewise

section Files

/-- A file as the stream has it. -/
structure ScpFile where
  /-- The line that announces it. -/
  line : Bytes
  /-- That line is the first of the stream. -/
  leads : Bool
  name : Bytes
  data : Bytes
  /-- The trailing byte arrived. -/
  ended : Bool
  deriving DecidableEq

/-- The size and the name in a line that announces a file.  The name may be any bytes. -/
def scpAnnounced (line : Bytes) : Option (ℕ × Bytes) :=
  if line.head? = some 67 then do
    let (_, afterMode) ← splitOnce 32 line.tail
    let (sizeText, name) ← splitOnce 32 afterMode
    let size ← readDigits 10 (2 ^ 64) sizeText
    return (size, name)
  else none

/-- A line between files: times (`T`), the beginning or end of a directory (`D`, `E`), a warning. -/
def isScpAside (line : Bytes) : Bool :=
  line.head? ∈ [some 84, some 68, some 69, some 1]

/-- The files of a stream by the protocol: each has its line, its bytes and its trailer. -/
def scpFilesIn : ℕ → Bool → Bytes → List ScpFile
  | 0, _, _ => []
  | fuel + 1, leads, stream =>
      match splitOnce newline stream with
      | none => []
      | some (line, rest) =>
          match scpAnnounced line with
          | some (size, name) =>
              if rest.length ≤ size then [⟨line, leads, name, rest, false⟩]
              else
                ⟨line, leads, name, rest.take size, true⟩ ::
                  scpFilesIn fuel false (rest.drop (size + 1))
          | none => if isScpAside line then scpFilesIn fuel false rest else []

def scpFiles (stream : Bytes) : List ScpFile :=
  scpFilesIn stream.length true stream

namespace ScpFile

/-- The receiver takes the first line of a stream, if it is text and not too long. -/
def IsTaken (file : ScpFile) : Prop :=
  file.leads = true ∧ file.line.length ≤ maxHeaderLen ∧ lossy file.line = file.line

instance (file : ScpFile) : Decidable file.IsTaken :=
  inferInstanceAs (Decidable (_ ∧ _))

/-- The capture of a file: complete with its trailer, cut off without it. -/
def capture (file : ScpFile) (reason : CaptureEnd) : Capture where
  origName := file.name
  body := file.data.take maxCaptureBody
  wireSize := file.data.length
  ended := if file.ended then .transferComplete else .transferCut reason

end ScpFile

theorem splitOnce_some {separator : UInt8} {text front back : Bytes}
    (split : splitOnce separator text = some (front, back)) :
    text = front ++ separator :: back ∧ separator ∉ front := by
  induction text generalizing front with
  | nil => cases split
  | cons byte rest ih =>
      rw [splitOnce] at split
      split at split
      case isTrue same =>
        cases split
        exact ⟨by rw [same]; rfl, List.not_mem_nil⟩
      case isFalse differs =>
        obtain ⟨⟨first, last⟩, found, parts⟩ := Option.map_eq_some_iff.mp split
        cases parts
        obtain ⟨whole, clean⟩ := ih found
        refine ⟨congrArg (byte :: ·) whole, ?_⟩
        rw [List.mem_cons, not_or]
        exact ⟨Ne.symm differs, clean⟩

theorem splitOnce_none {separator : UInt8} {text : Bytes}
    (split : splitOnce separator text = none) : separator ∉ text := by
  induction text with
  | nil => exact List.not_mem_nil
  | cons byte rest ih =>
      rw [splitOnce] at split
      split at split
      · cases split
      case isFalse differs =>
        rw [List.mem_cons, not_or]
        exact ⟨Ne.symm differs, ih (Option.map_eq_none_iff.mp split)⟩

namespace ScpReceiver

variable {receiver : ScpReceiver} {line : Bytes} {name : Bytes}

theorem readHeader_line (clean : newline ∉ line)
    (short : (receiver.lineBuf ++ line).length ≤ maxHeaderLen) (rest : Bytes) :
    receiver.readHeader (line ++ newline :: rest) =
      (({ receiver with lineBuf := receiver.lineBuf ++ line } : ScpReceiver).header, rest) := by
  induction line generalizing receiver with
  | nil => simp [readHeader]
  | cons byte line ih =>
      rw [List.mem_cons, not_or] at clean
      simp only [List.length_append, List.length_cons] at short
      rw [List.cons_append, readHeader, if_neg (Ne.symm clean.1)]
      rw [if_neg (by simp only [List.length_append, List.length_singleton]; omega),
        ih clean.2 (by simp only [List.length_append, List.length_singleton]; omega)]
      simp

/-- The receiver has submitted nothing and has no file. -/
structure Idle (receiver : ScpReceiver) : Prop where
  state : receiver.state = .waitHeader ∨ receiver.state = .done
  submitted : receiver.submitted = []

/-- Without the end of a line the receiver waits, or it gives up on a line that is too long. -/
theorem Idle.unended (idle : receiver.Idle) (clean : newline ∉ line) :
    (line.foldl feedByte receiver).Idle := by
  induction line generalizing receiver with
  | nil => exact idle
  | cons byte line ih =>
      rw [List.mem_cons, not_or] at clean
      refine ih ?_ clean.2
      rcases idle.state with waiting | done
      · rw [feedByte, waiting]
        rw [readHeader, if_neg (Ne.symm clean.1)]
        dsimp only
        split
        · exact ⟨.inr rfl, idle.submitted⟩
        · exact ⟨.inl waiting, idle.submitted⟩
      · rw [feedByte, done]
        exact idle

theorem readHeader_long (clean : newline ∉ line)
    (long : maxHeaderLen < (receiver.lineBuf ++ line).length) (rest : Bytes)
    (short : receiver.lineBuf.length ≤ maxHeaderLen) :
    (receiver.readHeader (line ++ rest)).1.state = .done ∧
      (receiver.readHeader (line ++ rest)).1.submitted = receiver.submitted := by
  induction line generalizing receiver with
  | nil =>
      rw [List.append_nil] at long
      omega
  | cons byte line ih =>
      rw [List.mem_cons, not_or] at clean
      rw [List.cons_append, readHeader, if_neg (Ne.symm clean.1)]
      dsimp only
      split
      · exact ⟨rfl, rfl⟩
      case isFalse fits =>
        refine ih clean.2 ?_ (Nat.le_of_not_lt fits)
        simpa using long

theorem header_none (unparsed : parseScpHeader receiver.lineBuf = none) :
    receiver.header = { receiver with state := .done, lineBuf := [] } := by
  rw [header, unparsed]

theorem header_some {perm size : ℕ}
    (parsed : parseScpHeader receiver.lineBuf = some (perm, size, name)) :
    receiver.header = { receiver with
      filename := name, perm := perm, body := [], wireBytes := 0
      state := .readingBody size 0, response := receiver.response ++ [0], lineBuf := [] } := by
  rw [header, parsed]

/-- A first line that cannot be read leads to nothing. -/
theorem idle_of_unread {stream rest : Bytes} (split : splitOnce newline stream = some (line, rest))
    (unread : line.length ≤ maxHeaderLen → parseScpHeader line = none) :
    (stream.foldl feedByte new).Idle := by
  obtain ⟨rfl, clean⟩ := splitOnce_some split
  rw [foldl_readHeader rfl]
  rcases Nat.lt_or_ge maxHeaderLen line.length with long | short
  · obtain ⟨done, submitted⟩ :=
      @readHeader_long new line clean (by simpa [new] using long) (newline :: rest) (Nat.zero_le _)
    rw [foldl_done done]
    exact ⟨.inr done, submitted⟩
  · rw [readHeader_line clean (by simpa [new] using short) rest]
    have failed := @header_none { new with lineBuf := new.lineBuf ++ line } (unread short)
    rw [failed, foldl_done rfl]
    exact ⟨.inr rfl, rfl⟩

/-- A file is under way: what has arrived of it. -/
structure Receives (receiver : ScpReceiver) (name data : Bytes) : Prop where
  state : receiver.state = .waitTrailer ∨ ∃ expected consumed,
    receiver.state = .readingBody expected consumed
  filename : receiver.filename = name
  body : receiver.body = data.take maxCaptureBody
  wireBytes : receiver.wireBytes = data.length
  submitted : receiver.submitted = []

/-- The trailer hands the file over. -/
theorem Receives.trailer {data : Bytes} (receives : receiver.Receives name data) :
    receiver.trailer.state = .done ∧ receiver.trailer.submitted =
      [⟨name, data.take maxCaptureBody, data.length, .transferComplete⟩] := by
  refine ⟨rfl, ?_⟩
  simp [ScpReceiver.trailer, submit, receives.submitted, receives.filename, receives.body,
    receives.wireBytes]

theorem Receives.store (receives : receiver.Receives name []) (block : Bytes)
    {state : ScpState}
    (under : state = .waitTrailer ∨ ∃ expected consumed, state = .readingBody expected consumed) :
    ({ receiver.store block with state := state } : ScpReceiver).Receives name block := by
  refine ⟨under, receives.filename, ?_, ?_, receives.submitted⟩
  · simp [ScpReceiver.store, receives.body]
  · simp [ScpReceiver.store, receives.wireBytes]

/-- After its header a file is received up to its trailer. -/
theorem Receives.file {size : ℕ} (started : receiver.Receives name [])
    (reading : receiver.state = .readingBody size 0) (rest : Bytes) :
    (rest.length ≤ size → (rest.foldl feedByte receiver).Receives name rest) ∧
      (size < rest.length → (rest.foldl feedByte receiver).state = .done ∧
        (rest.foldl feedByte receiver).submitted = [⟨name, (rest.take size).take maxCaptureBody,
          (rest.take size).length, .transferComplete⟩]) := by
  rcases Nat.eq_zero_or_pos size with rfl | some_
  · constructor
    · intro empty
      rw [List.length_eq_zero_iff.mp (Nat.le_zero.mp empty)]
      exact started
    · intro more
      cases rest with
      | nil => cases more
      | cons byte later =>
          have step : receiver.feedByte byte = receiver.trailer := by
            rw [feedByte, reading]
            rfl
          have ended := started.trailer
          rw [List.foldl_cons, step, foldl_done ended.1]
          exact ended
  · rw [foldl_readBody some_ reading]
    simp only [readBody, Nat.sub_zero, Nat.zero_add]
    constructor
    · intro fits
      rw [List.take_of_length_le fits, List.drop_eq_nil_of_le fits]
      apply started.store
      split
      · exact .inl rfl
      · exact .inr ⟨_, _, rfl⟩
    · intro more
      have waits := started.store (rest.take size) (.inl rfl)
      rw [if_pos (List.length_take_of_le more.le).ge]
      obtain ⟨byte, later, dropped⟩ : ∃ byte later, rest.drop size = byte :: later :=
        List.exists_cons_of_ne_nil (by simpa using more)
      have ended := waits.trailer
      rw [dropped]
      change (later.foldl feedByte (ScpReceiver.trailer _)).state = _ ∧
        (later.foldl feedByte (ScpReceiver.trailer _)).submitted = _
      rw [foldl_done ended.1]
      exact ended

/-! ### Ending -/

theorem cutOff_done (done : receiver.state = .done) (reason : CaptureEnd) :
    receiver.cutOff reason = receiver := by
  have finished : receiver.isUnfinished = false := by
    rw [isUnfinished, done]
  rw [cutOff, finished, if_neg Bool.false_ne_true, ← done]

theorem cutOff_state (reason : CaptureEnd) : (receiver.cutOff reason).state = .done := by
  rw [cutOff]
  split <;> rfl

theorem Idle.cutOff (idle : receiver.Idle) (reason : CaptureEnd) :
    (receiver.cutOff reason).submitted = [] := by
  have finished : receiver.isUnfinished = false := by
    rcases idle.state with waiting | done
    · rw [isUnfinished, waiting]
    · rw [isUnfinished, done]
  rw [ScpReceiver.cutOff, finished]
  exact idle.submitted

/-- What has arrived of a file is handed over when the transfer is cut off. -/
theorem Receives.cutOff {data : Bytes} (receives : receiver.Receives name data)
    (reason : CaptureEnd) :
    (receiver.cutOff reason).submitted = if data = [] then []
      else [⟨name, data.take maxCaptureBody, data.length, .transferCut reason⟩] := by
  have under : receiver.isUnfinished = decide (0 < data.length) := by
    rw [isUnfinished, ← receives.wireBytes]
    rcases receives.state with trailer | ⟨expected, consumed, reading⟩
    · rw [trailer]
    · rw [reading]
  rw [ScpReceiver.cutOff, under]
  by_cases empty : data = []
  · simp [empty, receives.submitted]
  · have some_ : 0 < data.length := List.length_pos_iff.mpr empty
    simp [empty, some_, submit, receives.submitted, receives.filename, receives.body,
      receives.wireBytes]

end ScpReceiver

/-- The receiver's own drop comes after any ending the session saw. -/
theorem scpCaptures_eq (chunks : List Bytes) (observed : Option CaptureEnd) :
    scpCaptures chunks observed = ((chunks.flatten.foldl ScpReceiver.feedByte .new).cutOff
      (observed.getD .cancelled)).submitted := by
  rw [← ScpReceiver.feed_chunks]
  cases observed with
  | none => rfl
  | some reason =>
      change (ScpReceiver.cutOff (ScpReceiver.cutOff _ reason) _).submitted = _
      rw [ScpReceiver.cutOff_done (ScpReceiver.cutOff_state _)]
      rfl

theorem scpFilesIn_leads {fuel : ℕ} {stream : Bytes} :
    ∀ file ∈ scpFilesIn fuel false stream, file.leads = false := by
  induction fuel generalizing stream with
  | zero => nofun
  | succ fuel ih =>
      rw [scpFilesIn]
      split
      · nofun
      split
      · split
        · simp
        · simpa using ih
      · split
        · exact ih
        · nofun

/-- The receiver reads the size and the name of a line that is text. -/
theorem parseScpHeader_text {line : Bytes} (text : lossy line = line) :
    (parseScpHeader line).map Prod.snd = scpAnnounced line := by
  rw [parseScpHeader, scpAnnounced]
  by_cases announces : line.head? = some 67
  · simp [text, announces, Option.map_bind]
  · simp [announces]

theorem lossy_of_parseScpHeader {line : Bytes} {header : ℕ × ℕ × Bytes}
    (parsed : parseScpHeader line = some header) : lossy line = line := by
  rw [parseScpHeader] at parsed
  split at parsed
  case isTrue announces => exact announces.1
  case isFalse => cases parsed

/-- The file that the first line announces, if it does, and those that no first line announces. -/
theorem scpFiles_split {stream line rest : Bytes}
    (split : splitOnce newline stream = some (line, rest)) :
    ∃ later, (∀ file ∈ later, file.leads = false) ∧
      scpFiles stream = (scpAnnounced line).toList.map (fun (size, name) =>
        ⟨line, true, name, rest.take size, decide (size < rest.length)⟩) ++ later := by
  have length : stream.length = line.length + rest.length + 1 := by
    rw [(splitOnce_some split).1, List.length_append, List.length_cons, Nat.add_assoc]
  rw [scpFiles, length, scpFilesIn, split]
  dsimp only
  cases scpAnnounced line with
  | none =>
      dsimp only
      split
      · exact ⟨_, scpFilesIn_leads, rfl⟩
      · exact ⟨[], nofun, rfl⟩
  | some header =>
      dsimp only
      split
      case isTrue fits => exact ⟨[], nofun, by simp [List.take_of_length_le fits, fits]⟩
      case isFalse more =>
        refine ⟨scpFilesIn (line.length + rest.length) false (rest.drop (header.1 + 1)),
          scpFilesIn_leads, ?_⟩
        simp [Nat.lt_of_not_le more]

/-- Behind a header that it reads the receiver has what follows of the file. -/
theorem receives_of_read {stream line rest name : Bytes} {perm size : ℕ}
    (split : splitOnce newline stream = some (line, rest)) (short : line.length ≤ maxHeaderLen)
    (header : parseScpHeader line = some (perm, size, name)) :
    ∃ receiver : ScpReceiver, receiver.Receives name [] ∧ receiver.state = .readingBody size 0 ∧
      stream.foldl ScpReceiver.feedByte .new = rest.foldl ScpReceiver.feedByte receiver := by
  obtain ⟨rfl, clean⟩ := splitOnce_some split
  have filled := @ScpReceiver.header_some
    { ScpReceiver.new with lineBuf := ScpReceiver.new.lineBuf ++ line } name perm size header
  refine ⟨_, ?_, ?_, by rw [ScpReceiver.foldl_readHeader rfl,
    ScpReceiver.readHeader_line clean (by simpa [ScpReceiver.new] using short) rest]⟩
  · rw [filled]
    exact ⟨.inr ⟨_, _, rfl⟩, rfl, rfl, rfl, rfl⟩
  · rw [filled]

/-- The front of the files is what the receiver takes; the others are left. -/
theorem scpFiles_taken (stream : Bytes) (reason : CaptureEnd) :
    ∃ front later, scpFiles stream = front ++ later ∧
      (∀ file ∈ front, file.IsTaken) ∧ (∀ file ∈ later, ¬ file.IsTaken) ∧
      ((stream.foldl ScpReceiver.feedByte .new).cutOff reason).submitted.filter
          (0 < ·.wireSize) =
        (front.filter (·.data ≠ [])).map (·.capture reason) := by
  cases split : splitOnce newline stream with
  | none =>
      have idle : (stream.foldl ScpReceiver.feedByte .new).Idle :=
        ScpReceiver.Idle.unended ⟨.inl rfl, rfl⟩ (splitOnce_none split)
      refine ⟨[], [], ?_, nofun, nofun, by rw [idle.cutOff]; rfl⟩
      rw [scpFiles]
      cases stream.length with
      | zero => rfl
      | succ => rw [scpFilesIn, split]; rfl
  | some parts =>
      obtain ⟨line, rest⟩ := parts
      obtain ⟨later, others, files⟩ := scpFiles_split split
      have unled : ∀ file ∈ later, ¬ file.IsTaken := fun file member taken =>
        Bool.false_ne_true ((others file member).symm.trans taken.1)
      by_cases unread : line.length ≤ maxHeaderLen → parseScpHeader line = none
      · refine ⟨[], scpFiles stream, rfl, nofun, ?_,
          by rw [(ScpReceiver.idle_of_unread split unread).cutOff]; rfl⟩
        intro file member taken
        rw [files] at member
        rcases List.mem_append.mp member with first | member
        · obtain ⟨header, announced, rfl⟩ := List.mem_map.mp first
          obtain ⟨-, short, text⟩ := taken
          rw [← parseScpHeader_text text, unread short] at announced
          cases announced
        · exact unled file member taken
      · rw [Classical.not_imp] at unread
        obtain ⟨short, parses⟩ := unread
        obtain ⟨⟨perm, size, name⟩, header⟩ := Option.ne_none_iff_exists'.mp parses
        have text := lossy_of_parseScpHeader header
        rw [← parseScpHeader_text text, header] at files
        simp only [Option.map_some, Option.toList_some, List.map_cons, List.map_nil] at files
        refine ⟨[_], later, files, ?_, unled, ?_⟩
        · simpa [ScpFile.IsTaken] using ⟨short, text⟩
        obtain ⟨receiver, started, reading, same⟩ := receives_of_read split short header
        obtain ⟨under, ended⟩ := started.file reading rest
        rw [same]
        by_cases fits : rest.length ≤ size
        · rw [(under fits).cutOff, List.take_of_length_le fits]
          by_cases empty : rest = []
          · simp [empty]
          · simp [empty, fits, ScpFile.capture, List.length_pos_iff]
        · obtain ⟨done, submitted⟩ := ended (Nat.lt_of_not_le fits)
          rw [ScpReceiver.cutOff_done done, submitted]
          generalize rest.take size = data
          by_cases empty : data = []
          · simp [empty]
          · simp [empty, Nat.lt_of_not_le fits, ScpFile.capture, List.length_pos_iff]

/-- What the receiver hands over of the files with a byte is right where it takes each of them. -/
theorem scp_files_captured (chunks : List Bytes) (observed : Option CaptureEnd) :
    (scpCaptures chunks observed).filter (0 < ·.wireSize) =
        ((scpFiles chunks.flatten).filter (·.data ≠ [])).map
          (·.capture (observed.getD .cancelled)) ↔
      ∀ file ∈ scpFiles chunks.flatten, file.data ≠ [] → file.IsTaken := by
  obtain ⟨front, later, files, taken, left, submitted⟩ :=
    scpFiles_taken chunks.flatten (observed.getD .cancelled)
  rw [scpCaptures_eq, submitted, files, List.filter_append, List.map_append,
    List.self_eq_append_right, List.map_eq_nil_iff, List.filter_eq_nil_iff]
  constructor
  · intro empty file member received
    rcases List.mem_append.mp member with before | behind
    · exact taken file before
    · exact absurd (decide_eq_true received) (empty file behind)
  · intro all file member received
    exact left file member (all file (List.mem_append_right _ member) (of_decide_eq_true received))

end Files

end Propolis.Ssh
