import Propolis.Adb.Sync

/-!
# Pushes over ADB

What a `sync:` stream says, read as a whole: the uploads it opened, each with all its
bytes, and whether it ended them.  Against this the captures are compared that the
handler submits when the stream arrives in payloads.

The handler drops what it holds when it meets a message it does not know, such as the
`QUIT` of an ordinary push.  Where no upload is open and the payload ends with that
message, nothing is lost by it, and the reading passes it over.
-/

namespace Propolis.Adb

open Bytes Framing Sensor

section Reading

/-- An upload as the stream has it. -/
structure Transfer where
  origName : Bytes
  perm : ℕ
  data : Bytes
  deriving DecidableEq

/-- The uploads of a stream: those that were ended by `DONE`, and the one that is open. -/
structure Transfers where
  closed : List Transfer
  open_ : Option Transfer
  deriving DecidableEq

def Transfers.none_ : Transfers := ⟨[], none⟩

def Transfers.handle (transfers : Transfers) : SyncMessage → Transfers
  | .send payload =>
      { transfers with open_ := some ⟨(sendTarget payload).1, (sendTarget payload).2, []⟩ }
  | .data chunk =>
      { transfers with open_ := transfers.open_.map fun transfer =>
          { transfer with data := transfer.data ++ chunk } }
  | .done => ⟨transfers.closed ++ transfers.open_.toList, none⟩
  | .stat _ | .recv _ => transfers

/-- The bytes a message takes: all but a `DONE` have a payload. -/
def SyncHeader.span (header : SyncHeader) : ℕ :=
  syncHeaderLen + if header.id = syncId "DONE" then 0 else header.length

/-- A message the handler does not know, while no upload is open and none is opened by it. -/
def passOver (sending : Bool) (bytes : Bytes) : Parsed (Option SyncMessage) :=
  match SyncHeader.parse bytes with
  | none => .incomplete
  | some header =>
      if sending = true ∨ header.id = syncId "SEND" then .malformed
      else if bytes.length < header.span then .incomplete
      else .message none (bytes.drop header.span)

def parseStream (sending : Bool) (bytes : Bytes) : Parsed (Option SyncMessage) :=
  match parseSync sending bytes with
  | .incomplete => .incomplete
  | .message message rest => .message (some message) rest
  | .malformed => passOver sending bytes

def syncProtocol : Framing.Protocol Transfers (Option SyncMessage) where
  parse transfers bytes := parseStream transfers.open_.isSome bytes
  handle transfers message := (message.map transfers.handle).getD transfers

/-- The uploads of a stream and its unfinished last message; nothing if a message is malformed and
cannot be passed over. -/
def transfersOf (stream : Bytes) : Option (Transfers × Bytes) :=
  syncProtocol.read .none_ stream

/-- Nothing follows a message that is passed over. -/
def unknownLastIn : ℕ → Transfers → Bytes → Bool
  | 0, _, _ => true
  | fuel + 1, transfers, bytes =>
      match parseSync transfers.open_.isSome bytes with
      | .incomplete => true
      | .message message rest => unknownLastIn fuel (transfers.handle message) rest
      | .malformed =>
          match passOver transfers.open_.isSome bytes with
          | .message _ rest => rest.isEmpty
          | _ => false

/-- The bytes of a `DATA` message that has not arrived in full. -/
def unfinishedData (tail : Bytes) : Bytes :=
  match SyncHeader.parse tail with
  | some header => if header.id = syncId "DATA" then tail.drop syncHeaderLen else []
  | none => []

namespace Transfer

/-- The first bytes are kept, all are counted. -/
def capture (transfer : Transfer) (ended : UploadEnd) : Capture where
  origName := transfer.origName
  body := transfer.data.take maxSyncBody
  wireSize := transfer.data.length
  ended := ended

end Transfer

/-- One capture for each upload that was ended, and one for the open upload if a byte of its data
arrived, in a whole message or in the unfinished one. -/
def Transfers.captures (transfers : Transfers) (tail : Bytes) (reason : CaptureEnd) :
    List Capture :=
  transfers.closed.map (·.capture .transferComplete) ++
    (transfers.open_.toList.filter fun transfer =>
      transfer.data ++ unfinishedData tail ≠ []).map (·.capture (.transferCut reason))

end Reading

variable {bytes : Bytes} {most length : ℕ} {rest : Bytes} {message : SyncMessage}
  {transfers after : Transfers} {left data : Bytes}

section Stable

variable {header : SyncHeader} {content : Bytes → SyncMessage} {sending : Bool}

theorem SyncHeader.parse_append (parsed : SyncHeader.parse bytes = some header) (more : Bytes) :
    SyncHeader.parse (bytes ++ more) = some header := by
  have long : 8 ≤ bytes.length := by
    by_contra short
    rw [parse, if_pos (by simpa [syncHeaderLen] using short)] at parsed
    cases parsed
  rw [← parsed, parse, parse, if_neg (by simp [syncHeaderLen]; omega),
    if_neg (by simpa [syncHeaderLen] using long),
    List.take_append_of_le_length (by omega), List.drop_append_of_le_length (by omega),
    List.take_append_of_le_length (by rw [List.length_drop]; omega)]

theorem SyncHeader.parse_length
    (parsed : SyncHeader.parse bytes = some header) : syncHeaderLen ≤ bytes.length := by
  by_contra short
  rw [parse, if_pos (Nat.lt_of_not_le short)] at parsed
  cases parsed

/-- A payload that is there is read the same when more follows. -/
theorem takePayload_message
    (parsed : takePayload most length content bytes = .message message rest) :
    rest.length < bytes.length ∧
      ∀ more, takePayload most length content (bytes ++ more) =
        .message message (rest ++ more) := by
  rw [takePayload] at parsed
  split at parsed
  · cases parsed
  case isFalse within =>
    split at parsed
    · cases parsed
    case isFalse whole =>
      cases parsed
      have long : syncHeaderLen + length ≤ bytes.length := Nat.le_of_not_lt whole
      constructor
      · rw [List.length_drop]
        simp only [syncHeaderLen] at long ⊢
        omega
      · intro more
        rw [takePayload, if_neg within, if_neg (by rw [List.length_append]; omega),
          List.drop_append_of_le_length (by omega), List.drop_append_of_le_length long,
          List.take_append_of_le_length (by rw [List.length_drop]; omega)]

theorem takePayload_malformed (parsed : takePayload most length content bytes = .malformed)
    (more : Bytes) : takePayload most length content (bytes ++ more) = .malformed := by
  rw [takePayload] at parsed ⊢
  split at parsed
  case isTrue over_ => rw [if_pos over_]
  case isFalse =>
    split at parsed <;> cases parsed

/-- The ways a message is taken once its header is there. -/
inductive SyncArm : (Bytes → Parsed SyncMessage) → Prop where
  | payload (most length : ℕ) (content : Bytes → SyncMessage) :
      SyncArm (takePayload most length content)
  | done : SyncArm fun bytes => .message .done (bytes.drop syncHeaderLen)
  | malformed : SyncArm fun _ => .malformed

/-- The header alone decides which way. -/
theorem parseSync_arm (found : SyncHeader.parse bytes = some header) (sending : Bool) :
    ∃ arm, SyncArm arm ∧ ∀ more, parseSync sending (bytes ++ more) = arm (bytes ++ more) := by
  by_cases send : header.id = syncId "SEND" ∧ sending = false
  · refine ⟨_, .payload maxSyncPathLen header.length .send, fun more => ?_⟩
    simp only [parseSync, SyncHeader.parse_append found, if_pos send]
  by_cases data : header.id = syncId "DATA" ∧ sending = true
  · refine ⟨_, .payload syncMaxChunk header.length .data, fun more => ?_⟩
    simp only [parseSync, SyncHeader.parse_append found, if_neg send, if_pos data]
  by_cases done : header.id = syncId "DONE" ∧ sending = true
  · refine ⟨_, .done, fun more => ?_⟩
    simp only [parseSync, SyncHeader.parse_append found, if_neg send, if_neg data, if_pos done]
  by_cases stat : header.id = syncId "STAT"
  · refine ⟨_, .payload maxSyncPathLen header.length .stat, fun more => ?_⟩
    simp [parseSync, SyncHeader.parse_append found, if_neg send, if_neg data, if_neg done, if_pos
      stat]
  by_cases recv : header.id = syncId "RECV"
  · refine ⟨_, .payload maxSyncPathLen header.length .recv, fun more => ?_⟩
    simp [parseSync, SyncHeader.parse_append found, if_neg send, if_neg data, if_neg done, if_neg
      stat, if_pos recv]
  · refine ⟨_, .malformed, fun more => ?_⟩
    simp [parseSync, SyncHeader.parse_append found, if_neg send, if_neg data, if_neg done, if_neg
      stat, if_neg recv]

/-- Without a whole header there is neither a message nor an error. -/
theorem header_of_parseSync (complete : parseSync sending bytes ≠ .incomplete) :
    ∃ header, SyncHeader.parse bytes = some header := by
  cases found : SyncHeader.parse bytes with
  | none =>
      rw [parseSync, found] at complete
      exact absurd rfl complete
  | some header => exact ⟨header, rfl⟩

theorem parseSync_message (parsed : parseSync sending bytes = .message message rest) :
    rest.length < bytes.length ∧
      ∀ more, parseSync sending (bytes ++ more) = .message message (rest ++ more) := by
  obtain ⟨header, found⟩ := header_of_parseSync (by rw [parsed]; exact nofun)
  obtain ⟨arm, taken, same⟩ := parseSync_arm found sending
  have now := same []
  rw [List.append_nil, parsed] at now
  simp only [same]
  cases taken with
  | payload => exact takePayload_message now.symm
  | done =>
      cases now
      have long := SyncHeader.parse_length found
      constructor
      · rw [List.length_drop]
        simp only [syncHeaderLen] at long ⊢
        omega
      · intro more
        exact congrArg _ (List.drop_append_of_le_length long)
  | malformed => cases now

theorem parseSync_malformed (parsed : parseSync sending bytes = .malformed) (more : Bytes) :
    parseSync sending (bytes ++ more) = .malformed := by
  obtain ⟨header, found⟩ := header_of_parseSync (by rw [parsed]; exact nofun)
  obtain ⟨arm, taken, same⟩ := parseSync_arm found sending
  have now := same []
  rw [List.append_nil, parsed] at now
  rw [same]
  cases taken with
  | payload => exact takePayload_malformed now.symm more
  | done => cases now
  | malformed => rfl

theorem passOver_message {passed : Option SyncMessage}
    (parsed : passOver sending bytes = .message passed rest) :
    sending = false ∧ passed = none ∧ rest.length < bytes.length ∧
      ∀ more, passOver sending (bytes ++ more) = .message passed (rest ++ more) := by
  rw [passOver] at parsed
  split at parsed
  · cases parsed
  case h_2 header found =>
    split at parsed
    · cases parsed
    case isFalse known =>
      split at parsed
      · cases parsed
      case isFalse whole =>
        cases parsed
        have some_ : 0 < header.span := Nat.add_pos_left (by decide) _
        refine ⟨by simpa using (not_or.mp known).1, rfl, by rw [List.length_drop]; omega, ?_⟩
        intro more
        simp only [passOver, SyncHeader.parse_append found, if_neg known]
        rw [if_neg (by rw [List.length_append]; omega),
          List.drop_append_of_le_length (Nat.le_of_not_lt whole)]

theorem passOver_malformed (parsed : passOver sending bytes = .malformed) (more : Bytes) :
    passOver sending (bytes ++ more) = .malformed := by
  rw [passOver] at parsed
  split at parsed
  · cases parsed
  case h_2 header found =>
    split at parsed
    case isTrue unread => simp only [passOver, SyncHeader.parse_append found, if_pos unread]
    case isFalse => split at parsed <;> cases parsed

theorem parseStream_message {passed : Option SyncMessage}
    (parsed : parseStream sending bytes = .message passed rest) :
    rest.length < bytes.length ∧
      ∀ more, parseStream sending (bytes ++ more) = .message passed (rest ++ more) := by
  rw [parseStream] at parsed
  split at parsed
  case h_1 => cases parsed
  case h_2 message _ read =>
    cases parsed
    refine ⟨(parseSync_message read).1, fun more => ?_⟩
    rw [parseStream, (parseSync_message read).2]
  case h_3 unknown =>
    rcases passOver_message parsed with ⟨-, -, shrinks, stays⟩
    refine ⟨shrinks, fun more => ?_⟩
    rw [parseStream, parseSync_malformed unknown]
    exact stays more

theorem syncProtocol_stable : syncProtocol.Stable where
  shrinks parsed := (parseStream_message parsed).1
  message parsed := (parseStream_message parsed).2
  malformed {transfers bytes} parsed more := by
    change parseStream transfers.open_.isSome bytes = .malformed at parsed
    change parseStream transfers.open_.isSome (bytes ++ more) = .malformed
    rw [parseStream] at parsed
    split at parsed
    case h_3 unknown =>
      rw [parseStream, parseSync_malformed unknown]
      exact passOver_malformed parsed more
    all_goals cases parsed

end Stable

section Feeding

/-- An upload as the handler holds it. -/
def Transfer.pending (transfer : Transfer) : PendingSend where
  origName := transfer.origName
  perm := transfer.perm
  body := transfer.data.take maxSyncBody
  wireBytes := transfer.data.length

theorem Transfer.pending_push (transfer : Transfer) (chunk : Bytes) :
    transfer.pending.push chunk =
      Transfer.pending { transfer with data := transfer.data ++ chunk } := by
  have kept : transfer.data.take maxSyncBody ++
      chunk.take (min (maxSyncBody - (transfer.data.take maxSyncBody).length) chunk.length) =
        (transfer.data ++ chunk).take maxSyncBody := by
    rw [List.take_append, List.length_take, ← List.take_take, List.take_length]
    congr 2
    omega
  simp only [pending, PendingSend.push, List.length_append, kept]

/-- The handler's state after the messages of a stream, with the rest of it waiting. -/
def Transfers.state (transfers : Transfers) (buf : Bytes) : SyncState :=
  ⟨buf, transfers.open_.map Transfer.pending⟩

theorem drain_nil (fuel : ℕ) : syncProtocol.drain fuel transfers [] = some (transfers, []) := by
  cases fuel <;> rfl

/-- One `feed` reads what the stream says, and returns the last upload it ended. -/
theorem feedLoop_read {fuel : ℕ} {buf : Bytes}
    (read : syncProtocol.drain fuel transfers buf = some (after, rest))
    (clean : unknownLastIn fuel transfers buf = true) :
    ((transfers.state buf).feedLoop fuel).state = after.state rest ∧
      ((transfers.state buf).feedLoop fuel).submitted = [] ∧
      ∃ ended, after.closed = transfers.closed ++ ended ∧
        ((transfers.state buf).feedLoop fuel).upload =
          ended.getLast?.map (·.capture .transferComplete) := by
  induction fuel generalizing transfers buf with
  | zero =>
      cases read
      exact ⟨rfl, rfl, [], (List.append_nil _).symm, rfl⟩
  | succ fuel ih =>
      have parseEq : parseSync (transfers.state buf).pending.isSome (transfers.state buf).buf =
          parseSync transfers.open_.isSome buf := by
        rw [show (transfers.state buf).pending.isSome = _ from Option.isSome_map]
        rfl
      rw [SyncState.feedLoop, parseEq]
      have parseAt : syncProtocol.parse transfers buf = parseStream _ buf := rfl
      rw [Framing.Protocol.drain, parseAt, parseStream] at read
      rw [unknownLastIn] at clean
      cases parsed : parseSync transfers.open_.isSome buf with
      | incomplete =>
          simp only [parsed] at read
          cases read
          exact ⟨rfl, rfl, [], (List.append_nil _).symm, rfl⟩
      | malformed =>
          simp only [parsed] at read clean
          split at clean
          case h_1 passed later over_ =>
            rcases passOver_message over_ with ⟨idle, rfl, -⟩
            rw [over_, List.isEmpty_iff.mp clean] at read
            cases (drain_nil fuel).symm.trans read
            have none_ : transfers.open_ = none := by simpa using idle
            have same : syncProtocol.handle transfers none = transfers := rfl
            refine ⟨?_, ?_, [], (List.append_nil _).symm, rfl⟩
            all_goals simp [SyncState.abandon, Transfers.state, same, none_]
          case h_2 => cases clean
      | message content later =>
          simp only [parsed] at read clean
          cases content with
          | send payload => exact ih read clean
          | stat path => exact ih read clean
          | recv path => exact ih read clean
          | data chunk =>
              have pushed : (transfers.handle (.data chunk)).state later =
                  ⟨later, (transfers.state buf).pending.map (·.push chunk)⟩ := by
                simp only [Transfers.handle, Transfers.state, Option.map_map]
                congr 1
                apply Option.map_congr
                intro transfer _
                exact (transfer.pending_push chunk).symm
              have fed := @ih (transfers.handle (.data chunk)) later read clean
              rw [pushed] at fed
              exact fed
          | done =>
              obtain ⟨state, submitted, ended, closed, upload⟩ :=
                @ih (transfers.handle .done) later read clean
              refine ⟨state, submitted, transfers.open_.toList ++ ended, ?_, ?_⟩
              · rw [closed, ← List.append_assoc]
                rfl
              · change (((transfers.handle .done).state later).feedLoop fuel).upload.orElse
                  (fun _ => (transfers.open_.map Transfer.pending).map
                    (·.capture .transferComplete)) = _
                rw [upload, List.getLast?_append]
                cases ended.getLast? with
                | some last => rfl
                | none => cases transfers.open_ <;> rfl

theorem feed_read (read : syncProtocol.read transfers (left ++ data) = some (after, rest))
    (clean : unknownLastIn ((left ++ data).length + 1) transfers (left ++ data) = true) :
    ((transfers.state left).feed data).state = after.state rest ∧
      ((transfers.state left).feed data).submitted = [] ∧
      ∃ ended, after.closed = transfers.closed ++ ended ∧
        ((transfers.state left).feed data).upload =
          ended.getLast?.map (·.capture .transferComplete) :=
  feedLoop_read read clean

end Feeding

section Payloads

variable {stream : SyncStream} {lost : ℕ}

/-- How many uploads the stream has ended. -/
def pairsIn (stream : Bytes) : ℕ :=
  ((transfersOf stream).map fun read => read.1.closed.length).getD 0

/-- How many uploads the payloads end beyond one each; `before` has arrived already. -/
def surplus : Bytes → List Bytes → ℕ
  | _, [] => 0
  | before, payload :: later =>
      (pairsIn (before ++ payload) - (pairsIn before + 1)) + surplus (before ++ payload) later

/-- A message that is passed over ends its payload. -/
def unknownLast : Bytes → List Bytes → Bool
  | _, [] => true
  | before, payload :: later =>
      (transfersOf before).all (fun read =>
        unknownLastIn ((read.2 ++ payload).length + 1) read.1 (read.2 ++ payload)) &&
      unknownLast (before ++ payload) later

/-- The handler has submitted what the stream has ended but for so many uploads, and holds what it
has open. -/
structure Follows (stream : SyncStream) (transfers : Transfers) (left : Bytes) (lost : ℕ) :
    Prop where
  state : stream.state = transfers.state left
  part : stream.submitted.Sublist (transfers.closed.map (·.capture .transferComplete))
  count : stream.submitted.length + lost = transfers.closed.length

/-- If a byte of the open upload arrived, one arrived in a whole message. -/
def Transfers.Heard (transfers : Transfers) (tail : Bytes) : Prop :=
  ∀ transfer ∈ transfers.open_, unfinishedData tail ≠ [] → transfer.data ≠ []

theorem pairsIn_eq {stream : Bytes} (read : transfersOf stream = some (transfers, left)) :
    pairsIn stream = transfers.closed.length := by
  rw [pairsIn, read]
  rfl

theorem unknownLast_append (before : Bytes) (payloads later : List Bytes) :
    unknownLast before (payloads ++ later) =
      (unknownLast before payloads && unknownLast (before ++ payloads.flatten) later) := by
  induction payloads generalizing before with
  | nil => simp [unknownLast]
  | cons payload rest ih => simp [unknownLast, ih, Bool.and_assoc]

variable (follows : Follows stream transfers left lost)
include follows

theorem Follows.wrte (read : syncProtocol.read transfers (left ++ data) = some (after, rest))
    (clean : unknownLastIn ((left ++ data).length + 1) transfers (left ++ data) = true) :
    Follows (stream.wrte data) after rest
      (lost + (after.closed.length - (transfers.closed.length + 1))) := by
  obtain ⟨state, submitted, ended, closed, upload⟩ := feed_read read clean
  rw [← follows.state] at state submitted upload
  have all : (stream.wrte data).submitted =
      stream.submitted ++ (ended.getLast?.toList).map (·.capture .transferComplete) := by
    rw [SyncStream.wrte, submitted, upload, List.append_nil, Option.toList_map]
  have count := follows.count
  -- Of the uploads that ended with this payload the last is submitted.
  rcases List.eq_nil_or_concat ended with rfl | ⟨earlier, last, rfl⟩
  · refine ⟨state, ?_, ?_⟩ <;> rw [all, closed]
    · simpa using follows.part
    · simp
      omega
  · refine ⟨state, ?_, ?_⟩ <;> rw [all, closed]
    · simpa using follows.part.append (List.sublist_append_right _ _)
    · simp
      omega

theorem Follows.payloads {before : Bytes} {payloads : List Bytes}
    (begun : transfersOf before = some (transfers, left))
    (read : transfersOf (before ++ payloads.flatten) = some (after, rest))
    (clean : unknownLast before payloads = true) :
    Follows (payloads.foldl SyncStream.wrte stream) after rest
      (lost + surplus before payloads) := by
  induction payloads generalizing stream transfers before left lost with
  | nil =>
      rw [List.flatten_nil, List.append_nil, begun] at read
      cases read
      exact follows
  | cons payload later ih =>
      rw [unknownLast, begun, Bool.and_eq_true] at clean
      rw [List.flatten_cons, ← List.append_assoc] at read
      obtain ⟨middle, kept, front, -⟩ := syncProtocol_stable.read_front read
      have next : syncProtocol.read transfers (left ++ payload) = some (middle, kept) := by
        have whole := syncProtocol_stable.read_append .none_ before payload
        rw [front, show syncProtocol.read .none_ before = _ from begun] at whole
        exact whole.symm
      have on := ih (follows.wrte next clean.1) front read clean.2
      rw [← pairsIn_eq front, ← pairsIn_eq begun, Nat.add_assoc] at on
      exact on

/-- All that ended was submitted where nothing was lost. -/
theorem Follows.submitted_iff :
    stream.submitted = transfers.closed.map (·.capture .transferComplete) ↔ lost = 0 := by
  have count := follows.count
  constructor
  · intro same
    rw [same, List.length_map] at count
    omega
  · intro nothing
    apply follows.part.eq_of_length
    rw [List.length_map]
    omega

/-- What is open when the stream goes is captured if a byte of it arrived in a whole message. -/
theorem Follows.drop_iff (reason : CaptureEnd) :
    stream.drop reason = transfers.captures left reason ↔ lost = 0 ∧ transfers.Heard left := by
  rw [SyncStream.drop, Transfers.captures, ← follows.submitted_iff, follows.state, Transfers.state]
  cases found : transfers.open_ with
  | none => simp [SyncState.abandon, Transfers.Heard, found]
  | some transfer =>
      have heard : transfers.Heard left ↔ (unfinishedData left ≠ [] → transfer.data ≠ []) := by
        simp [Transfers.Heard, found]
      by_cases received : transfer.data = []
      · by_cases more : unfinishedData left = []
        · simp [SyncState.abandon, PendingSend.cut, Transfer.pending, heard, received, more]
        · have count := follows.part.length_le
          have fewer (last : Capture) : stream.submitted ≠
              transfers.closed.map (·.capture .transferComplete) ++ [last] := by
            rintro same
            rw [same, List.length_append] at count
            simp at count
          simp [SyncState.abandon, PendingSend.cut, Transfer.pending, heard, received, more, fewer]
      · simp [SyncState.abandon, PendingSend.cut, Transfer.pending, heard, received,
          List.length_pos_iff, Transfer.capture, PendingSend.capture]

/-- However it ends, the handler is left with what the whole stream says. -/
theorem Follows.finish_iff {tail : Bytes}
    {ending : StreamEnd} (rested : syncProtocol.parse transfers left = .incomplete)
    (read : syncProtocol.read transfers (left ++ ending.payload) = some (after, tail))
    (clean : unknownLastIn ((left ++ ending.payload).length + 1) transfers
      (left ++ ending.payload) = true) :
    stream.finish ending = after.captures tail ending.reason ↔
      lost = 0 ∧ after.closed.length = transfers.closed.length ∧ after.Heard tail := by
  cases ending with
  | closed | dropped =>
      rw [StreamEnd.payload, List.append_nil, read_incomplete rested] at read
      cases read
      simpa [SyncStream.finish, StreamEnd.reason] using follows.drop_iff _
  | unanswered payload reason =>
      rw [StreamEnd.payload] at read clean
      obtain ⟨state, submitted, ended, closed, -⟩ := feed_read read clean
      rw [← follows.state] at state submitted
      have last : Follows ⟨(stream.state.feed payload).state,
          stream.submitted ++ (stream.state.feed payload).submitted⟩ after tail
            (lost + ended.length) := by
        have count := follows.count
        refine ⟨state, ?_, ?_⟩ <;> simp only [submitted, List.append_nil, closed]
        · simpa using follows.part.trans (List.sublist_append_left _ _)
        · rw [List.length_append]
          omega
      change SyncStream.drop _ reason = _ ↔ _
      rw [StreamEnd.reason, last.drop_iff, closed, List.length_append, Nat.add_eq_zero_iff,
        and_assoc]
      simp

end Payloads

section Results

/-- In a stream whose malformed messages come while no upload is open and end their payloads, each
upload is captured once exactly where no payload ends two uploads, the acknowledgement of every
payload that ends one is written, and the open upload has a whole message with a byte if it has
any. -/
theorem pushes_captured_once (payloads : List Bytes) (ending : StreamEnd) (transfers : Transfers)
    (tail : Bytes)
    (read : transfersOf (payloads.flatten ++ ending.payload) = some (transfers, tail))
    (clean : unknownLast [] (payloads ++ [ending.payload]) = true) :
    capturesOf payloads ending = transfers.captures tail ending.reason ↔
      surplus [] payloads = 0 ∧
      pairsIn (payloads.flatten ++ ending.payload) = pairsIn payloads.flatten ∧
      ∀ transfer ∈ transfers.open_, unfinishedData tail ≠ [] → transfer.data ≠ [] := by
  obtain ⟨middle, left, front, back⟩ := syncProtocol_stable.read_front read
  rw [unknownLast_append, Bool.and_eq_true] at clean
  have start : Follows .initial .none_ [] 0 := ⟨rfl, .refl _, rfl⟩
  have first : transfersOf payloads.flatten = some (middle, left) := front
  have follows : Follows _ middle left (0 + surplus [] payloads) :=
    start.payloads rfl first clean.1
  have last := clean.2
  rw [List.nil_append, unknownLast, first, Bool.and_eq_true] at last
  rw [Nat.zero_add] at follows
  rw [pairsIn_eq read, pairsIn_eq first]
  exact follows.finish_iff (syncProtocol_stable.parse_rest front) back last.1

/-- A push of two bytes to `/a`. -/
def samplePush : Bytes :=
  buildSyncMessage "SEND" (ofText "/a,420") ++ buildSyncMessage "DATA" (ofText "hi") ++
    ofText "DONE" ++ [0, 0, 0, 0]

def samplePushCapture : Capture :=
  ⟨ofText "/a", ofText "hi", 2, .transferComplete⟩

/-- Two pushes that arrive in pieces, a `QUIT` behind the first, and the second cut off in a later
message. -/
theorem pushes_captured_once_in_pieces :
    capturesOf [samplePush.take 10, samplePush.drop 10 ++ ofText "QUIT" ++ [0, 0, 0, 0],
        samplePush.take 20, (samplePush.drop 20).take 6] (.dropped .cancelled) =
        [samplePushCapture, ⟨ofText "/a", ofText "hi", 2, .transferCut .cancelled⟩] := by
  refine ((pushes_captured_once _ _
    ⟨[⟨ofText "/a", 0o644, ofText "hi"⟩], some ⟨ofText "/a", 0o644, ofText "hi"⟩⟩ (ofText "DO")
    ?_ ?_).mpr ?_).trans ?_
  · decide +kernel
  · decide +kernel
  · decide +kernel
  · decide +kernel

/-- Of two pushes in one payload the first is lost; a push behind a malformed message is lost if it
arrives with it; a push whose last payload cannot be acknowledged is lost; and so is one whose only
message of data has not arrived in full. -/
theorem pushes_lost :
    capturesOf [samplePush ++ samplePush] .closed = [samplePushCapture] ∧
      capturesOf [samplePush, samplePush] .closed = [samplePushCapture, samplePushCapture] ∧
      capturesOf [ofText "LIST" ++ [0, 0, 0, 0] ++ samplePush] .closed = [] ∧
      capturesOf [ofText "LIST" ++ [0, 0, 0, 0], samplePush] .closed = [samplePushCapture] ∧
      capturesOf [] (.unanswered samplePush .transportError) = [] ∧
      capturesOf [samplePush.take 23] .closed = [] := by
  decide +kernel

end Results

end Propolis.Adb
