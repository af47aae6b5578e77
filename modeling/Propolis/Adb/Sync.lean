import Propolis.Lib.Digits
import Propolis.Lib.Framing
import Propolis.Lib.Utf8
import Propolis.Sensor.Capture

/-!
# The sync service of ADB

`SyncState` (`sensor-adb/handler.rs`): a `sync:` stream is a sequence of messages with a
header of eight bytes.  `SEND` opens an upload, `DATA` carries its bytes, `DONE` ends
it.  `feed` takes the messages that are whole; the capture of an upload that ended is
returned to `handle_wrte`, which submits it after its own reply is written.  What is
open when the stream goes is submitted from `Drop`.

The fake file tree that a push is also written to, and the texts of the replies, are
left out: no capture depends on them.  The capture budget never refuses.
-/

namespace Propolis.Adb

open Bytes Framing Sensor

section Messages

def syncHeaderLen : ℕ := 8

def maxSyncPathLen : ℕ := 4096

def syncMaxChunk : ℕ := 128 * 1024

def maxSyncBody : ℕ := 10000000

/-- An id is four letters, read as a little endian number. -/
def syncId (letters : String) : ℕ :=
  ofLittleEndian (ofText letters)

structure SyncHeader where
  id : ℕ
  length : ℕ

def SyncHeader.parse (bytes : Bytes) : Option SyncHeader :=
  if bytes.length < syncHeaderLen then none
  else some ⟨ofLittleEndian (bytes.take 4), ofLittleEndian ((bytes.drop 4).take 4)⟩

inductive SyncMessage where
  | send (payload : Bytes)
  | data (chunk : Bytes)
  | done
  | stat (path : Bytes)
  | recv (path : Bytes)

/-- The length of a message is checked before its payload is waited for (`take_payload`). -/
def takePayload (most length : ℕ) (content : Bytes → SyncMessage) (bytes : Bytes) :
    Parsed SyncMessage :=
  if most < length then .malformed
  else if bytes.length < syncHeaderLen + length then .incomplete
  else .message (content ((bytes.drop syncHeaderLen).take length))
    (bytes.drop (syncHeaderLen + length))

/-- The next message, by the arms of the loop of `feed`.  The length field of a `DONE` is a time. -/
def parseSync (sending : Bool) (bytes : Bytes) : Parsed SyncMessage :=
  match SyncHeader.parse bytes with
  | none => .incomplete
  | some header =>
      if header.id = syncId "SEND" ∧ sending = false then
        takePayload maxSyncPathLen header.length .send bytes
      else if header.id = syncId "DATA" ∧ sending = true then
        takePayload syncMaxChunk header.length .data bytes
      else if header.id = syncId "DONE" ∧ sending = true then
        .message .done (bytes.drop syncHeaderLen)
      else if header.id = syncId "STAT" then
        takePayload maxSyncPathLen header.length .stat bytes
      else if header.id = syncId "RECV" then
        takePayload maxSyncPathLen header.length .recv bytes
      else .malformed

/-- `build_sync_message`. -/
def buildSyncMessage (letters : String) (payload : Bytes) : Bytes :=
  ofText letters ++ littleEndian 4 payload.length ++ payload

end Messages

section Uploads

def defaultPushPerm : ℕ := 0o644

/-- `parse_send_path`: the text before the last comma, and the mode after it. -/
def parseSendPath (payload : Bytes) : Option (Bytes × ℕ) :=
  let reversed := payload.reverse
  if reversed.contains 44 then
    (readDigits 10 (2 ^ 32) (reversed.takeWhile (· ≠ 44)).reverse).map fun mode =>
      (((reversed.dropWhile (· ≠ 44)).drop 1).reverse, mode)
  else none

/-- The name and the permissions a `SEND` gives. -/
def sendTarget (payload : Bytes) : Bytes × ℕ :=
  match parseSendPath (lossy payload) with
  | some (path, mode) => (path, mode % 0o1000)
  | none => ([], defaultPushPerm)

structure PendingSend where
  origName : Bytes
  perm : ℕ
  body : Bytes
  wireBytes : ℕ

namespace PendingSend

def opened (payload : Bytes) : PendingSend where
  origName := (sendTarget payload).1
  perm := (sendTarget payload).2
  body := []
  wireBytes := 0

/-- The bytes past `MAX_SYNC_BODY` are counted and not kept. -/
def push (pending : PendingSend) (chunk : Bytes) : PendingSend :=
  let storable := maxSyncBody - pending.body.length
  { pending with
    body := pending.body ++ chunk.take (min storable chunk.length)
    wireBytes := pending.wireBytes + chunk.length }

/-- `build_capture_job`. -/
def capture (pending : PendingSend) (ended : UploadEnd) : Capture where
  origName := pending.origName
  body := pending.body
  wireSize := pending.wireBytes
  ended := ended

/-- An upload that is given up is captured if anything of it arrived. -/
def cut (pending : PendingSend) (reason : CaptureEnd) : Option Capture :=
  if 0 < pending.wireBytes then some (pending.capture (.transferCut reason)) else none

end PendingSend

end Uploads

section Feeding

inductive SyncReply where
  | okay
  | stat (path : Bytes)
  | fail (text : String)
  deriving DecidableEq

structure SyncState where
  buf : Bytes
  pending : Option PendingSend

def SyncState.initial : SyncState := ⟨[], none⟩

/-- `abandon`, and the capture it returns. -/
def SyncState.abandon (state : SyncState) (reason : CaptureEnd) : SyncState × Option Capture :=
  (⟨[], none⟩, state.pending.bind fun pending => pending.cut reason)

/-- What `feed` does: the state, the replies, the one upload it returns, and what it has submitted
itself. -/
structure Fed where
  state : SyncState
  response : List SyncReply
  upload : Option Capture
  submitted : List Capture

/-- The loop of `feed`.  A later upload takes the place of an earlier one. -/
def SyncState.feedLoop : ℕ → SyncState → Fed
  | 0, state => ⟨state, [], none, []⟩
  | fuel + 1, state =>
      match parseSync state.pending.isSome state.buf with
      | .incomplete => ⟨state, [], none, []⟩
      | .malformed =>
          ⟨(state.abandon .malformedInput).1, [], none,
            (state.abandon .malformedInput).2.toList⟩
      | .message (.send payload) rest => feedLoop fuel ⟨rest, some (.opened payload)⟩
      | .message (.data chunk) rest => feedLoop fuel ⟨rest, state.pending.map (·.push chunk)⟩
      | .message .done rest =>
          let later := feedLoop fuel ⟨rest, none⟩
          { later with
            response := .okay :: later.response
            upload := later.upload <|> state.pending.map (·.capture .transferComplete) }
      | .message (.stat path) rest =>
          let later := feedLoop fuel ⟨rest, state.pending⟩
          { later with response := .stat path :: later.response }
      | .message (.recv _) rest =>
          let later := feedLoop fuel ⟨rest, state.pending⟩
          { later with response := .fail "Permission denied" :: later.response }

def SyncState.feed (state : SyncState) (data : Bytes) : Fed :=
  let buf := state.buf ++ data
  feedLoop (buf.length + 1) { state with buf }

end Feeding

section Stream

/-- A `sync:` stream, with what was submitted for it. -/
structure SyncStream where
  state : SyncState
  submitted : List Capture

def SyncStream.initial : SyncStream := ⟨.initial, []⟩

/-- `handle_wrte`: the payload is fed, it is acknowledged, and then the upload is submitted. -/
def SyncStream.wrte (stream : SyncStream) (data : Bytes) : SyncStream :=
  let fed := stream.state.feed data
  ⟨fed.state, stream.submitted ++ fed.submitted ++ fed.upload.toList⟩

/-- How a stream ends: the peer closes it, the connection is lost between two payloads, or the
acknowledgement of a last payload cannot be written. -/
inductive StreamEnd where
  | closed
  | dropped (reason : CaptureEnd)
  | unanswered (payload : Bytes) (reason : CaptureEnd)

/-- The reason `Drop` gives to an upload that is open. -/
def StreamEnd.reason : StreamEnd → CaptureEnd
  | .closed => .peerClosed
  | .dropped reason | .unanswered _ reason => reason

/-- The bytes that arrive with the end. -/
def StreamEnd.payload : StreamEnd → Bytes
  | .closed | .dropped _ => []
  | .unanswered payload _ => payload

/-- `Drop`. -/
def SyncStream.drop (stream : SyncStream) (reason : CaptureEnd) : List Capture :=
  stream.submitted ++ (stream.state.abandon reason).2.toList

def SyncStream.finish (stream : SyncStream) (ending : StreamEnd) : List Capture :=
  match ending with
  | .closed => stream.drop .peerClosed
  | .dropped reason => stream.drop reason
  | .unanswered payload reason =>
      -- The upload that `feed` returned goes with the failed call.
      let fed := stream.state.feed payload
      SyncStream.drop ⟨fed.state, stream.submitted ++ fed.submitted⟩ reason

/-- The captures submitted for a stream that arrives in these payloads and ends so. -/
def capturesOf (payloads : List Bytes) (ending : StreamEnd) : List Capture :=
  (payloads.foldl SyncStream.wrte .initial).finish ending

end Stream

end Propolis.Adb
