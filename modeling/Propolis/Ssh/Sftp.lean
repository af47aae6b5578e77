import Mathlib.Data.List.Sort
import Propolis.Lib.Digits
import Propolis.Lib.Framing
import Propolis.Lib.Keyed
import Propolis.Lib.Run
import Propolis.Lib.Utf8
import Propolis.Sensor.Capture

/-!
# Files received over SFTP

`SftpHandler` (`sensor-ssh/transfer.rs`): packets with a length in front, of which
`OPEN`, `WRITE` and `CLOSE` are answered.  A handle holds the bytes written to it up to
a cap of its own and a cap on all handles of the session.

A packet is first read as a request, with the replies it leads to when a field is
missing; then the request is handled.  Replies are kept as what they say, not as bytes.
The fake file tree is left out, and the capture budget never refuses.
-/

namespace Propolis.Ssh

open Bytes Framing Sensor

section Requests

def sftpMaxFileBody : ℕ := 10000000

def sftpMaxOpenHandles : ℕ := 64

def sftpMaxSessionBytes : ℕ := 20000000

def sftpMaxPacketSize : ℕ := 262144

def sftpDefaultPerm : ℕ := 0o644

/-- `read_u32`, and what follows it. -/
def readU32 (data : Bytes) : Option (ℕ × Bytes) :=
  if data.length < 4 then none else some (ofBigEndian (data.take 4), data.drop 4)

def readString (data : Bytes) : Option (Bytes × Bytes) :=
  (readU32 data).bind fun (length, rest) =>
    if rest.length < length then none else some (rest.take length, rest.drop length)

/-- `read_open_perm`: size, then owner, then permissions, each if its flag is set. -/
def readOpenPerm (attrs : Bytes) : ℕ :=
  match readU32 attrs with
  | none => sftpDefaultPerm
  | some (flags, rest) =>
      let afterSize := if flags.testBit 0 then rest.drop 8 else rest
      let afterOwner := if flags.testBit 1 then afterSize.drop 8 else afterSize
      if flags.testBit 2 then
        ((readU32 afterOwner).map fun (mode, _) => mode % 0o1000).getD sftpDefaultPerm
      else sftpDefaultPerm

inductive SftpRequest where
  /-- Without a request id there is no reply. -/
  | ignored
  | init
  | unsupported (id : ℕ)
  | open_ (id : ℕ) (filename : Bytes) (pflags perm : ℕ)
  | write (id : ℕ) (handle data : Bytes)
  | close (id : ℕ) (handle : Bytes)

def decodeOpen (id : ℕ) (body : Bytes) : SftpRequest :=
  match readString body with
  | none => .unsupported id
  | some (filename, afterName) =>
      match readU32 afterName with
      | none => .unsupported id
      | some (pflags, attrs) => .open_ id filename pflags (readOpenPerm attrs)

/-- The offset of a write is skipped. -/
def decodeWrite (id : ℕ) (body : Bytes) : SftpRequest :=
  match readString body with
  | none => .unsupported id
  | some (handle, afterHandle) =>
      if afterHandle.length < 8 then .unsupported id
      else
        match readString (afterHandle.drop 8) with
        | none => .unsupported id
        | some (data, _) => .write id handle data

def decodeClose (id : ℕ) (body : Bytes) : SftpRequest :=
  match readString body with
  | none => .unsupported id
  | some (handle, _) => .close id handle

/-- What a packet asks for, by its type. -/
def decodePacket : Bytes → SftpRequest
  | [] => .ignored
  | kind :: body =>
      if kind = 1 then .init
      else
        match readU32 body with
        | none => .ignored
        | some (id, rest) =>
            if kind = 3 then decodeOpen id rest
            else if kind = 6 then decodeWrite id rest
            else if kind = 4 then decodeClose id rest
            else .unsupported id

end Requests

section Session

inductive SftpReply where
  | version
  | status (id code : ℕ)
  | handle (id : ℕ) (name : Bytes)
  deriving DecidableEq

def sshFxOk : ℕ := 0

def sshFxFailure : ℕ := 4

def sshFxOpUnsupported : ℕ := 8

structure SftpOpenFile where
  origName : Bytes
  perm : ℕ
  body : Bytes
  wireBytes : ℕ
  deriving DecidableEq

/-- The handler without its buffer, with what it has submitted and replied so far. -/
structure SftpSession where
  handles : List (Bytes × SftpOpenFile)
  residentBody : ℕ
  nextHandle : ℕ
  submitted : List Capture
  replies : List SftpReply

def SftpSession.new : SftpSession where
  handles := []
  residentBody := 0
  nextHandle := 0
  submitted := []
  replies := []

/-- `h` and the number of the handle. -/
def handleName (number : ℕ) : Bytes :=
  104 :: digitText 10 number

/-- `capture_job`. -/
def SftpOpenFile.capture (file : SftpOpenFile) (ended : UploadEnd) : Capture where
  origName := file.origName
  body := file.body
  wireSize := file.wireBytes
  ended := ended

namespace SftpSession

variable (session : SftpSession)

def reply (answer : SftpReply) : SftpSession :=
  { session with replies := session.replies ++ [answer] }

/-- Only an open to write or to create is honoured. -/
def writes (pflags : ℕ) : Bool :=
  pflags.testBit 1 || pflags.testBit 3

/-- `handle_open`; the number of the next handle is a `u32`. -/
def handleOpen (id : ℕ) (filename : Bytes) (pflags perm : ℕ) : SftpSession :=
  if !writes pflags then session.reply (.status id sshFxOpUnsupported)
  else if sftpMaxOpenHandles ≤ session.handles.length then session.reply (.status id sshFxFailure)
  else
    let name := handleName session.nextHandle
    let file := ⟨lossy filename, perm, [], 0⟩
    ({ session with
        handles := Keyed.insert name file session.handles
        nextHandle := (session.nextHandle + 1) % 2 ^ 32 }).reply (.handle id name)

/-- What a write may add to a file: the room of the file, and of the session. -/
def storable (file : SftpOpenFile) (data : Bytes) : ℕ :=
  min (min data.length (sftpMaxFileBody - file.body.length))
    (sftpMaxSessionBytes - session.residentBody)

/-- `handle_write`. -/
def handleWrite (id : ℕ) (handle data : Bytes) : SftpSession :=
  match session.handles.lookup (lossy handle) with
  | none => session.reply (.status id sshFxOpUnsupported)
  | some file =>
      let kept := data.take (session.storable file data)
      let written := fun file : SftpOpenFile => { file with
        body := file.body ++ kept, wireBytes := file.wireBytes + data.length }
      ({ session with
          handles := Keyed.update (lossy handle) written session.handles
          residentBody := session.residentBody + kept.length }).reply (.status id sshFxOk)

/-- `handle_close`: a handle that kept nothing leaves no capture. -/
def handleClose (id : ℕ) (handle : Bytes) : SftpSession :=
  match session.handles.lookup (lossy handle) with
  | none => session.reply (.status id sshFxOk)
  | some file =>
      ({ session with
          handles := Keyed.erase (lossy handle) session.handles
          residentBody := session.residentBody - file.body.length
          submitted := session.submitted ++
            if file.body.isEmpty then [] else [file.capture .transferComplete] }).reply
        (.status id sshFxOk)

def handleRequest : SftpRequest → SftpSession
  | .ignored => session
  | .init => session.reply .version
  | .unsupported id => session.reply (.status id sshFxOpUnsupported)
  | .open_ id filename pflags perm => session.handleOpen id filename pflags perm
  | .write id handle data => session.handleWrite id handle data
  | .close id handle => session.handleClose id handle

def handlePacket (packet : Bytes) : SftpSession :=
  session.handleRequest (decodePacket packet)

/-- `abandon` and `cut_off`: every open file that received a byte, by name. -/
def cutOff (reason : CaptureEnd) : SftpSession :=
  let files := ((session.handles.map Prod.snd).filter fun file => 0 < file.wireBytes).insertionSort
    fun one other => ¬ other.origName < one.origName
  { session with
    handles := []
    residentBody := 0
    submitted := session.submitted ++ files.map (·.capture (.transferCut reason)) }

end SftpSession

end Session

section Handler

structure SftpHandler where
  buf : Bytes
  session : SftpSession

/-- The framing of `feed`: a length, and so many bytes. -/
def nextPacket (buf : Bytes) : Parsed Bytes :=
  if buf.length < 4 then .incomplete
  else
    let length := ofBigEndian (buf.take 4)
    if sftpMaxPacketSize < length then .malformed
    else if buf.length < 4 + length then .incomplete
    else .message ((buf.drop 4).take length) (buf.drop (4 + length))

/-- The loop of `feed`; a length that is too large clears the buffer. -/
def SftpHandler.feedLoop : ℕ → SftpHandler → SftpHandler
  | 0, handler => handler
  | fuel + 1, handler =>
      match nextPacket handler.buf with
      | .incomplete => handler
      | .malformed => { handler with buf := [] }
      | .message packet rest => feedLoop fuel ⟨rest, handler.session.handlePacket packet⟩

def SftpHandler.feed (handler : SftpHandler) (data : Bytes) : SftpHandler :=
  let buf := handler.buf ++ data
  feedLoop (buf.length + 1) { handler with buf }

def sftpFed (chunks : List Bytes) : SftpHandler :=
  chunks.foldl SftpHandler.feed ⟨[], .new⟩

/-- The captures submitted for a session that arrives in these chunks.  An ending the session sees
cuts the open files off with it, and the handler is dropped in any case. -/
def sftpCaptures (chunks : List Bytes) (observed : Option CaptureEnd) : List Capture :=
  let session := (sftpFed chunks).session
  let ended := match observed with
    | some reason => session.cutOff reason
    | none => session
  (ended.cutOff .cancelled).submitted

end Handler

section Packets

/-- The packets a `feed` takes from its buffer, and what it leaves there. -/
def takePackets : ℕ → Bytes → List Bytes × Bytes
  | 0, buf => ([], buf)
  | fuel + 1, buf =>
      match nextPacket buf with
      | .incomplete => ([], buf)
      | .malformed => ([], [])
      | .message packet rest =>
          let later := takePackets fuel rest
          (packet :: later.1, later.2)

/-- The packets of a session that arrives in these chunks, from a buffer. -/
def packetsFrom : Bytes → List Bytes → List Bytes
  | _, [] => []
  | buf, chunk :: later =>
      let taken := takePackets ((buf ++ chunk).length + 1) (buf ++ chunk)
      taken.1 ++ packetsFrom taken.2 later

def packetsOf (chunks : List Bytes) : List Bytes :=
  packetsFrom [] chunks

theorem feedLoop_eq (fuel : ℕ) (handler : SftpHandler) :
    handler.feedLoop fuel = ⟨(takePackets fuel handler.buf).2,
      (takePackets fuel handler.buf).1.foldl SftpSession.handlePacket handler.session⟩ := by
  induction fuel generalizing handler with
  | zero => rfl
  | succ fuel ih =>
      rw [SftpHandler.feedLoop, takePackets]
      cases nextPacket handler.buf with
      | incomplete => rfl
      | malformed => rfl
      | message packet rest => exact ih ⟨rest, handler.session.handlePacket packet⟩

/-- The session is what the packets make of it. -/
theorem sftpFed_session (chunks : List Bytes) :
    (sftpFed chunks).session = (packetsOf chunks).foldl SftpSession.handlePacket .new := by
  have from_ : ∀ (chunks : List Bytes) (handler : SftpHandler),
      (chunks.foldl SftpHandler.feed handler).session =
        (packetsFrom handler.buf chunks).foldl SftpSession.handlePacket handler.session := by
    intro chunks
    induction chunks with
    | nil => exact fun _ => rfl
    | cons chunk later ih =>
        intro handler
        rw [List.foldl_cons, ih, packetsFrom, List.foldl_append, SftpHandler.feed, feedLoop_eq]
  exact from_ chunks ⟨[], .new⟩

end Packets

section Encoding

/-- A packet with its length. -/
def framePacket (packet : Bytes) : Bytes :=
  bigEndian 4 packet.length ++ packet

def sftpString (text : Bytes) : Bytes :=
  bigEndian 4 text.length ++ text

/-- An `OPEN` to write, without attributes. -/
def openPacket (name : Bytes) : Bytes :=
  3 :: (bigEndian 4 0 ++ (sftpString name ++ bigEndian 4 2))

def writePacket (handle data : Bytes) : Bytes :=
  6 :: (bigEndian 4 0 ++ (sftpString handle ++ (bigEndian 8 0 ++ sftpString data)))

def closePacket (handle : Bytes) : Bytes :=
  4 :: (bigEndian 4 0 ++ sftpString handle)

theorem readU32_bigEndian {value : ℕ} (small : value < 2 ^ 32) (rest : Bytes) :
    readU32 (bigEndian 4 value ++ rest) = some (value, rest) := by
  have long : ¬ (bigEndian 4 value ++ rest).length < 4 := by
    simp
  rw [readU32, if_neg long, List.take_left' (bigEndian_length 4 value), ofBigEndian_bigEndian]
  congr 2
  exact Nat.mod_eq_of_lt small

theorem readString_sftpString {text : Bytes} (short : text.length < 2 ^ 32) (rest : Bytes) :
    readString (sftpString text ++ rest) = some (text, rest) := by
  rw [readString, sftpString, List.append_assoc, readU32_bigEndian short]
  simp

theorem decode_writePacket {handle data : Bytes} (short : handle.length < 2 ^ 32)
    (small : data.length < 2 ^ 32) :
    decodePacket (writePacket handle data) = .write 0 handle data := by
  rw [writePacket, decodePacket, if_neg (by decide), readU32_bigEndian (by decide)]
  dsimp only
  rw [if_neg (by decide), if_pos rfl, decodeWrite, readString_sftpString short]
  dsimp only
  rw [if_neg (by simp), List.drop_left' (bigEndian_length 8 0)]
  have read := readString_sftpString small []
  rw [List.append_nil] at read
  rw [read]

theorem decode_closePacket {handle : Bytes} (short : handle.length < 2 ^ 32) :
    decodePacket (closePacket handle) = .close 0 handle := by
  rw [closePacket, decodePacket, if_neg (by decide), readU32_bigEndian (by decide)]
  dsimp only
  rw [if_neg (by decide), if_neg (by decide), if_pos rfl, decodeClose]
  have read := readString_sftpString short []
  rw [List.append_nil] at read
  rw [read]

/-- A packet in a chunk of its own is taken as it is. -/
theorem takePackets_frame {packet : Bytes} (small : packet.length ≤ sftpMaxPacketSize)
    (fuel : ℕ) : takePackets (fuel + 2) (framePacket packet) = ([packet], []) := by
  have taken : nextPacket (framePacket packet) = .message packet [] := by
    have length : packet.length % 256 ^ 4 = packet.length := by
      apply Nat.mod_eq_of_lt
      rw [sftpMaxPacketSize] at small
      omega
    rw [nextPacket, framePacket, List.take_left' (bigEndian_length 4 _), ofBigEndian_bigEndian,
      length, if_neg (Nat.not_lt.mpr small)]
    simp
  rw [takePackets, taken]
  rfl

theorem packetsOf_frames {packets : List Bytes}
    (small : ∀ packet ∈ packets, packet.length ≤ sftpMaxPacketSize) :
    packetsOf (packets.map framePacket) = packets := by
  rw [packetsOf]
  induction packets with
  | nil => rfl
  | cons packet later ih =>
      have fuel : (framePacket packet).length + 1 = packet.length + 3 + 2 := by
        simp [framePacket]
        omega
      rw [List.map_cons, packetsFrom, List.nil_append, fuel,
        takePackets_frame (small packet List.mem_cons_self)]
      rw [ih fun other member => small other (List.mem_cons_of_mem _ member)]
      rfl

end Encoding

end Propolis.Ssh
