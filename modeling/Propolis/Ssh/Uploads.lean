import Propolis.Ssh.Scp
import Propolis.Ssh.Sftp

/-!
# Uploads over SSH

What the packets of an SFTP session say, read without any cap: the files that were
opened, all bytes written to each, and which were closed.  The handler holds the first
bytes of each and hands every file over once, as long as the session's cap leaves room
for what a file could still take.
-/

namespace Propolis.Ssh

open Bytes Sensor

section Reading

/-- A file as the packets have it. -/
structure SftpFile where
  name : Bytes
  perm : ℕ
  data : Bytes
  deriving DecidableEq

structure SftpFiles where
  open_ : List (Bytes × SftpFile)
  closed : List SftpFile
  nextHandle : ℕ
  deriving DecidableEq

def SftpFiles.none_ : SftpFiles := ⟨[], [], 0⟩

def SftpFile.append (data : Bytes) (file : SftpFile) : SftpFile :=
  { file with data := file.data ++ data }

def SftpFiles.handleRequest (files : SftpFiles) : SftpRequest → SftpFiles
  | .open_ _ filename pflags perm =>
      if SftpSession.writes pflags ∧ files.open_.length < sftpMaxOpenHandles then
        { files with
          open_ := Keyed.insert (handleName files.nextHandle) ⟨lossy filename, perm, []⟩ files.open_
          nextHandle := (files.nextHandle + 1) % 2 ^ 32 }
      else files
  | .write _ handle data =>
      { files with open_ := Keyed.update (lossy handle) (SftpFile.append data) files.open_ }
  | .close _ handle =>
      match files.open_.lookup (lossy handle) with
      | none => files
      | some file =>
          { files with
            open_ := Keyed.erase (lossy handle) files.open_, closed := files.closed ++ [file] }
  | .ignored | .init | .unsupported _ => files

def sftpFiles (packets : List Bytes) : SftpFiles :=
  packets.foldl (fun files packet => files.handleRequest (decodePacket packet)) .none_

def SftpFile.capture (file : SftpFile) (ended : UploadEnd) : Capture where
  origName := file.name
  body := file.data.take sftpMaxFileBody
  wireSize := file.data.length
  ended := ended

/-- The files of which a byte arrived. -/
def received (files : List SftpFile) : List SftpFile :=
  files.filter fun file => file.data ≠ []

end Reading

section Conditions

/-- The handle that would be opened next is not open: fewer than `2 ^ 32` were opened since. -/
def SftpSession.opensFresh (session : SftpSession) (packet : Bytes) : Bool :=
  match decodePacket packet with
  | .open_ .. => (session.handles.lookup (handleName session.nextHandle)).isNone
  | _ => true

/-- The session has room for all that the file can take of a write. -/
def SftpSession.hasRoom (session : SftpSession) (packet : Bytes) : Bool :=
  match decodePacket packet with
  | .write _ handle data => (session.handles.lookup (lossy handle)).all fun file =>
      min data.length (sftpMaxFileBody - file.body.length) ≤
        sftpMaxSessionBytes - session.residentBody
  | _ => true

end Conditions

variable {session : SftpSession}

section Bounds

/-- The bytes held are counted, and within the caps. -/
structure SftpSession.Bounded (session : SftpSession) : Prop where
  unique : Keyed.Unique session.handles
  counted : session.residentBody = (session.handles.map fun entry => entry.2.body.length).sum
  few : session.handles.length ≤ sftpMaxOpenHandles
  within : session.residentBody ≤ sftpMaxSessionBytes

variable (bounded : session.Bounded)
include bounded

theorem SftpSession.Bounded.reply (answer : SftpReply) : (session.reply answer).Bounded :=
  { bounded with }

theorem SftpSession.Bounded.handleOpen (id : ℕ) (filename : Bytes)
    (pflags perm : ℕ) (fresh : session.handles.lookup (handleName session.nextHandle) = none) :
    (session.handleOpen id filename pflags perm).Bounded := by
  rw [SftpSession.handleOpen]
  split
  · exact bounded.reply _
  split
  · exact bounded.reply _
  case isFalse room =>
    apply SftpSession.Bounded.reply
    have added : Keyed.insert (handleName session.nextHandle) ⟨lossy filename, perm, [], 0⟩
        session.handles = session.handles ++
          [(handleName session.nextHandle, ⟨lossy filename, perm, [], 0⟩)] := by
      rw [Keyed.insert, Keyed.erase_of_absent (Keyed.lookup_eq_none.mp fresh)]
    refine ⟨bounded.unique.insert _ _, ?_, ?_, bounded.within⟩
    · rw [added]
      simpa using bounded.counted
    · rw [added, List.length_append]
      exact Nat.lt_of_not_le room

theorem SftpSession.Bounded.handleWrite (id : ℕ)
    (handle data : Bytes) : (session.handleWrite id handle data).Bounded := by
  rw [SftpSession.handleWrite]
  split
  · exact bounded.reply _
  case h_2 file found =>
    apply SftpSession.Bounded.reply
    obtain ⟨front, back, split, before, behind⟩ := Keyed.split_of_lookup bounded.unique found
    refine ⟨?_, ?_, ?_, ?_⟩
    · dsimp only
      exact Keyed.Unique.update bounded.unique _ _
    · have counted := bounded.counted
      rw [split] at counted ⊢
      rw [Keyed.update_split before behind, counted]
      simp only [List.map_append, List.map_cons, List.sum_append, List.sum_cons,
        List.length_append]
      omega
    · rw [Keyed.update_length]
      exact bounded.few
    · have within := bounded.within
      dsimp only
      rw [List.length_take, SftpSession.storable]
      omega

theorem SftpSession.Bounded.handleClose (id : ℕ) (handle : Bytes) :
    (session.handleClose id handle).Bounded := by
  rw [SftpSession.handleClose]
  split
  · exact bounded.reply _
  case h_2 file found =>
    apply SftpSession.Bounded.reply
    obtain ⟨front, back, split, before, behind⟩ := Keyed.split_of_lookup bounded.unique found
    refine ⟨bounded.unique.erase _, ?_, ?_, ?_⟩
    · have counted := bounded.counted
      rw [split] at counted ⊢
      rw [Keyed.erase_split before behind, counted]
      simp only [List.map_append, List.map_cons, List.sum_append, List.sum_cons]
      omega
    · exact (List.length_filter_le _ _).trans bounded.few
    · exact (Nat.sub_le _ _).trans bounded.within

theorem SftpSession.Bounded.handlePacket {packet : Bytes}
    (fresh : session.opensFresh packet = true) : (session.handlePacket packet).Bounded := by
  rw [SftpSession.opensFresh] at fresh
  rw [SftpSession.handlePacket]
  generalize decodePacket packet = request at fresh
  cases request with
  | ignored => exact bounded
  | init | unsupported => exact bounded.reply _
  | open_ id filename pflags perm =>
      exact bounded.handleOpen id filename pflags perm (by simpa using fresh)
  | write id handle data => exact bounded.handleWrite id handle data
  | close id handle => exact bounded.handleClose id handle

end Bounds

section Tracking

variable {files : SftpFiles}

/-- A file as the handler holds it. -/
def SftpFile.held (file : SftpFile) : SftpOpenFile where
  origName := file.name
  perm := file.perm
  body := file.data.take sftpMaxFileBody
  wireBytes := file.data.length

/-- The handler holds the open files, and has handed over the closed ones. -/
structure SftpSession.Tracks (session : SftpSession) (files : SftpFiles) : Prop where
  handles : session.handles = files.open_.map fun entry => (entry.1, entry.2.held)
  nextHandle : session.nextHandle = files.nextHandle
  submitted : session.submitted = (received files.closed).map (·.capture .transferComplete)

theorem SftpSession.Tracks.reply (tracks : session.Tracks files) (answer : SftpReply) :
    (session.reply answer).Tracks files :=
  { tracks with }

theorem held_append (file : SftpFile) (data : Bytes) :
    (file.append data).held = { file.held with
      body := file.held.body ++
        data.take (min data.length (sftpMaxFileBody - file.held.body.length))
      wireBytes := file.held.wireBytes + data.length } := by
  have kept : (file.data ++ data).take sftpMaxFileBody = file.data.take sftpMaxFileBody ++
      data.take (min data.length (sftpMaxFileBody - (file.data.take sftpMaxFileBody).length)) := by
    rw [List.take_append, List.length_take, Nat.min_comm data.length, ← List.take_take,
      List.take_length]
    congr 2
    omega
  simp [SftpFile.held, SftpFile.append, kept]

variable (tracks : session.Tracks files)
include tracks

theorem SftpSession.Tracks.lookup (key : Bytes) :
    session.handles.lookup key = (files.open_.lookup key).map SftpFile.held := by
  rw [tracks.handles]
  exact Keyed.lookup_map _ _ _

theorem SftpSession.Tracks.handleOpen (id : ℕ) (filename : Bytes) (pflags perm : ℕ) :
    (session.handleOpen id filename pflags perm).Tracks
      (files.handleRequest (.open_ id filename pflags perm)) := by
  have length : session.handles.length = files.open_.length := by
    rw [tracks.handles, List.length_map]
  rw [SftpSession.handleOpen, SftpFiles.handleRequest, length]
  by_cases writes : SftpSession.writes pflags = true
  · by_cases full : sftpMaxOpenHandles ≤ files.open_.length
    · rw [if_neg (by simp [writes]), if_pos full, if_neg (fun both => by omega)]
      exact tracks.reply _
    · rw [if_neg (by simp [writes]), if_neg full, if_pos ⟨writes, Nat.lt_of_not_le full⟩]
      apply SftpSession.Tracks.reply
      refine ⟨?_, ?_, tracks.submitted⟩
      · rw [tracks.nextHandle, tracks.handles, Keyed.insert, Keyed.insert, List.map_append,
          Keyed.erase_map]
        rfl
      · exact congrArg (fun next => (next + 1) % 2 ^ 32) tracks.nextHandle
  · rw [if_pos (by simpa using writes), if_neg (fun both => writes both.1)]
    exact tracks.reply _

theorem SftpSession.Tracks.handleWrite (bounded : session.Bounded) (id : ℕ) (handle data : Bytes)
    (room : ∀ file, session.handles.lookup (lossy handle) = some file →
      min data.length (sftpMaxFileBody - file.body.length) ≤
        sftpMaxSessionBytes - session.residentBody) :
    (session.handleWrite id handle data).Tracks (files.handleRequest (.write id handle data)) := by
  rw [SftpSession.handleWrite]
  cases found : session.handles.lookup (lossy handle) with
  | none =>
      have absent : files.open_.lookup (lossy handle) = none := by
        simpa [tracks.lookup] using found
      rw [SftpFiles.handleRequest, Keyed.update_of_absent (Keyed.lookup_eq_none.mp absent)]
      exact tracks.reply _
  | some held =>
      have there := found
      rw [tracks.lookup] at there
      obtain ⟨file, fileFound, rfl⟩ := Option.map_eq_some_iff.mp there
      have unique : Keyed.Unique files.open_ := by
        have keys := bounded.unique
        rw [Keyed.Unique, tracks.handles, List.map_map] at keys
        exact keys
      obtain ⟨front, back, split, before, behind⟩ := Keyed.split_of_lookup unique fileFound
      have fits : session.storable file.held data =
          min data.length (sftpMaxFileBody - file.held.body.length) := by
        exact Nat.min_eq_left (room _ found)
      apply SftpSession.Tracks.reply
      refine ⟨?_, tracks.nextHandle, tracks.submitted⟩
      dsimp only [SftpFiles.handleRequest]
      rw [tracks.handles, split, Keyed.update_split before behind, List.map_append, List.map_cons,
        List.map_append, List.map_cons, held_append, fits, Keyed.update_split]
      · intro entry member
        obtain ⟨other, otherMember, rfl⟩ := List.mem_map.mp member
        exact before other otherMember
      · intro entry member
        obtain ⟨other, otherMember, rfl⟩ := List.mem_map.mp member
        exact behind other otherMember

theorem SftpSession.Tracks.handleClose (id : ℕ) (handle : Bytes) :
    (session.handleClose id handle).Tracks (files.handleRequest (.close id handle)) := by
  rw [SftpSession.handleClose, SftpFiles.handleRequest, tracks.lookup]
  cases files.open_.lookup (lossy handle) with
  | none => exact tracks.reply _
  | some file =>
      apply SftpSession.Tracks.reply
      refine ⟨?_, tracks.nextHandle, ?_⟩
      · rw [tracks.handles, Keyed.erase_map]
      · rw [tracks.submitted, received, received, List.filter_append]
        by_cases empty : file.data = []
        · simp [empty, SftpFile.held]
        · have kept : (file.data.take sftpMaxFileBody) ≠ [] := by
            intro nothing
            rcases List.take_eq_nil_iff.mp nothing with zero | none_
            · cases zero
            · exact empty none_
          simp [empty, SftpFile.held, kept, SftpOpenFile.capture, SftpFile.capture]

theorem SftpSession.Tracks.handlePacket
    (bounded : session.Bounded) {packet : Bytes} (room : session.hasRoom packet = true) :
    (session.handlePacket packet).Tracks (files.handleRequest (decodePacket packet)) := by
  rw [SftpSession.hasRoom] at room
  rw [SftpSession.handlePacket]
  generalize decodePacket packet = request at room
  cases request with
  | ignored => exact tracks
  | init | unsupported => exact tracks.reply _
  | open_ id filename pflags perm => exact tracks.handleOpen id filename pflags perm
  | write =>
      apply tracks.handleWrite bounded
      intro file found
      simpa [found] using room
  | close id handle => exact tracks.handleClose id handle

/-- What is open is handed over when the session is cut off, in the order of the names. -/
theorem SftpSession.Tracks.cutOff (reason : CaptureEnd) :
    ∃ cut, (session.cutOff reason).submitted =
        (received files.closed).map (·.capture .transferComplete) ++ cut ∧
      cut.Perm ((received (files.open_.map Prod.snd)).map (·.capture (.transferCut reason))) := by
  refine ⟨_, congrArg (· ++ _) tracks.submitted, ?_⟩
  apply ((List.perm_insertionSort _ _).map _).trans
  have same : ((session.handles.map Prod.snd).filter fun file => 0 < file.wireBytes) =
      (received (files.open_.map Prod.snd)).map SftpFile.held := by
    rw [tracks.handles, received, List.map_map, List.filter_map]
    have kept : ((fun file : SftpOpenFile => decide (0 < file.wireBytes)) ∘
        (Prod.snd ∘ fun entry : Bytes × SftpFile => (entry.1, entry.2.held))) =
          ((fun file : SftpFile => decide (file.data ≠ [])) ∘ Prod.snd) := by
      funext entry
      simp [SftpFile.held, List.length_pos_iff]
    rw [kept, List.filter_map, List.map_map]
    rfl
  rw [same, List.map_map]
  exact List.Perm.refl _

end Tracking

section Results

/-- The session and its reading side by side, over packets that leave room. -/
theorem sftp_tracks {packets : List Bytes}
    (fresh : Run.meets SftpSession.handlePacket SftpSession.opensFresh .new packets = true)
    (room : Run.meets SftpSession.handlePacket SftpSession.hasRoom .new packets = true) :
    (packets.foldl SftpSession.handlePacket .new).Tracks (sftpFiles packets) := by
  have from_ : ∀ (packets : List Bytes) (session : SftpSession) (files : SftpFiles),
      Run.meets SftpSession.handlePacket SftpSession.opensFresh session packets = true →
      Run.meets SftpSession.handlePacket SftpSession.hasRoom session packets = true →
      session.Bounded → session.Tracks files →
      (packets.foldl SftpSession.handlePacket session).Tracks (packets.foldl
        (fun files packet => files.handleRequest (decodePacket packet)) files) := by
    intro packets
    induction packets with
    | nil => exact fun _ _ _ _ _ tracks => tracks
    | cons packet later ih =>
        intro session files fresh room bounded tracks
        simp only [Run.meets, Bool.and_eq_true] at fresh room
        exact ih _ _ fresh.2 room.2 (bounded.handlePacket fresh.1)
          (tracks.handlePacket bounded room.1)
  refine from_ packets .new .none_ fresh room ?_ ⟨rfl, rfl, rfl⟩
  exact ⟨List.nodup_nil, rfl, Nat.zero_le _, Nat.zero_le _⟩

/-- Cutting off twice is cutting off once. -/
theorem sftpCaptures_eq (chunks : List Bytes) (observed : Option CaptureEnd) :
    sftpCaptures chunks observed =
      (((packetsOf chunks).foldl SftpSession.handlePacket .new).cutOff
        (observed.getD .cancelled)).submitted := by
  rw [← sftpFed_session]
  cases observed with
  | none => rfl
  | some reason => exact List.append_nil _

end Results

section Crowding

/-- A block of the largest writes. -/
def crowdBlock : Bytes :=
  List.replicate 200000 0

/-- Two files fill the session, and a third is written to and closed. -/
def crowdedPackets : List Bytes :=
  [openPacket (ofText "a"), openPacket (ofText "b"), openPacket (ofText "c")] ++
    (List.replicate 50 (writePacket (handleName 0) crowdBlock) ++
      (List.replicate 50 (writePacket (handleName 1) crowdBlock) ++
        [writePacket (handleName 2) (ofText "x"), closePacket (handleName 2)]))

/-- So many blocks are in the first two files, and nothing is in the third. -/
def crowdFiles (blocks : ℕ → ℕ) : SftpFiles where
  open_ := [
    (handleName 0, ⟨ofText "a", sftpDefaultPerm, List.replicate (blocks 0 * 200000) 0⟩),
    (handleName 1, ⟨ofText "b", sftpDefaultPerm, List.replicate (blocks 1 * 200000) 0⟩),
    (handleName 2, ⟨ofText "c", sftpDefaultPerm, []⟩)]
  closed := []
  nextHandle := 3

structure Crowd (session : SftpSession) (blocks : ℕ → ℕ) : Prop where
  bounded : session.Bounded
  tracks : session.Tracks (crowdFiles blocks)

variable {blocks : ℕ → ℕ} {number : ℕ}

theorem handleName_plain : ∀ number < 3,
    lossy (handleName number) = handleName number ∧ (handleName number).length ≤ 10 ∧
      ∀ other < 3, handleName number = handleName other → number = other := by
  decide +kernel

theorem crowdBlock_length : crowdBlock.length = 200000 :=
  List.length_replicate

theorem append_crowdBlock (count : ℕ) :
    List.replicate (count * 200000) 0 ++ crowdBlock = List.replicate ((count + 1) * 200000) 0 := by
  rw [crowdBlock, List.replicate_append_replicate, Nat.succ_mul]

theorem decode_crowdBlock (known : number < 3) :
    decodePacket (writePacket (handleName number) crowdBlock) =
      .write 0 (handleName number) crowdBlock := by
  have short := (handleName_plain number known).2.1
  apply decode_writePacket (by omega)
  rw [crowdBlock_length]
  omega

/-- A block goes into one of the first two files. -/
theorem crowdFiles_write (filled : number < 2) :
    (crowdFiles blocks).handleRequest (.write 0 (handleName number) crowdBlock) =
      crowdFiles (Function.update blocks number (blocks number + 1)) := by
  have plain := (handleName_plain number (by omega)).1
  have apart : ∀ other < 3, other ≠ number → handleName other ≠ handleName number :=
    fun other known different same =>
      different ((handleName_plain other known).2.2 number (by omega) same)
  simp only [SftpFiles.handleRequest, crowdFiles, Keyed.update, List.map_cons, List.map_nil, plain]
  rw [if_neg (apart 2 (by decide) (by omega))]
  rcases (by omega : number = 0 ∨ number = 1) with rfl | rfl
  · rw [if_pos rfl, if_neg (apart 1 (by decide) (by decide))]
    simp [SftpFile.append, append_crowdBlock]
  · rw [if_pos rfl, if_neg (apart 0 (by decide) (by decide))]
    simp [SftpFile.append, append_crowdBlock]

/-- The session holds all that was written. -/
theorem Crowd.resident (crowd : Crowd session blocks) : session.residentBody =
    min sftpMaxFileBody (blocks 0 * 200000) + min sftpMaxFileBody (blocks 1 * 200000) := by
  rw [crowd.bounded.counted, crowd.tracks.handles]
  simp [crowdFiles, SftpFile.held]

/-- Blocks go into one of the first two files, while there is room. -/
theorem Crowd.fill (crowd : Crowd session blocks) (filled : number < 2) (more : ℕ)
    (room : blocks 0 + blocks 1 + more ≤ 100) :
    Crowd ((List.replicate more (writePacket (handleName number) crowdBlock)).foldl
        SftpSession.handlePacket session) (Function.update blocks number (blocks number + more)) ∧
      (List.replicate more (writePacket (handleName number) crowdBlock)).foldl
          (fun files packet => files.handleRequest (decodePacket packet)) (crowdFiles blocks) =
        crowdFiles (Function.update blocks number (blocks number + more)) := by
  induction more generalizing session blocks with
  | zero => simpa using crowd
  | succ more ih =>
      have decoded := @decode_crowdBlock number (by omega)
      have resident := crowd.resident
      have written : Crowd (session.handlePacket (writePacket (handleName number) crowdBlock))
          (Function.update blocks number (blocks number + 1)) := by
        refine ⟨crowd.bounded.handlePacket ?_, ?_⟩
        · rw [SftpSession.opensFresh, decoded]
        · rw [← crowdFiles_write filled, ← decoded]
          apply crowd.tracks.handlePacket crowd.bounded
          simp only [SftpSession.hasRoom, decoded, Option.all_eq_true, decide_eq_true_eq,
            crowdBlock_length, sftpMaxSessionBytes]
          intro file found
          omega
      have total : Function.update blocks number (blocks number + 1) 0 +
          Function.update blocks number (blocks number + 1) 1 = blocks 0 + blocks 1 + 1 := by
        rcases (by omega : number = 0 ∨ number = 1) with rfl | rfl <;> simp <;> omega
      have next := ih written (by omega)
      rw [Function.update_self, Function.update_idem, Nat.add_assoc, Nat.add_comm 1] at next
      rw [List.replicate_succ, List.foldl_cons, List.foldl_cons, decoded, crowdFiles_write filled]
      exact next

/-- The session has no room for the byte of the third file, and the file leaves nothing. -/
theorem Crowd.third_lost (crowd : Crowd session blocks)
    (full : session.residentBody = sftpMaxSessionBytes) :
    let packets := [writePacket (handleName 2) (ofText "x"), closePacket (handleName 2)]
    (packets.foldl SftpSession.handlePacket session).submitted = [] ∧
      (∀ entry ∈ (packets.foldl SftpSession.handlePacket session).handles,
        entry.2.origName ≠ ofText "c") ∧
      (packets.foldl (fun files packet => files.handleRequest (decodePacket packet))
        (crowdFiles blocks)).closed = [⟨ofText "c", sftpDefaultPerm, ofText "x"⟩] := by
  intro packets
  have write := @decode_writePacket (handleName 2) (ofText "x") (by decide +kernel)
    (by decide +kernel)
  have close := @decode_closePacket (handleName 2) (by decide +kernel)
  have plain := (handleName_plain 2 (by decide)).1
  have apart : handleName 0 ≠ handleName 2 ∧ handleName 1 ≠ handleName 2 ∧
      (handleName 2 == handleName 0) = false ∧ (handleName 2 == handleName 1) = false := by
    decide +kernel
  have names : ofText "a" ≠ ofText "c" ∧ ofText "b" ≠ ofText "c" := by decide +kernel
  obtain ⟨first, second, handles, firstName, secondName⟩ : ∃ first second : SftpOpenFile,
      session.handles = [(handleName 0, first), (handleName 1, second),
        (handleName 2, ⟨ofText "c", sftpDefaultPerm, [], 0⟩)] ∧
      first.origName = ofText "a" ∧ second.origName = ofText "b" :=
    ⟨_, _, crowd.tracks.handles, rfl, rfl⟩
  have submitted : session.submitted = [] := crowd.tracks.submitted
  have closing : (packets.foldl SftpSession.handlePacket session).submitted = [] ∧
      (packets.foldl SftpSession.handlePacket session).handles =
        [(handleName 0, first), (handleName 1, second)] := by
    simp [packets, SftpSession.handlePacket, write, close, SftpSession.handleRequest,
      SftpSession.handleWrite, SftpSession.handleClose, plain, List.lookup_cons,
      SftpSession.storable, full, SftpSession.reply, submitted, handles, Keyed.erase,
      Keyed.update, apart]
  rw [closing.2]
  refine ⟨closing.1, by simpa [firstName, secondName] using names, ?_⟩
  simp [packets, write, close, SftpFiles.handleRequest, plain, crowdFiles, Keyed.update, apart,
    List.lookup_cons, SftpFile.append]

theorem crowd_opened :
    Crowd ([openPacket (ofText "a"), openPacket (ofText "b"), openPacket (ofText "c")].foldl
      SftpSession.handlePacket .new) (fun _ => 0) := by
  refine ⟨⟨?_, rfl, by decide +kernel, Nat.zero_le _⟩, ⟨by decide +kernel, rfl, rfl⟩⟩
  change (List.map Prod.fst _).Nodup
  decide +kernel

end Crowding

end Propolis.Ssh
