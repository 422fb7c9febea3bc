import Updown.Lib.Transition
import Updown.Web.Agent
import Updown.Web.Filename

set_option autoImplicit false

/-! # The agent and its listeners

The handlers of `web/agent.rs` as a system: downloads and uploads are registered and run in tasks of
their own, a task reports its end in the list of transfers and announces it on a broadcast channel,
and a WebSocket client subscribes to the channel, gets the list once and then the announcements.
-/

namespace Updown.Web

open FilePath (Name)
open Transition

/-! ## Requests -/

structure DownloadReq where
  server : String
  filename : Name
  fileSize : ℕ
  sessionId : ℕ
  key : String
  totalBlocks : ℕ
  blockSize : Option ℕ

structure SendReq where
  server : String
  filePath : String
  rateMbps : Option ℕ

/-- What the file system says about the file of a `SendReq`. -/
structure LocalFile where
  canonicalizes : Bool
  isThere : Bool
  metadata : Except String ℕ
  fileName : String

/-- An error of the agent: a status code and a text. -/
abbrev AgentError := ℕ × String

/-- The key of a request; `hexDecode` is `hex::decode`, with its error as it is shown. -/
def downloadKey (hexDecode : String → Except String Bytes) (text : String) :
    Except AgentError Bytes :=
  match hexDecode text with
  | .error e => .error (400, e)
  | .ok bytes =>
      if bytes.length ≠ 32 then .error (400, "Key must be 32 bytes") else .ok bytes

/-- `start_download` up to the registration; `isAddr` says whether a text parses as a
`SocketAddr`. The parent of the target is the download directory itself, since the sanitized name is
a single component, so the check of canonical paths lets it pass. -/
def startDownload (hexDecode : String → Except String Bytes) (isAddr : String → Bool)
    (transferId : String) (req : DownloadReq) : Except AgentError TransferStatus :=
  match sanitizeDownloadFilename req.filename with
  | none => .error (400, "Invalid or unsafe filename")
  | some filename =>
      match downloadKey hexDecode req.key with
      | .error e => .error e
      | .ok _ =>
          if isAddr req.server then
            .ok (.download transferId (String.ofList filename) req.fileSize)
          else .error (400, "Invalid server address format")

/-- `start_send` up to the registration. -/
def startSend (isAddr : String → Bool) (file : LocalFile) (transferId : String) (req : SendReq) :
    Except AgentError TransferStatus :=
  if file.canonicalizes = false then .error (400, "File not found or inaccessible")
  else if file.isThere = false then .error (400, "File not found")
  else if isAddr req.server = false then .error (400, "Invalid server address format")
  else
    match file.metadata with
    | .error e => .error (400, e)
    | .ok size => .ok (.upload transferId file.fileName size)

/-! ## Reports and announcements -/

/-- An announcement on the channel. -/
structure ProgressEvent where
  transferId : String
  bytesTransferred : ℕ
  rateMbps : ℚ
  progressPct : ℚ
  status : String

/-- What a task announces when its transfer has ended; `result` is the size and the rate. A failed
upload is not announced. -/
def announcement (t : TransferStatus) : Except String (ℕ × ℚ) → Option ProgressEvent
  | .ok (bytes, rate) => some ⟨t.id, bytes, rate, 100, "completed"⟩
  | .error e => if t.direction = "download" then some ⟨t.id, 0, 0, 0, "failed: " ++ e⟩ else none

/-- The first entry with the id gets the report. -/
def reportTo (tid : String) (result : Except String (ℕ × ℚ)) :
    List TransferStatus → List TransferStatus
  | [] => []
  | t :: ts =>
      if t.id = tid then t.report (result.map Prod.fst) :: ts else t :: reportTo tid result ts

/-- `broadcast::channel(256)`. -/
def PROGRESS_CAPACITY : ℕ := 256

/-- A WebSocket client. -/
structure Client where
  /-- The list it was sent, if it was. -/
  snapshot : Option (List TransferStatus)
  /-- The number of the announcement that comes next. -/
  next : ℕ
  /-- It has lagged, and the loop waits for a message. -/
  stalled : Bool
  /-- The announcements it was sent. -/
  received : List ProgressEvent
  /-- The announcements that were overwritten; nothing depends on them. -/
  missed : List ProgressEvent

structure AgentState where
  activeTransfers : List TransferStatus
  /-- The ids of the transfers whose tasks run. -/
  running : List String
  /-- Everything announced so far. -/
  sent : List ProgressEvent
  clients : ℕ → Option Client

inductive AgentEvent where
  | download (transferId : String) (req : DownloadReq)
  | send (file : LocalFile) (transferId : String) (req : SendReq)
  /-- The task of a transfer ends; `none` is a panic. -/
  | ends (tid : String) (result : Option (Except String (ℕ × ℚ)))
  | subscribe (c : ℕ)
  | snapshot (c : ℕ)
  /-- The loop of a client receives an announcement, or that it has lagged. -/
  | recv (c : ℕ) (sendOk : Bool)
  /-- A message of a client, or the end of its connection. -/
  | message (c : ℕ) (closes : Bool)

namespace AgentState

/-- The agent after its start. -/
def start : AgentState :=
  { activeTransfers := [], running := [], sent := [], clients := fun _ => none }

def register (s : AgentState) : Except AgentError TransferStatus → AgentState
  | .error _ => s
  | .ok t => { s with activeTransfers := s.activeTransfers ++ [t], running := s.running ++ [t.id] }

def setClient (s : AgentState) (c : ℕ) (client : Option Client) : AgentState :=
  { s with clients := Function.update s.clients c client }

/-- The end of a task, under the lock of the list. -/
def endTask (s : AgentState) (tid : String) (result : Option (Except String (ℕ × ℚ))) :
    AgentState :=
  let s := { s with running := s.running.erase tid }
  match result with
  | none => s
  | some result =>
      match s.activeTransfers.find? fun t => t.id == tid with
      | none => s
      | some t =>
          { s with activeTransfers := reportTo tid result s.activeTransfers,
                   sent := s.sent ++ (announcement t result).toList }

/-- `rx.recv()` of a client whose list has been sent. -/
def recv (s : AgentState) (c : ℕ) (client : Client) (sendOk : Bool) : Option AgentState :=
  match s.sent[client.next]? with
  | none => none
  | some e =>
      if PROGRESS_CAPACITY < s.sent.length - client.next then
        -- the oldest announcement that is kept comes next
        let next := s.sent.length - PROGRESS_CAPACITY
        some (s.setClient c (some { client with
          next := next, stalled := true,
          missed := client.missed ++ (s.sent.take next).drop client.next }))
      else if sendOk then
        some (s.setClient c (some { client with
          next := client.next + 1, received := client.received ++ [e] }))
      else some (s.setClient c none)

def step (hexDecode : String → Except String Bytes) (isAddr : String → Bool) (s : AgentState) :
    AgentEvent → Option AgentState
  | .download transferId req => some (s.register (startDownload hexDecode isAddr transferId req))
  | .send file transferId req => some (s.register (startSend isAddr file transferId req))
  | .ends tid result => if tid ∈ s.running then some (s.endTask tid result) else none
  | .subscribe c =>
      match s.clients c with
      | some _ => none
      | none => some (s.setClient c (some ⟨none, s.sent.length, false, [], []⟩))
  | .snapshot c =>
      match s.clients c with
      | some { snapshot := none, next, stalled, received, missed } =>
          some (s.setClient c (some ⟨some s.activeTransfers, next, stalled, received, missed⟩))
      | _ => none
  | .recv c sendOk =>
      match s.clients c with
      | some client =>
          if client.snapshot.isSome && !client.stalled then s.recv c client sendOk else none
      | none => none
  | .message c closes =>
      match s.clients c with
      | some client =>
          if client.snapshot.isSome then
            some (s.setClient c (if closes then none else some { client with stalled := false }))
          else none
      | none => none

end AgentState

end Updown.Web
