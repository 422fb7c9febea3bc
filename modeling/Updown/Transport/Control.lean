import Updown.Basic.Crates
import Updown.Lib.Bincode
import Updown.Lib.Chunks

set_option autoImplicit false

/-! # The control channel

`send_msg` and `recv_msg` of `transport/control.rs`: a message is the `bincode` of a
`ControlMessage` behind its length, a little-endian `u32`. The receiver refuses a length above
10 MiB, the sender writes what it gets, as far as the flow control of the stream lets it.
`arrives_iff` says which sequences of messages arrive.
-/

namespace Updown

open Bincode

namespace Control

/-- A control message that `bincode` represents: its numbers and hashes are of the source's
types. -/
structure Message (B : Format ControlMessage) where
  content : ControlMessage
  typed : B.Valid content

/-! ## Sending -/

/-- The sending half of a stream: what has been written, and how many bytes flow control lets
through in all. -/
structure SendStream where
  written : Bytes
  limit : ℕ

/-- `SendStream::write_all`. It waits for the other end, and does not return `Ok` when that does not
read enough. -/
def SendStream.writeAll (s : SendStream) (data : Bytes) : Option SendStream :=
  if s.written.length + data.length ≤ s.limit then some { s with written := s.written ++ data }
  else none

/-- `data.len() as u32`, as four bytes. -/
def lenPrefix (data : Bytes) : Bytes := LittleEndian.encode 4 (data.length % 2 ^ 32)

section

variable (B : Format ControlMessage)

/-- `ControlConnection::send_msg`. -/
def SendStream.sendMsg (s : SendStream) (msg : ControlMessage) : Option SendStream := do
  let data := B.put msg
  let s ← s.writeAll (lenPrefix data)
  s.writeAll data

def SendStream.sendMsgs (s : SendStream) (msgs : List ControlMessage) : Option SendStream :=
  msgs.foldlM (SendStream.sendMsg B) s

/-! ## Receiving -/

inductive RecvError where
  /-- The stream ended inside a message. -/
  | finishedEarly
  /-- "control message too large: {} bytes". -/
  | tooLarge (len : ℕ)
  | malformed
  deriving DecidableEq

/-- The largest message `recv_msg` takes, 10 MiB. -/
def MAX_CONTROL_MESSAGE : ℕ := 10 * 1024 * 1024

def readExact (chunks : List Bytes) (n : ℕ) : Except RecvError (Bytes × List Bytes) :=
  (Chunks.readExact chunks n).elim (.error .finishedEarly) .ok

def decode (data : Bytes) : Except RecvError ControlMessage :=
  (B.read data).elim (.error .malformed) .ok

/-- `ControlConnection::recv_msg`, on the chunks of the stream that are still to come. -/
def recvMsg (chunks : List Bytes) : Except RecvError (ControlMessage × List Bytes) := do
  let (lenBuf, chunks) ← readExact chunks 4
  let len := LittleEndian.decode lenBuf
  if MAX_CONTROL_MESSAGE < len then .error (.tooLarge len)
  else do
    let (data, chunks) ← readExact chunks len
    let msg ← decode B data
    .ok (msg, chunks)

/-- `n` calls of `recv_msg`. -/
def recvMsgs : ℕ → List Bytes → Except RecvError (List ControlMessage × List Bytes)
  | 0, chunks => .ok ([], chunks)
  | n + 1, chunks => do
      let (msg, chunks) ← recvMsg B chunks
      let (msgs, chunks) ← recvMsgs n chunks
      .ok (msg :: msgs, chunks)

/-- What a call of `recv_msg` leaves of the stream, also when it fails. -/
def unread (chunks : List Bytes) : List Bytes :=
  match readExact chunks 4 with
  | .error _ => []
  | .ok (lenBuf, chunks) =>
      let len := LittleEndian.decode lenBuf
      if MAX_CONTROL_MESSAGE < len then chunks
      else
        match readExact chunks len with
        | .error _ => []
        | .ok (_, chunks) => chunks

/-- What `n` calls of `recv_msg` return, one after the other, and what they leave of the stream. -/
def recvCalls : ℕ → List Bytes → List (Except RecvError ControlMessage) × List Bytes
  | 0, chunks => ([], chunks)
  | n + 1, chunks =>
      let (results, rest) := recvCalls n (unread chunks)
      ((recvMsg B chunks).map Prod.fst :: results, rest)

/-- A stream that delivers `chunks` to an end that makes `n` calls of `recv_msg`: of the bytes in it
at most `window` are unread. -/
def SendStream.readBy (n window : ℕ) (chunks : List Bytes) : SendStream :=
  { written := []
    limit := chunks.flatten.length - (recvCalls B n chunks).2.flatten.length + window }

/-! ## What is written, and what is read of it -/

/-- A message on the wire. -/
def frame (msg : ControlMessage) : Bytes := lenPrefix (B.put msg) ++ B.put msg

/-- What is left to `recv_msg` once it has read the length. -/
def recvBody (body : List Bytes) (len : ℕ) : Except RecvError (ControlMessage × List Bytes) := do
  let (data, chunks) ← readExact body len
  let msg ← decode B data
  .ok (msg, chunks)

end

variable {B : Format ControlMessage}

theorem SendStream.writeAll_eq_some {s t : SendStream} {data : Bytes}
    (h : s.writeAll data = some t) : t.written = s.written ++ data := by
  unfold writeAll at h
  split at h
  · obtain rfl := Option.some.inj h
    rfl
  · cases h

theorem SendStream.sendMsg_eq_some {s t : SendStream} {msg : ControlMessage}
    (h : s.sendMsg B msg = some t) : t.written = s.written ++ frame B msg := by
  obtain ⟨u, hlen, hdata⟩ := Option.bind_eq_some_iff.mp h
  rw [writeAll_eq_some hdata, writeAll_eq_some hlen, List.append_assoc, frame]

theorem SendStream.sendMsgs_eq_some {s t : SendStream} {msgs : List ControlMessage}
    (h : s.sendMsgs B msgs = some t) : t.written = s.written ++ msgs.flatMap (frame B) := by
  induction msgs generalizing s with
  | nil =>
      obtain rfl := Option.some.inj h
      exact (List.append_nil _).symm
  | cons msg msgs ih =>
      obtain ⟨u, hmsg, hmsgs⟩ := Option.bind_eq_some_iff.mp h
      rw [ih hmsgs, sendMsg_eq_some hmsg, List.append_assoc, List.flatMap_cons]

theorem decode_lenPrefix (data : Bytes) :
    LittleEndian.decode (lenPrefix data) = data.length % 2 ^ 32 :=
  LittleEndian.decode_encode_of_lt (by rw [show (256 : ℕ) ^ 4 = 2 ^ 32 by norm_num]; omega)

theorem readExact_append {chunks : List Bytes} {front back : Bytes}
    (h : chunks.flatten = front ++ back) :
    ∃ rest, readExact chunks front.length = .ok (front, rest) ∧ rest.flatten = back := by
  obtain ⟨rest, hread, hrest⟩ := Chunks.readExact_append h
  exact ⟨rest, by rw [readExact, hread]; rfl, hrest⟩

theorem recvMsg_frame {chunks : List Bytes} {msg : ControlMessage} {back : Bytes}
    (h : chunks.flatten = frame B msg ++ back) :
    ∃ body, body.flatten = B.put msg ++ back ∧
      recvMsg B chunks =
        if MAX_CONTROL_MESSAGE < (B.put msg).length % 2 ^ 32 then
          .error (.tooLarge ((B.put msg).length % 2 ^ 32))
        else recvBody B body ((B.put msg).length % 2 ^ 32) := by
  rw [frame, List.append_assoc] at h
  obtain ⟨body, hread, hbody⟩ := readExact_append h
  have hfour : (lenPrefix (B.put msg)).length = 4 := LittleEndian.length_encode 4 _
  refine ⟨body, hbody, ?_⟩
  -- the length read is the one sent, cut to 32 bits
  rw [recvMsg, ← hfour, hread, ← decode_lenPrefix]
  rfl

theorem elim_eq_ok {ε α : Type} {x : Option α} {e : ε} {a : α}
    (h : x.elim (.error e) .ok = Except.ok a) : x = some a := by
  cases x with
  | none => cases h
  | some b => rw [Except.ok.inj h]

theorem recvBody_eq_ok {body rest : List Bytes} {len : ℕ} {msg : ControlMessage}
    (h : recvBody B body len = .ok (msg, rest)) :
    ∃ data, data.length = len ∧ body.flatten = data ++ rest.flatten ∧
      B.read data = some msg := by
  obtain ⟨⟨data, chunks⟩, hread, h⟩ := bind_eq_ok h
  obtain ⟨msg', hdata, h⟩ := bind_eq_ok h
  obtain ⟨rfl, rfl⟩ := Prod.mk.inj (Except.ok.inj h)
  obtain ⟨hlen, hflatten⟩ := Chunks.readExact_eq_some (elim_eq_ok hread)
  exact ⟨data, hlen, hflatten, elim_eq_ok hdata⟩

/-- A message of at most 10 MiB is received, and nothing of what follows it. -/
theorem recvMsg_of_le {chunks : List Bytes} {m : Message B} {back : Bytes}
    (h : chunks.flatten = frame B m.content ++ back)
    (hle : (B.put m.content).length ≤ MAX_CONTROL_MESSAGE) :
    ∃ rest, recvMsg B chunks = .ok (m.content, rest) ∧ rest.flatten = back := by
  obtain ⟨body, hbody, hrecv⟩ := recvMsg_frame h
  have hmod : (B.put m.content).length % 2 ^ 32 = (B.put m.content).length :=
    Nat.mod_eq_of_lt (lt_of_le_of_lt hle (by decide))
  obtain ⟨rest, hread, hrest⟩ := readExact_append hbody
  refine ⟨rest, ?_, hrest⟩
  have hdecode : decode B (B.put m.content) = .ok m.content := by
    rw [decode, B.read_eq_some.mpr ⟨m.typed, List.prefix_refl _⟩]
    rfl
  rw [hrecv, hmod, if_neg (not_lt.mpr hle), recvBody, hread]
  change (decode B (B.put m.content)).bind _ = _
  rw [hdecode]
  rfl

/-- A message that is received as it was sent has at most 10 MiB. -/
theorem le_of_recvMsg {chunks rest : List Bytes} {msg : ControlMessage} {back : Bytes}
    (h : chunks.flatten = frame B msg ++ back) (hrecv : recvMsg B chunks = .ok (msg, rest)) :
    (B.put msg).length ≤ MAX_CONTROL_MESSAGE ∧ rest.flatten = back := by
  obtain ⟨body, hbody, heq⟩ := recvMsg_frame h
  rw [heq] at hrecv
  split at hrecv
  · cases hrecv
  · next hsmall =>
      obtain ⟨data, hlen, hflatten, hdata⟩ := recvBody_eq_ok hrecv
      -- a length that was cut to 32 bits would leave too little to decode
      have hle := (B.read_eq_some.mp hdata).2.length_le
      have hmod := Nat.mod_le (B.put msg).length (2 ^ 32)
      exact ⟨by omega, List.append_inj_right (hflatten.symm.trans hbody) (by omega)⟩

/-- A message between 10 MiB and 4 GiB is refused. -/
theorem recvMsg_of_lt {chunks : List Bytes} {msg : ControlMessage} {back : Bytes}
    (h : chunks.flatten = frame B msg ++ back) (hlarge : MAX_CONTROL_MESSAGE < (B.put msg).length)
    (hlt : (B.put msg).length < 2 ^ 32) :
    recvMsg B chunks = .error (.tooLarge (B.put msg).length) := by
  obtain ⟨body, -, hrecv⟩ := recvMsg_frame h
  rw [hrecv, Nat.mod_eq_of_lt hlt, if_pos hlarge]

/-- Calls of `recv_msg` return the messages that were sent exactly when each of them has at most
10 MiB. -/
theorem recvMsgs_frames_iff {msgs : List (Message B)} {chunks : List Bytes}
    (hframes : chunks.flatten = (msgs.map Message.content).flatMap (frame B)) :
    (∃ rest, recvMsgs B msgs.length chunks = .ok (msgs.map Message.content, rest)) ↔
      ∀ m ∈ msgs, (B.put m.content).length ≤ MAX_CONTROL_MESSAGE := by
  induction msgs generalizing chunks with
  | nil => exact iff_of_true ⟨chunks, rfl⟩ (by simp)
  | cons m msgs ih =>
      rw [List.map_cons, List.flatMap_cons] at hframes
      rw [List.forall_mem_cons]
      constructor
      -- the first call leaves exactly the frames of the other messages
      · rintro ⟨rest, hrecv⟩
        obtain ⟨⟨msg, chunks'⟩, hmsg, hrecv⟩ := bind_eq_ok hrecv
        obtain ⟨⟨msgs', rest'⟩, hmsgs, hrecv⟩ := bind_eq_ok hrecv
        obtain ⟨heq, rfl⟩ := Prod.mk.inj (Except.ok.inj hrecv)
        obtain ⟨rfl, rfl⟩ := List.cons.inj heq
        obtain ⟨hle, hchunks'⟩ := le_of_recvMsg hframes hmsg
        exact ⟨hle, (ih hchunks').mp ⟨rest', hmsgs⟩⟩
      · rintro ⟨hle, hall⟩
        obtain ⟨chunks', hmsg, hchunks'⟩ := recvMsg_of_le hframes hle
        obtain ⟨rest, hmsgs⟩ := (ih hchunks').mpr hall
        refine ⟨rest, ?_⟩
        rw [List.length_cons, recvMsgs, hmsg]
        change (recvMsgs B msgs.length chunks').bind _ = _
        rw [hmsgs]
        rfl

/-- A call that returns a message leaves what it has not read. -/
theorem unread_of_recvMsg {chunks rest : List Bytes} {msg : ControlMessage}
    (h : recvMsg B chunks = .ok (msg, rest)) : unread chunks = rest := by
  obtain ⟨⟨lenBuf, chunks'⟩, hlen, h⟩ := bind_eq_ok h
  dsimp only at h
  rw [unread, hlen]
  dsimp only
  split at h
  · cases h
  · next hsmall =>
      obtain ⟨⟨data, rest'⟩, hdata, h⟩ := bind_eq_ok h
      obtain ⟨msg', -, h⟩ := bind_eq_ok h
      obtain ⟨-, rfl⟩ := Prod.mk.inj (Except.ok.inj h)
      rw [if_neg hsmall, hdata]

/-- All calls return messages exactly if the calls up to the first failure do. -/
theorem recvCalls_eq_ok_iff {msgs : List ControlMessage} {chunks : List Bytes} :
    (recvCalls B msgs.length chunks).1 = msgs.map .ok ↔
      ∃ rest, recvMsgs B msgs.length chunks = .ok (msgs, rest) := by
  induction msgs generalizing chunks with
  | nil => exact iff_of_true rfl ⟨chunks, rfl⟩
  | cons msg msgs ih =>
      have hcalls : (recvCalls B (msgs.length + 1) chunks).1
          = (recvMsg B chunks).map Prod.fst :: (recvCalls B msgs.length (unread chunks)).1 := rfl
      rw [List.length_cons, hcalls, List.map_cons]
      constructor
      · intro h
        obtain ⟨hfirst, hrest⟩ := List.cons.inj h
        cases hrecv : recvMsg B chunks with
        | error e =>
            rw [hrecv] at hfirst
            cases hfirst
        | ok r =>
            obtain ⟨msg', chunks'⟩ := r
            rw [hrecv] at hfirst
            obtain rfl : msg' = msg := Except.ok.inj hfirst
            rw [unread_of_recvMsg hrecv] at hrest
            obtain ⟨rest, hmsgs⟩ := ih.mp hrest
            refine ⟨rest, ?_⟩
            rw [recvMsgs, hrecv]
            change (recvMsgs B msgs.length chunks').bind _ = _
            rw [hmsgs]
            rfl
      · rintro ⟨rest, h⟩
        obtain ⟨⟨msg', chunks'⟩, hmsg, h⟩ := bind_eq_ok h
        obtain ⟨⟨msgs', rest'⟩, hmsgs, h⟩ := bind_eq_ok h
        obtain ⟨heq, rfl⟩ := Prod.mk.inj (Except.ok.inj h)
        obtain ⟨rfl, rfl⟩ := List.cons.inj heq
        rw [hmsg, unread_of_recvMsg hmsg, ih.mpr ⟨rest', hmsgs⟩]
        rfl

/-- **Messages arrive as sent** exactly when each of them has at most 10 MiB. Sending is that all
`send_msg` calls return `Ok`, over a stream with a window of any size, and arriving that as many
calls of `recv_msg` return the messages. -/
theorem arrives_iff {window : ℕ} {t : SendStream} {msgs : List (Message B)} {chunks : List Bytes}
    (hsend : (SendStream.readBy B msgs.length window chunks).sendMsgs B (msgs.map Message.content)
      = some t)
    (hdeliver : t.written = chunks.flatten) :
    (recvCalls B msgs.length chunks).1 = (msgs.map Message.content).map .ok ↔
      ∀ m ∈ msgs, (B.put m.content).length ≤ MAX_CONTROL_MESSAGE := by
  have hframes : chunks.flatten = (msgs.map Message.content).flatMap (frame B) :=
    hdeliver.symm.trans (SendStream.sendMsgs_eq_some hsend)
  have hcalls : (recvCalls B (msgs.map Message.content).length chunks).1
        = (msgs.map Message.content).map .ok ↔
      ∃ rest, recvMsgs B (msgs.map Message.content).length chunks
        = .ok (msgs.map Message.content, rest) := recvCalls_eq_ok_iff
  rw [List.length_map] at hcalls
  rw [hcalls]
  exact recvMsgs_frames_iff hframes

/-! ## Sending within the limit -/

theorem SendStream.sendMsgs_of_le {s : SendStream} {msgs : List ControlMessage}
    (h : s.written.length + (msgs.flatMap (frame B)).length ≤ s.limit) :
    s.sendMsgs B msgs = some { s with written := s.written ++ msgs.flatMap (frame B) } := by
  induction msgs generalizing s with
  | nil => rw [List.flatMap_nil, List.append_nil]; rfl
  | cons msg msgs ih =>
      rw [List.flatMap_cons, List.length_append, frame, List.length_append] at h
      have hmsg : s.sendMsg B msg = some { s with written := s.written ++ frame B msg } := by
        have hprefix : s.writeAll (lenPrefix (B.put msg))
            = some { s with written := s.written ++ lenPrefix (B.put msg) } :=
          if_pos (by omega)
        rw [sendMsg, hprefix, Option.bind_eq_bind, Option.bind_some, writeAll,
          if_pos (by rw [List.length_append]; show _ ≤ s.limit; omega), List.append_assoc, frame]
      have hcons : s.sendMsgs B (msg :: msgs)
          = (s.sendMsg B msg).bind fun u => u.sendMsgs B msgs := rfl
      rw [hcons, hmsg, Option.bind_some,
        ih (by rw [List.length_append, frame, List.length_append]; show _ ≤ s.limit; omega),
        List.append_assoc, List.flatMap_cons]

/-- All bytes of the stream go through if the calls leave no more than a window of them. -/
theorem SendStream.sendMsgs_readBy {n window : ℕ} {msgs : List ControlMessage}
    {chunks : List Bytes} (hframes : chunks.flatten = msgs.flatMap (frame B))
    (hunread : (recvCalls B n chunks).2.flatten.length ≤ window) :
    ∃ t, (readBy B n window chunks).sendMsgs B msgs = some t ∧ t.written = chunks.flatten := by
  refine ⟨_, sendMsgs_of_le ?_, hframes.symm⟩
  rw [← hframes]
  show 0 + chunks.flatten.length
    ≤ chunks.flatten.length - (recvCalls B n chunks).2.flatten.length + window
  omega

end Control

/-! ## The layout of control messages

`bincode` with its default options.
-/

namespace ControlMessage

def u16 : Format UInt16 :=
  (Format.uint 2).map UInt16.ofNat UInt16.toNat (fun _ => UInt16.ofNat_toNat) fun _ h =>
    UInt16.toNat_ofNat_of_lt' (lt_of_lt_of_eq h (by norm_num [UInt16.size]))

def u32 : Format UInt32 :=
  (Format.uint 4).map UInt32.ofNat UInt32.toNat (fun _ => UInt32.ofNat_toNat) fun _ h =>
    UInt32.toNat_ofNat_of_lt' (lt_of_lt_of_eq h (by norm_num [UInt32.size]))

def u64 : Format UInt64 :=
  (Format.uint 8).map UInt64.ofNat UInt64.toNat (fun _ => UInt64.ofNat_toNat) fun _ h =>
    UInt64.toNat_ofNat_of_lt' (lt_of_lt_of_eq h (by norm_num [UInt64.size]))

/-- `[u8; 32]`. -/
def hash : Format Hash := Format.bytes 32

def fileEntry : Format FileEntry :=
  (Format.string.pair ((Format.uint 8).pair hash)).map
    (fun x => { relativePath := x.1, fileSize := x.2.1, blake3Hash := x.2.2 })
    (fun f => (f.relativePath, f.fileSize, f.blake3Hash)) (fun _ => rfl) (fun _ _ => rfl)

/-- The variant's position, which `bincode` writes in front of its fields. -/
def index : ControlMessage → ℕ
  | .transferRequest .. => 0
  | .transferAccept .. => 1
  | .transferReject .. => 2
  | .keyExchange .. => 3
  | .transferComplete .. => 4
  | .blockRetransmitRequest .. => 5
  | .multiFileManifest .. => 6
  | .deltaSyncHashes .. => 7
  | .deltaSyncPlan .. => 8

/-- The fields of each variant, in order. -/
def variants : ℕ → Format ControlMessage
  | 0 => (u32.pair (Format.string.pair (u64.pair (u32.pair (u32.pair (hash.pair u16)))))).variant
      (fun (s, f, z, b, t, h, p) => .transferRequest s f z b t h p)
      (fun | .transferRequest s f z b t h p => some (s, f, z, b, t, h, p) | _ => none)
      (fun _ => rfl) (by rintro ⟨⟩ y h <;> cases h; rfl)
  | 1 => (u32.pair u16).variant (fun (s, p) => .transferAccept s p)
      (fun | .transferAccept s p => some (s, p) | _ => none)
      (fun _ => rfl) (by rintro ⟨⟩ y h <;> cases h; rfl)
  | 2 => (u32.pair Format.string).variant (fun (s, r) => .transferReject s r)
      (fun | .transferReject s r => some (s, r) | _ => none)
      (fun _ => rfl) (by rintro ⟨⟩ y h <;> cases h; rfl)
  | 3 => (u32.pair Format.byte.vec).variant (fun (s, k) => .keyExchange s k)
      (fun | .keyExchange s k => some (s, k) | _ => none)
      (fun _ => rfl) (by rintro ⟨⟩ y h <;> cases h; rfl)
  | 4 => (u32.pair (Format.bool.pair ((Format.uint 8).pair (Format.uint 8)))).variant
      (fun (s, ok, n, d) => .transferComplete s ok n d)
      (fun | .transferComplete s ok n d => some (s, ok, n, d) | _ => none)
      (fun _ => rfl) (by rintro ⟨⟩ y h <;> cases h; rfl)
  | 5 => (u32.pair (Format.uint 4).vec).variant (fun (s, ids) => .blockRetransmitRequest s ids)
      (fun | .blockRetransmitRequest s ids => some (s, ids) | _ => none)
      (fun _ => rfl) (by rintro ⟨⟩ y h <;> cases h; rfl)
  | 6 => (u32.pair fileEntry.vec).variant (fun (s, files) => .multiFileManifest s files)
      (fun | .multiFileManifest s files => some (s, files) | _ => none)
      (fun _ => rfl) (by rintro ⟨⟩ y h <;> cases h; rfl)
  | 7 => (u32.pair ((Format.uint 4).pair hash.vec)).variant
      (fun (s, i, hashes) => .deltaSyncHashes s i hashes)
      (fun | .deltaSyncHashes s i hashes => some (s, i, hashes) | _ => none)
      (fun _ => rfl) (by rintro ⟨⟩ y h <;> cases h; rfl)
  | 8 => (u32.pair ((Format.uint 4).pair (Format.uint 4).vec)).variant
      (fun (s, i, ids) => .deltaSyncPlan s i ids)
      (fun | .deltaSyncPlan s i ids => some (s, i, ids) | _ => none)
      (fun _ => rfl) (by rintro ⟨⟩ y h <;> cases h; rfl)
  | _ => Format.never

theorem index_of_valid (i : ℕ) (msg : ControlMessage) (h : (variants i).Valid msg) :
    msg.index = i := by
  unfold variants at h
  split at h
  case h_10 => cases h
  all_goals
    obtain ⟨fields, hfields, -⟩ := h
    cases msg <;> cases hfields
    rfl

def layout : Format ControlMessage := Format.enum index variants index_of_valid

theorem put_deltaSyncHashes (sessionId : UInt32) (fileIndex : ℕ) (hashes : List Hash) :
    layout.put (.deltaSyncHashes sessionId fileIndex hashes) = LittleEndian.encode 4 7 ++
      (LittleEndian.encode 4 sessionId.toNat ++
        (LittleEndian.encode 4 fileIndex ++ hash.vec.put hashes)) := rfl

theorem put_hashes (h : Hash) (hashes : List Hash) : hash.vec.put (h :: hashes)
    = LittleEndian.encode 8 (hashes.length + 1) ++ (h ++ hashes.flatMap hash.put) := rfl

theorem length_put_deltaSyncHashes (sessionId : UInt32) (fileIndex : ℕ) (hashes : List Hash)
    (h : ∀ hash ∈ hashes, hash.length = 32) :
    (layout.put (.deltaSyncHashes sessionId fileIndex hashes)).length =
      20 + 32 * hashes.length := by
  have hvec := hash.length_vec_put h
  rw [put_deltaSyncHashes, List.length_append, List.length_append, List.length_append,
    LittleEndian.length_encode, LittleEndian.length_encode, LittleEndian.length_encode, hvec]
  omega

end ControlMessage

namespace Control

open ControlMessage (layout)

namespace Message

/-- Data goes to port 5000. -/
def accept : Message layout where
  content := .transferAccept 7 5000
  typed := ⟨by decide, _, rfl, UInt32.toNat_lt 7, UInt16.toNat_lt 5000⟩

/-- A hash that begins with the bytes 00 a0 00. -/
def firstHash : Hash := [0, 160, 0] ++ List.replicate 29 0

@[irreducible] def otherHashes : List Hash := List.replicate 327679 (List.replicate 32 0)

theorem length_otherHashes : otherHashes.length = 327679 := by
  rw [otherHashes, List.length_replicate]

theorem length_of_mem {h : Hash} (hh : h ∈ firstHash :: otherHashes) : h.length = 32 := by
  rcases List.mem_cons.mp hh with rfl | hh
  · rfl
  · rw [otherHashes] at hh
    rw [List.eq_of_mem_replicate hh, List.length_replicate]

/-- The hashes of 327680 existing blocks: a file of 320 MiB in blocks of 1 KiB. -/
def manyHashes : Message layout where
  content := .deltaSyncHashes 7 0 (firstHash :: otherHashes)
  typed := by
    refine ⟨by decide, _, rfl, UInt32.toNat_lt 7, Nat.pow_pos (by decide), ?_,
      fun h hh => length_of_mem hh⟩
    rw [List.length_cons, length_otherHashes]
    norm_num

theorem length_put_manyHashes : (layout.put manyHashes.content).length = 10485780 := by
  have hlen := ControlMessage.length_put_deltaSyncHashes 7 0 (firstHash :: otherHashes)
    fun h hh => length_of_mem hh
  rw [List.length_cons, length_otherHashes] at hlen
  calc (layout.put manyHashes.content).length
      = 20 + 32 * (327679 + 1) := hlen
    _ = 10485780 := by norm_num

theorem length_of_front {tail : Bytes} (h : 10485780 = List.length ([7, 0, 0, 0] ++
    ([7, 0, 0, 0, 0, 0, 0] ++ ([0, 0, 0, 5] ++ ([0, 0, 0, 0] ++ ([0, 0, 160, 0] ++ tail)))))) :
    tail.length = 10485757 := by
  rw [List.length_append, List.length_append, List.length_append, List.length_append,
    List.length_append] at h
  simp only [List.length_cons, List.length_nil] at h
  omega

/-- How the calls that follow read its bytes: a length of 7 and as many bytes, a length that is
refused, a length of 0, and one of 10 MiB. -/
theorem exists_put_manyHashes : ∃ tail : Bytes, tail.length = 10485757 ∧
    layout.put manyHashes.content = [7, 0, 0, 0] ++ ([7, 0, 0, 0, 0, 0, 0] ++
      ([0, 0, 0, 5] ++ ([0, 0, 0, 0] ++ ([0, 0, 160, 0] ++ tail)))) := by
  have hput : layout.put manyHashes.content = [7, 0, 0, 0] ++ ([7, 0, 0, 0, 0, 0, 0] ++
      ([0, 0, 0, 5] ++ ([0, 0, 0, 0] ++ ([0, 0, 160, 0] ++
        (List.replicate 29 0 ++ otherHashes.flatMap ControlMessage.hash.put))))) := by
    have hcount : LittleEndian.encode 8 (327679 + 1) = [0, 0, 5, 0, 0, 0, 0, 0] := by decide
    have hseven : LittleEndian.encode 4 7 = [7, 0, 0, 0] := by decide
    have hzero : LittleEndian.encode 4 0 = [0, 0, 0, 0] := by decide
    have hsession : (7 : UInt32).toNat = 7 := rfl
    rw [manyHashes, ControlMessage.put_deltaSyncHashes, ControlMessage.put_hashes,
      length_otherHashes, hcount, hsession, hseven, hzero, firstHash]
    simp only [List.cons_append, List.nil_append]
  exact ⟨_, length_of_front (length_put_manyHashes.symm.trans (congrArg _ hput)),
    hput⟩

end Message

/-- A call reads a length, and so many bytes if it does not refuse it. -/
theorem unread_append {chunks : List Bytes} {lenBuf back : Bytes} (hfour : lenBuf.length = 4)
    (h : chunks.flatten = lenBuf ++ back) :
    ∃ body : List Bytes, body.flatten = back ∧ unread chunks =
      if MAX_CONTROL_MESSAGE < LittleEndian.decode lenBuf then body
      else (readExact body (LittleEndian.decode lenBuf)).toOption.elim [] Prod.snd := by
  obtain ⟨body, hread, hbody⟩ := readExact_append h
  refine ⟨body, hbody, ?_⟩
  rw [hfour] at hread
  rw [unread, hread]
  dsimp only
  split
  · rfl
  · cases readExact body (LittleEndian.decode lenBuf) with
    | error e => rfl
    | ok r => rfl

theorem flatten_unread_of_lt {chunks : List Bytes} {lenBuf back : Bytes} (hfour : lenBuf.length = 4)
    (hlarge : MAX_CONTROL_MESSAGE < LittleEndian.decode lenBuf)
    (h : chunks.flatten = lenBuf ++ back) : (unread chunks).flatten = back := by
  obtain ⟨body, hbody, hunread⟩ := unread_append hfour h
  rw [hunread, if_pos hlarge, hbody]

theorem flatten_unread_of_le {chunks : List Bytes} {lenBuf data back : Bytes}
    (hfour : lenBuf.length = 4) (hle : LittleEndian.decode lenBuf ≤ MAX_CONTROL_MESSAGE)
    (hlen : data.length = LittleEndian.decode lenBuf)
    (h : chunks.flatten = lenBuf ++ (data ++ back)) : (unread chunks).flatten = back := by
  obtain ⟨body, hbody, hunread⟩ := unread_append hfour h
  obtain ⟨rest, hread, hrest⟩ := readExact_append hbody
  rw [hunread, if_neg (not_lt.mpr hle), ← hlen, hread]
  exact hrest

/-- The window quinn gives a stream unless it is configured otherwise. -/
def STREAM_RECEIVE_WINDOW : ℕ := 1250000

/-- A small message in five chunks. -/
def acceptChunks : List Bytes := [[10, 0], [], [0, 0, 1], [0, 0, 0, 7, 0, 0, 0, 0x88], [0x13]]

theorem arrives_iff_accept :
    (recvCalls layout 1 acceptChunks).1 = [.ok Message.accept.content] := by
  have hframes : acceptChunks.flatten
      = ([Message.accept].map Message.content).flatMap (frame layout) := by
    decide
  have hunread : (recvCalls layout [Message.accept].length acceptChunks).2.flatten.length
      ≤ STREAM_RECEIVE_WINDOW := by
    decide
  obtain ⟨t, hsend, hwritten⟩ := SendStream.sendMsgs_readBy hframes hunread
  have harrives : (recvCalls layout 1 acceptChunks).1
      = ([Message.accept].map Message.content).map .ok ↔
        ∀ m ∈ [Message.accept], (layout.put m.content).length ≤ MAX_CONTROL_MESSAGE :=
    arrives_iff hsend hwritten
  exact harrives.mpr (by decide)

/-- One message of more than 10 MiB, and four small ones. -/
def manyMessages : List (Message layout) :=
  Message.manyHashes :: List.replicate 4 Message.accept

/-- Five calls read all but a few bytes of the five messages. -/
theorem unread_manyHashes {chunks : List Bytes} (h : chunks.flatten =
    frame layout Message.manyHashes.content ++
      (List.replicate 4 Message.accept.content).flatMap (frame layout)) :
    (recvCalls layout 5 chunks).2.flatten.length ≤ STREAM_RECEIVE_WINDOW := by
  obtain ⟨tail, htail, hput⟩ := Message.exists_put_manyHashes
  have hlen := Message.length_put_manyHashes
  have hback : ((List.replicate 4 Message.accept.content).flatMap (frame layout)).length = 56 := by
    decide
  set back := (List.replicate 4 Message.accept.content).flatMap (frame layout)
  have hrefused : MAX_CONTROL_MESSAGE
      < LittleEndian.decode (lenPrefix (layout.put Message.manyHashes.content)) := by
    rw [decode_lenPrefix, hlen]
    decide
  rw [frame, List.append_assoc] at h
  have h₁ := flatten_unread_of_lt (LittleEndian.length_encode 4 _) hrefused h
  rw [hput, List.append_assoc, List.append_assoc] at h₁
  have h₂ := flatten_unread_of_le rfl (by decide) (by decide) h₁
  rw [List.append_assoc] at h₂
  have h₃ := flatten_unread_of_lt rfl (by decide) h₂
  rw [List.append_assoc] at h₃
  have h₄ := flatten_unread_of_le rfl (by decide) rfl
    (show _ = [0, 0, 0, 0] ++ ([] ++ ([0, 0, 160, 0] ++ tail ++ back)) from h₃)
  rw [List.append_assoc, ← List.take_append_drop MAX_CONTROL_MESSAGE (tail ++ back)] at h₄
  have h₅ := flatten_unread_of_le rfl (by decide) ?_ h₄
  · show (unread (unread (unread (unread (unread chunks))))).flatten.length ≤ STREAM_RECEIVE_WINDOW
    rw [h₅, List.length_drop, List.length_append, htail, hback]
    decide
  · rw [List.length_take, List.length_append, htail, hback]
    decide

/-- With the default window five `send_msg` calls return `Ok`. The
first call of `recv_msg` refuses the first message and leaves it in the stream, and the other four
take what it consists of for lengths and messages. -/
theorem manyHashes_not_received :
    ¬ ∀ (t : SendStream) (msgs : List (Message layout)) (chunks : List Bytes),
      (SendStream.readBy layout msgs.length STREAM_RECEIVE_WINDOW chunks).sendMsgs layout
          (msgs.map Message.content) = some t →
      t.written = chunks.flatten →
      (recvCalls layout msgs.length chunks).1 = (msgs.map Message.content).map .ok := by
  intro hall
  obtain ⟨chunks, hframes⟩ : ∃ chunks : List Bytes,
      chunks.flatten = (manyMessages.map Message.content).flatMap (frame layout) :=
    ⟨[_], List.flatten_singleton⟩
  have hsplit : chunks.flatten = frame layout Message.manyHashes.content ++
      (List.replicate 4 Message.accept.content).flatMap (frame layout) := hframes
  obtain ⟨t, hsend, hwritten⟩ := SendStream.sendMsgs_readBy hframes (unread_manyHashes hsplit)
  have hresults := hall t manyMessages chunks hsend hwritten
  -- the first call fails
  have hlen := Message.length_put_manyHashes
  have hrecv := recvMsg_of_lt hsplit (by rw [hlen]; decide) (by rw [hlen]; decide)
  have hfirst := (List.cons.inj hresults).1
  rw [hrecv] at hfirst
  cases hfirst

end Control

end Updown
