import Updown.Engine.Delta
import Updown.Engine.RecvSafety

set_option autoImplicit false

/-! # The `serve` endpoint

`run_serve` (`main.rs`) takes the numbers of a `TransferRequest` as they come: it hashes an existing
file of the requested size for delta sync, and starts `receive_file`. The arithmetic of that path
goes wrong on exactly the requests that are not `Consistent`: the last block has to start inside the
file and must not be empty, for its decoder divides by the number of its source blocks.
-/

namespace Updown

open Transition

/-- A `TransferRequest`, as `run_serve` destructures it. -/
structure TransferRequest where
  sessionId : UInt32
  filename : String
  fileSize : UInt64
  blockSize : UInt32
  totalBlocks : UInt32
  fileHash : Hash

/-- The request in a control message; `run_serve` drops connections that open with another one. -/
def TransferRequest.ofMessage : ControlMessage → Option TransferRequest
  | .transferRequest sessionId filename fileSize blockSize totalBlocks blake3Hash _ =>
      some ⟨sessionId, filename, fileSize, blockSize, totalBlocks, blake3Hash⟩
  | _ => none

namespace TransferRequest

/-- Block hashes of an existing file of the requested size. -/
def deltaHashes (C : Crates) (req : TransferRequest) (existing : Option Bytes) :
    Except Fault (Option (List Hash)) :=
  match existing with
  | some file =>
      if file.length = req.fileSize.toNat then
        (computeBlockHashes C file req.blockSize.toNat).map some
      else .ok none
  | none => .ok none

/-- The messages `run_serve` answers a request with. -/
def replies (req : TransferRequest) (dataPort : UInt16) (sharedKey : Vector UInt8 KEY_LEN)
    (hashes : Option (List Hash)) : List ControlMessage :=
  [.transferAccept req.sessionId dataPort, .keyExchange req.sessionId sharedKey.toList] ++
    (hashes.map fun h => .deltaSyncHashes req.sessionId 0 h).toList

/-- The arguments of `receive_file`; `none` when `set_len` refuses the size. -/
def recvParams (req : TransferRequest) (sharedKey : Vector UInt8 KEY_LEN) (rateMbps : ℕ) :
    Option RecvParams :=
  if h : req.fileSize.toNat < 2 ^ 63 then
    some
      { sessionId := req.sessionId
        sharedKey := sharedKey.toList
        blockSize := req.blockSize.toNat
        fileSize := req.fileSize.toNat
        totalBlocks := req.totalBlocks.toNat
        targetRateMbps := rateMbps
        sharedKey_length := by simp
        blockSize_lt := lt_of_lt_of_le req.blockSize.toNat_lt (by norm_num)
        fileSize_lt := h
        totalBlocks_lt := req.totalBlocks.toNat_lt }
  else none

/-! ## Requests and arithmetic -/

end TransferRequest

/-- Division by zero, an underflow in `file_size - offset` or `total_blocks - 1`, or a slice of
`block.data` out of range. -/
def Fault.isArithmetic : Fault → Bool
  | .divideByZero => true
  | .fileSizeUnderflow => true
  | .totalBlocksUnderflow => true
  | .sliceOutOfRange => true
  | _ => false

namespace TransferRequest

variable {C : Crates}

/-- Serving the request does not make the arithmetic go wrong: neither hashing the file that is
already there, nor any run of `receive_file`, whatever authenticates. -/
structure Safe (C : Crates) (req : TransferRequest) (sharedKey : Vector UInt8 KEY_LEN)
    (rateMbps : ℕ) (disk : Disk) : Prop where
  hashing : ∀ fault, req.deltaHashes C disk.out = .error fault → fault.isArithmetic = false
  receiving : ∀ p, req.recvParams sharedKey rateMbps = some p → ∀ rng now s,
    Reaches (RecvFile.step C p) (fun _ _ => True) (RecvFile.start C.raptorq p rng now disk) s →
    (∀ fault, s.task = .panicked fault → fault.isArithmetic = false) ∧
    (∀ fault, s.writer = .panicked fault → fault.isArithmetic = false)

/-- The numbers of the request fit together, and fit a file that is already there. -/
structure Consistent (Q : RaptorQ) (req : TransferRequest) (existing : Option Bytes) : Prop where
  blockSize : req.blockSize ≠ 0 ∨ ∀ file, existing = some file → file.length ≠ req.fileSize.toNat
  totalBlocks : req.totalBlocks = 0 ∨ 2 ^ 63 ≤ req.fileSize.toNat ∨
    (req.blockSize ≠ 0 ∧
      (req.totalBlocks.toNat - 1) * req.blockSize.toNat ≤ req.fileSize.toNat ∧
      Q.noSourceBlocks
        (req.fileSize.toNat - (req.totalBlocks.toNat - 1) * req.blockSize.toNat) SYMBOL_SIZE = false)

theorem recvParams_eq_some {req : TransferRequest} {sharedKey : Vector UInt8 KEY_LEN}
    {rateMbps : ℕ} {p : RecvParams} (h : req.recvParams sharedKey rateMbps = some p) :
    p.blockSize = req.blockSize.toNat ∧ p.fileSize = req.fileSize.toNat ∧
      p.totalBlocks = req.totalBlocks.toNat ∧ req.fileSize.toNat < 2 ^ 63 := by
  unfold recvParams at h
  split at h
  · next hlt =>
      obtain rfl := Option.some.inj h
      exact ⟨rfl, rfl, rfl, hlt⟩
  · cases h

/-- Hashing an existing file goes wrong for a block size of zero only. -/
theorem deltaHashes_fault {req : TransferRequest} {existing : Option Bytes} {fault : Fault}
    (h : req.deltaHashes C existing = .error fault) (harith : fault.isArithmetic = true) :
    req.blockSize = 0 ∧ ∃ file, existing = some file ∧ file.length = req.fileSize.toNat := by
  unfold deltaHashes at h
  split at h
  · next file =>
      split at h
      · next hlen =>
          cases hhash : computeBlockHashes C file req.blockSize.toNat with
          | ok hashes =>
              rw [hhash] at h
              cases h
          | error fault' =>
              rw [hhash] at h
              obtain rfl : fault' = fault := Except.error.inj h
              rcases computeBlockHashes_fault hhash with hzero | rfl | rfl
              · exact ⟨UInt32.toNat_inj.mp hzero, file, rfl, hlen⟩
              · cases harith
              · cases harith
      · cases h
  · cases h

section

variable {req : TransferRequest} {sharedKey : Vector UInt8 KEY_LEN} {rateMbps : ℕ} {disk : Disk}

/-- A file that is there in the announced length is hashed: the block size is not zero. -/
theorem Safe.blockSize (h : Safe C req sharedKey rateMbps disk) :
    req.blockSize ≠ 0 ∨ ∀ file, disk.out = some file → file.length ≠ req.fileSize.toNat := by
  by_contra hbad
  push Not at hbad
  obtain ⟨hzero, file, hfile, hlen⟩ := hbad
  have herr : req.deltaHashes C disk.out = .error .divideByZero := by
    simp only [deltaHashes, hfile, if_pos hlen, hzero]
    rfl
  have hno := h.hashing _ herr
  cases hno

/-- A packet for any block may be the first that arrives: every block can be set up. -/
theorem Safe.totalBlocks (hC : C.Correct) (h : Safe C req sharedKey rateMbps disk) :
    req.totalBlocks = 0 ∨ 2 ^ 63 ≤ req.fileSize.toNat ∨
      (req.blockSize ≠ 0 ∧
        (req.totalBlocks.toNat - 1) * req.blockSize.toNat ≤ req.fileSize.toNat ∧
        C.raptorq.noSourceBlocks
          (req.fileSize.toNat - (req.totalBlocks.toNat - 1) * req.blockSize.toNat) SYMBOL_SIZE
            = false) := by
  by_contra hbad
  obtain ⟨hne, hbad⟩ := not_or.mp hbad
  obtain ⟨hsize, hunfit⟩ := not_or.mp hbad
  rw [not_le] at hsize
  have hpos : 0 < req.totalBlocks.toNat := by
    rcases Nat.eq_zero_or_pos req.totalBlocks.toNat with h0 | h0
    · exact absurd (UInt32.toNat_inj.mp (h0.trans rfl)) hne
    · exact h0
  obtain ⟨p, hp⟩ : ∃ p, req.recvParams sharedKey rateMbps = some p := by
    rw [recvParams, dif_pos hsize]
    exact ⟨_, rfl⟩
  obtain ⟨hb, hf, ht, -⟩ := recvParams_eq_some hp
  have hunfillable : ¬ p.Fillable C.raptorq := by
    intro hfill
    have hle := hfill.last_le
    have hsplit := hfill.last_splits
    rw [hb, hf, ht] at hsplit
    rw [hb, hf, ht] at hle
    refine hunfit ⟨fun h0 => ?_, hle, hsplit⟩
    have hpos := hfill.blockSize_pos
    rw [hb, h0] at hpos
    exact lt_irrefl 0 hpos
  obtain ⟨id, hid, hlen⟩ := RecvParams.exists_unopenable_of_not_fillable hC.raptorq (ht ▸ hpos)
    (by rw [hb]; exact req.blockSize.toNat_lt) hunfillable
  -- the first packet that arrives is for that block
  obtain ⟨data, plain, hopen⟩ := RecvFile.exists_opens hC p hid
  obtain ⟨s, fault, hrun, htask, hfault⟩ := RecvFile.exists_panicked (fun _ => #v[0, 0, 0, 0]) 0
    disk (ht ▸ hpos) hopen hlen
  have hno := (h.receiving p hp _ _ s hrun).1 _ htask
  rcases hfault with rfl | rfl <;> cases hno

/-- **A consistent request is safe.** -/
theorem Consistent.safe (hC : C.Correct) (h : Consistent C.raptorq req disk.out) :
    Safe C req sharedKey rateMbps disk where
  hashing := by
    intro fault hfault
    by_contra harith
    obtain ⟨hzero, file, hfile, hlen⟩ := deltaHashes_fault hfault (by simpa using harith)
    rcases h.blockSize with hb | hb
    · exact hb hzero
    · exact hb file hfile hlen
  receiving := by
    intro p hp rng now s hrun
    obtain ⟨hb, hf, ht, hsize⟩ := recvParams_eq_some hp
    have hnum : p.totalBlocks = 0 ∨ p.Fillable C.raptorq := by
      rcases h.totalBlocks with h0 | hge | ⟨hne, hle, hsplit⟩
      · exact Or.inl (by rw [ht, h0]; rfl)
      · omega
      · refine Or.inr ⟨?_, by rw [hb, hf, ht]; exact hle, by rw [hb, hf, ht]; exact hsplit⟩
        rw [hb]
        exact Nat.pos_of_ne_zero fun h0 => hne (UInt32.toNat_inj.mp (h0.trans rfl))
    have hno := RecvFile.no_fault_of_reaches hC
      (by rw [hb]; exact req.blockSize.toNat_lt) hnum hrun
    refine ⟨fun fault hfault => absurd hfault (hno.task fault), fun fault hfault => ?_⟩
    -- what is left to the writer is its bitmap and its count
    rcases hno.writer fault hfault with rfl | rfl <;> rfl

end

/-- **Exactly the consistent requests are safe.** -/
theorem safe_iff_consistent (hC : C.Correct) (req : TransferRequest)
    (sharedKey : Vector UInt8 KEY_LEN) (rateMbps : ℕ) (disk : Disk) :
    Safe C req sharedKey rateMbps disk ↔ Consistent C.raptorq req disk.out := by
  constructor
  · intro hsafe
    exact ⟨hsafe.blockSize, hsafe.totalBlocks hC⟩
  · exact Consistent.safe hC

/-- A request for ten blocks of four bytes of a file of ten bytes. -/
def tenBlocks : TransferRequest :=
  { sessionId := 9, filename := "a.bin", fileSize := 10, blockSize := 4, totalBlocks := 10,
    fileHash := [] }

theorem safe_iff_consistent_small :
    ¬ Safe PlainCrates.plainCrates tenBlocks (Vector.replicate KEY_LEN 7) 1000 ⟨none, none⟩ ∧
      Safe PlainCrates.plainCrates { tenBlocks with totalBlocks := 3 }
        (Vector.replicate KEY_LEN 7) 1000 ⟨none, none⟩ := by
  rw [safe_iff_consistent PlainCrates.plainCrates_correct,
    safe_iff_consistent PlainCrates.plainCrates_correct]
  refine ⟨?_, ?_⟩
  · rintro ⟨-, h⟩
    revert h
    decide
  · exact ⟨Or.inl (by decide), by decide⟩

/-- The parameters of `receive_file` for `tenBlocks`. -/
def tenBlocksParams : RecvParams :=
  { Small.params with
    fileSize := 10, totalBlocks := 10, fileSize_lt := by decide, totalBlocks_lt := by decide }

/-- The parameters of `receive_file` for three blocks of five bytes of a file of ten bytes. -/
def threeBlocksParams : RecvParams :=
  { Small.params with
    fileSize := 10, blockSize := 5, totalBlocks := 3, fileSize_lt := by decide,
    blockSize_lt := by decide, totalBlocks_lt := by decide }

/-- A packet of four bytes for a block, from a peer that has the key. -/
def packetFor (blockId : ℕ) : Bytes :=
  match (Small.engine.initialSender tenBlocksParams.sharedKey 9 Small.rng).framePacket
      PlainCrates.aead ⟨blockId, 0, PlainCrates.raptorq.serialize ⟨0, [1, 2, 3, 4]⟩⟩ with
  | (_, .ok pkt) => pkt
  | (_, .error _) => []

/-- An authenticated packet for the last block of `tenBlocks` underflows `file_size - offset`,
hashing an empty file for a request of block size zero divides by zero, and so does the decoder of
a last block that is empty. -/
theorem tenBlocks_not_safe :
    ¬ Safe PlainCrates.plainCrates tenBlocks (Vector.replicate KEY_LEN 7) 1000 ⟨none, none⟩ ∧
    ¬ Safe PlainCrates.plainCrates { tenBlocks with fileSize := 0, blockSize := 0 }
      (Vector.replicate KEY_LEN 7) 1000 ⟨some [], none⟩ ∧
    ¬ Safe PlainCrates.plainCrates { tenBlocks with blockSize := 5, totalBlocks := 3 }
      (Vector.replicate KEY_LEN 7) 1000 ⟨none, none⟩ := by
  have hfaults : ∀ (req : TransferRequest) (p : RecvParams) (id : ℕ) (fault : Fault),
      req.recvParams (Vector.replicate KEY_LEN 7) 1000 = some p → fault.isArithmetic = true →
      ((runAll (RecvFile.step PlainCrates.plainCrates p)
        (RecvFile.start _ p Small.rng 0 ⟨none, none⟩)
        [.datagram Small.clock (packetFor id)]).any
          fun s => decide (s.task = .panicked fault)) = true →
      ¬ Safe PlainCrates.plainCrates req (Vector.replicate KEY_LEN 7) 1000 ⟨none, none⟩ := by
    intro req p id fault hp harith hrun hsafe
    obtain ⟨s, hs, hcheck⟩ := exists_of_runAll _ _ _ _ hrun
    have hreach := Reaches.of_runAll hs (allowedAlong_of_forall fun _ _ _ => trivial)
    have hno := (hsafe.receiving p hp _ _ s hreach).1 _ (of_decide_eq_true hcheck)
    rw [harith] at hno
    cases hno
  refine ⟨hfaults tenBlocks tenBlocksParams 9 .fileSizeUnderflow rfl rfl (by decide +kernel), ?_,
    hfaults _ threeBlocksParams 2 .divideByZero rfl rfl (by decide +kernel)⟩
  intro hsafe
  have hfault := hsafe.hashing .divideByZero rfl
  cases hfault

end TransferRequest

end Updown
