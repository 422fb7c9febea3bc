import Updown.Lib.Blocks
import Updown.Transport.Sender

set_option autoImplicit false

/-! # The blast

Phase 3 of `send_blocks_interleaved` (`transport/sender.rs`), where every send succeeds: on Linux
packets of one size are put together and handed to the kernel as a batch, which UDP segmentation
offload cuts up again; elsewhere they are sent one by one. Both check the pace now and then. The two
put the same datagrams on the wire (`gso_eq_plain`).
-/

namespace Updown

/-- A send, and the bytes sent so far in the call if the pace is checked after it. -/
structure BlastSend (δ : Type) where
  data : δ
  pace : Option ℕ

/-- What a blast has done. -/
structure Blast (δ : Type) where
  sends : List (BlastSend δ)
  bytesSent : ℕ
  packetsSent : ℕ

/-! ## Linux -/

/-- A call of `send_gso_batch`, and how many packets it counts as. -/
structure GsoBatch where
  buf : Bytes
  segmentSize : ℕ
  count : ℕ

namespace GsoBatch

/-- The segment size in the control message: `segment_size as u16`. -/
def segSize (b : GsoBatch) : ℕ := b.segmentSize % 2 ^ 16

/-- What segmentation makes of a batch. -/
def segments (b : GsoBatch) : List Bytes := Blocks.blocks b.segmentSize b.buf

/-- The batch is between one and `limit` packets, all of the segment size. -/
def WellFormed (limit : ℕ) (b : GsoBatch) : Prop :=
  1 ≤ b.count ∧ b.count ≤ limit ∧ b.segments.length = b.count ∧ b.segments.flatten = b.buf ∧
    ∀ pkt ∈ b.segments, pkt.length = b.segmentSize

end GsoBatch

/-- The variables of the batching loop. -/
structure GsoState where
  superBuf : Bytes
  pktSize : ℕ
  batchCount : ℕ
  gsoSends : ℕ
  blast : Blast GsoBatch

namespace GsoState

def start : GsoState :=
  { superBuf := [], pktSize := 0, batchCount := 0, gsoSends := 0, blast := ⟨[], 0, 0⟩ }

/-- Send the batch. The pace is checked after a full one. -/
def flush (s : GsoState) (full : Bool) : GsoState :=
  let bytesSent := s.blast.bytesSent + s.superBuf.length
  { s with
    superBuf := []
    batchCount := 0
    gsoSends := s.gsoSends + 1
    blast :=
      { sends := s.blast.sends ++ [⟨⟨s.superBuf, s.pktSize, s.batchCount⟩,
          if full then some bytesSent else none⟩]
        bytesSent := bytesSent
        packetsSent := s.blast.packetsSent + s.batchCount } }

/-- The batch before a packet of length `len` is added: it is sent if the size changes. -/
def beforePacket (s : GsoState) (len : ℕ) : GsoState :=
  let s := if s.batchCount = 0 then { s with pktSize := len } else s
  if len ≠ s.pktSize ∧ 0 < s.batchCount then { s.flush false with pktSize := len } else s

/-- The body of the loop over the index. -/
def step (gsoBatch : ℕ) (wireBuf : Bytes) (s : GsoState) (e : ℕ × ℕ) : GsoState :=
  let s := s.beforePacket e.2
  let s := { s with
    superBuf := s.superBuf ++ (wireBuf.drop e.1).take e.2, batchCount := s.batchCount + 1 }
  if gsoBatch ≤ s.batchCount then s.flush true else s

end GsoState

/-- The packets of one call of `sendmsg`. -/
def GSO_BATCH : ℕ := 64

/-- The batching loop, and the batch that is left over. -/
def gsoBlast (gsoBatch : ℕ) (w : WireBuf) : Blast GsoBatch :=
  let s := w.pktIndex.foldl (GsoState.step gsoBatch w.bytes) .start
  if 0 < s.batchCount then (s.flush false).blast else s.blast

/-! ## Other systems -/

/-- The packets between two checks of the pace. -/
def PACE_CHECK : ℕ := 256

/-- Send a packet; the pace is checked after every `paceCheck` of them. -/
def plainStep (paceCheck : ℕ) (wireBuf : Bytes) (s : Blast Bytes) (idx : ℕ) (e : ℕ × ℕ) :
    Blast Bytes :=
  let pkt := (wireBuf.drop e.1).take e.2
  let bytesSent := s.bytesSent + pkt.length
  { sends := s.sends ++
      [⟨pkt, if idx % paceCheck = paceCheck - 1 then some bytesSent else none⟩]
    bytesSent := bytesSent
    packetsSent := s.packetsSent + 1 }

/-- The packets from index `idx` on. -/
def plainLoop (paceCheck : ℕ) (wireBuf : Bytes) : Blast Bytes → ℕ → List (ℕ × ℕ) → Blast Bytes
  | s, _, [] => s
  | s, idx, e :: es => plainLoop paceCheck wireBuf (plainStep paceCheck wireBuf s idx e) (idx + 1) es

def plainBlast (paceCheck : ℕ) (w : WireBuf) : Blast Bytes :=
  plainLoop paceCheck w.bytes ⟨[], 0, 0⟩ 0 w.pktIndex

/-! ## What the batching loop has sent -/

/-- The packets `out` were sent, in batches that are well formed, and `pending` make up the next
batch. -/
structure Batched (limit : ℕ) (s : GsoState) (out pending : List Bytes) : Prop where
  segments : (s.blast.sends.flatMap fun x => x.data.segments) = out
  wellFormed : ∀ x ∈ s.blast.sends, x.data.WellFormed limit
  bytesSent : s.blast.bytesSent = out.flatten.length
  packetsSent : s.blast.packetsSent = out.length
  superBuf : s.superBuf = pending.flatten
  batchCount : s.batchCount = pending.length
  length_le : pending.length ≤ limit
  size : ∀ pkt ∈ pending, pkt.length = s.pktSize ∧ 0 < pkt.length

variable {limit : ℕ}

theorem batched_start : Batched limit .start [] [] := by
  constructor <;> simp [GsoState.start]

/-- **Sending the batch** sends the packets it was made of. -/
theorem Batched.flush {s : GsoState} {out pending : List Bytes} (h : Batched limit s out pending)
    (hne : pending ≠ []) (full : Bool) : Batched limit (s.flush full) (out ++ pending) [] := by
  obtain ⟨pkt, hpkt⟩ := List.exists_mem_of_ne_nil pending hne
  obtain ⟨hsize, hpos⟩ := h.size pkt hpkt
  have hsegments : GsoBatch.segments ⟨s.superBuf, s.pktSize, s.batchCount⟩ = pending := by
    show Blocks.blocks s.pktSize s.superBuf = pending
    rw [h.superBuf]
    exact Blocks.blocks_flatten (by omega) fun pkt hpkt => (h.size pkt hpkt).1
  have hcount := List.length_pos_iff.mpr hne
  constructor
  · simp [GsoState.flush, h.segments, hsegments]
  · intro x hx
    rcases List.mem_append.mp hx with hx | hx
    · exact h.wellFormed x hx
    · obtain rfl := List.mem_singleton.mp hx
      rw [GsoBatch.WellFormed, hsegments]
      dsimp only
      rw [h.batchCount]
      exact ⟨hcount, h.length_le, rfl, h.superBuf.symm, fun pkt hpkt => (h.size pkt hpkt).1⟩
  · simp [GsoState.flush, h.bytesSent, h.superBuf]
  · simp [GsoState.flush, h.packetsSent, h.batchCount]
  · rfl
  · rfl
  · exact Nat.zero_le _
  · intro pkt hpkt
    cases hpkt

/-- The size of an empty batch does not matter. -/
theorem Batched.withSize {s : GsoState} {out : List Bytes} (h : Batched limit s out []) (len : ℕ) :
    Batched limit { s with pktSize := len } out [] :=
  { h with
    size := by
      intro pkt hpkt
      cases hpkt }

/-- A packet is only added to packets of its size. -/
theorem Batched.beforePacket {s : GsoState} {out pending : List Bytes}
    (h : Batched limit s out pending) (len : ℕ) :
    ∃ out' pending', out' ++ pending' = out ++ pending ∧ pending'.length ≤ pending.length ∧
      Batched limit (s.beforePacket len) out' pending' ∧ (s.beforePacket len).pktSize = len := by
  unfold GsoState.beforePacket
  by_cases hempty : s.batchCount = 0
  · obtain rfl : pending = [] := List.length_eq_zero_iff.mp (h.batchCount ▸ hempty)
    refine ⟨out, [], rfl, le_refl _, ?_⟩
    have hneg : ¬ (len ≠ len ∧ 0 < s.batchCount) := fun hboth => hboth.1 rfl
    rw [if_pos hempty]
    dsimp only
    rw [if_neg hneg]
    exact ⟨h.withSize len, rfl⟩
  · simp only [if_neg hempty]
    by_cases hsize : len = s.pktSize
    · rw [if_neg (by simp [hsize])]
      exact ⟨out, pending, rfl, le_refl _, h, hsize.symm⟩
    · rw [if_pos ⟨hsize, by omega⟩]
      have hne : pending ≠ [] := by
        rintro rfl
        exact hempty h.batchCount
      exact ⟨out ++ pending, [], by simp, by simp, (h.flush hne false).withSize len, rfl⟩

/-- **One packet more**: it is sent or pending, after those before it. -/
theorem Batched.step {s : GsoState} {out pending : List Bytes} (h : Batched limit s out pending)
    (hfull : pending.length < limit) {wireBuf : Bytes} {e : ℕ × ℕ}
    (hrange : e.1 + e.2 ≤ wireBuf.length) (hlen : 0 < e.2) :
    ∃ out' pending', out' ++ pending' = out ++ pending ++ [(wireBuf.drop e.1).take e.2] ∧
      pending'.length < limit ∧ Batched limit (s.step limit wireBuf e) out' pending' := by
  have hpkt : ((wireBuf.drop e.1).take e.2).length = e.2 := Blocks.length_slice hrange
  obtain ⟨out', pending', hsame, hle, hbatched, hsize⟩ := h.beforePacket e.2
  set pkt := (wireBuf.drop e.1).take e.2
  have hadded : Batched limit
      { s.beforePacket e.2 with
        superBuf := (s.beforePacket e.2).superBuf ++ pkt
        batchCount := (s.beforePacket e.2).batchCount + 1 } out' (pending' ++ [pkt]) :=
    { hbatched with
      superBuf := by simp [hbatched.superBuf]
      batchCount := by simp [hbatched.batchCount]
      length_le := by
        rw [List.length_append, List.length_singleton]
        omega
      size := by
        refine List.forall_mem_append.mpr ⟨hbatched.size, List.forall_mem_singleton.mpr ?_⟩
        rw [hpkt]
        exact ⟨hsize.symm, hlen⟩ }
  unfold GsoState.step
  dsimp only
  split
  · refine ⟨out' ++ (pending' ++ [pkt]), [], ?_, Nat.lt_of_le_of_lt (Nat.zero_le _) hfull,
      hadded.flush (by simp) true⟩
    rw [← hsame]
    simp
  · next hnot =>
      refine ⟨out', pending' ++ [pkt], ?_, ?_, hadded⟩
      · rw [← hsame, List.append_assoc]
      · rw [← hadded.batchCount]
        exact Nat.lt_of_not_le hnot

/-- **A run of the batching loop** over entries of the wire buffer. -/
theorem Batched.foldl {wireBuf : Bytes} (es : List (ℕ × ℕ)) :
    ∀ {s : GsoState} {out pending : List Bytes}, Batched limit s out pending →
      pending.length < limit → (∀ e ∈ es, e.1 + e.2 ≤ wireBuf.length ∧ 0 < e.2) →
      ∃ out' pending',
        out' ++ pending' = out ++ pending ++ es.map (fun e => (wireBuf.drop e.1).take e.2) ∧
        Batched limit (es.foldl (GsoState.step limit wireBuf) s) out' pending' := by
  induction es with
  | nil =>
      intro s out pending h _ _
      exact ⟨out, pending, by simp, h⟩
  | cons e es ih =>
      intro s out pending h hfull hes
      obtain ⟨hrange, hlen⟩ := hes e List.mem_cons_self
      obtain ⟨out₁, pending₁, hsame, hfull₁, hstep⟩ := h.step hfull hrange hlen
      obtain ⟨out', pending', hsame', hrest⟩ :=
        ih hstep hfull₁ fun e' he' => hes e' (List.mem_cons_of_mem e he')
      refine ⟨out', pending', ?_, hrest⟩
      rw [hsame', hsame, List.map_cons, List.append_assoc, List.singleton_append]

/-- **The batches are the packets**: cut up again, in order, they are the slices of the buffer. -/
theorem gsoBlast_batched (hlimit : 0 < limit) {w : WireBuf} (hw : w.InRange)
    (hpos : ∀ e ∈ w.pktIndex, 0 < e.2) :
    ((gsoBlast limit w).sends.flatMap fun x => x.data.segments) = w.slices ∧
      (∀ x ∈ (gsoBlast limit w).sends, x.data.WellFormed limit) ∧
      (gsoBlast limit w).bytesSent = w.slices.flatten.length ∧
      (gsoBlast limit w).packetsSent = w.slices.length := by
  obtain ⟨out, pending, hsame, hbatched⟩ := batched_start.foldl w.pktIndex hlimit
    fun e he => ⟨hw e he, hpos e he⟩
  have hslices : out ++ pending = w.slices := hsame
  have hend : ∃ s, (gsoBlast limit w) = s.blast ∧ Batched limit s w.slices [] := by
    unfold gsoBlast
    dsimp only
    rcases List.eq_nil_or_concat pending with rfl | ⟨_, _, hpending⟩
    · rw [if_neg (by rw [hbatched.batchCount]; simp)]
      rw [List.append_nil] at hslices
      exact ⟨_, rfl, hslices ▸ hbatched⟩
    · have hne : pending ≠ [] := by simp [hpending]
      rw [if_pos (by rw [hbatched.batchCount]; exact List.length_pos_iff.mpr hne)]
      exact ⟨_, rfl, hslices ▸ hbatched.flush hne false⟩
  obtain ⟨s, hs, hall⟩ := hend
  rw [hs]
  exact ⟨hall.segments, hall.wellFormed, hall.bytesSent, hall.packetsSent⟩

/-! ## The two paths -/

theorem plainLoop_eq (paceCheck : ℕ) (wireBuf : Bytes) (es : List (ℕ × ℕ)) :
    ∀ (s : Blast Bytes) (idx : ℕ),
      let pkts := es.map fun e => (wireBuf.drop e.1).take e.2
      ((plainLoop paceCheck wireBuf s idx es).sends.map BlastSend.data)
          = s.sends.map BlastSend.data ++ pkts ∧
        (plainLoop paceCheck wireBuf s idx es).bytesSent = s.bytesSent + pkts.flatten.length ∧
        (plainLoop paceCheck wireBuf s idx es).packetsSent = s.packetsSent + pkts.length := by
  induction es with
  | nil =>
      intro s idx
      simp [plainLoop]
  | cons e es ih =>
      intro s idx
      obtain ⟨hsends, hbytes, hpackets⟩ := ih (plainStep paceCheck wireBuf s idx e) (idx + 1)
      refine ⟨?_, ?_, ?_⟩
      · rw [plainLoop, hsends]
        simp [plainStep]
      · rw [plainLoop, hbytes]
        simp [plainStep]
        omega
      · rw [plainLoop, hpackets]
        simp [plainStep]
        omega

theorem plainBlast_eq (paceCheck : ℕ) (w : WireBuf) :
    (plainBlast paceCheck w).sends.map BlastSend.data = w.slices ∧
      (plainBlast paceCheck w).bytesSent = w.slices.flatten.length ∧
      (plainBlast paceCheck w).packetsSent = w.slices.length := by
  obtain ⟨hsends, hbytes, hpackets⟩ :=
    plainLoop_eq paceCheck w.bytes w.pktIndex ⟨[], 0, 0⟩ 0
  refine ⟨hsends, ?_, ?_⟩
  · rw [plainBlast, hbytes, Nat.zero_add]
    rfl
  · rw [plainBlast, hpackets, Nat.zero_add]
    rfl

/-- **The path with segmentation offload sends what the plain path sends**: its batches have between
one and 64 packets of the segment size, which cutting them up gives back, and the counts agree. The
segment size in the control message is the right one for packets below 64 KiB. -/
theorem gso_eq_plain {w : WireBuf} (hw : w.InRange) (hpos : ∀ e ∈ w.pktIndex, 0 < e.2) :
    (∀ x ∈ (gsoBlast GSO_BATCH w).sends, x.data.WellFormed 64 ∧
      ((∀ e ∈ w.pktIndex, e.2 < 2 ^ 16) → x.data.segSize = x.data.segmentSize)) ∧
    ((gsoBlast GSO_BATCH w).sends.flatMap fun x => x.data.segments)
      = (plainBlast PACE_CHECK w).sends.map BlastSend.data ∧
    (gsoBlast GSO_BATCH w).packetsSent = (plainBlast PACE_CHECK w).packetsSent ∧
    (gsoBlast GSO_BATCH w).bytesSent = (plainBlast PACE_CHECK w).bytesSent := by
  have hlimit : 0 < GSO_BATCH := by decide
  obtain ⟨hsegments, hformed, hbytes, hpackets⟩ := gsoBlast_batched hlimit hw hpos
  obtain ⟨hsends', hbytes', hpackets'⟩ := plainBlast_eq PACE_CHECK w
  refine ⟨fun x hx => ⟨hformed x hx, fun hshort => ?_⟩, hsegments.trans hsends'.symm,
    hpackets.trans hpackets'.symm, hbytes.trans hbytes'.symm⟩
  -- the segment size is the length of some packet
  obtain ⟨hone, -, hcount, -, hlen⟩ := hformed x hx
  obtain ⟨pkt, hpkt⟩ := List.exists_mem_of_length_pos (show 0 < x.data.segments.length by omega)
  have hmem : pkt ∈ w.slices := hsegments ▸ List.mem_flatMap.mpr ⟨x, hx, hpkt⟩
  obtain ⟨e, he, rfl⟩ := List.mem_map.mp hmem
  have hle : ((w.bytes.drop e.1).take e.2).length ≤ e.2 := List.length_take_le _ _
  have := hshort e he
  rw [GsoBatch.segSize, ← hlen _ hpkt]
  exact Nat.mod_eq_of_lt (by omega)

/-- Two sizes: the batch is sent when the size changes. -/
def mixedSizes : WireBuf := ((WireBuf.empty.push [1, 2]).push [3, 4]).push [5]

theorem gso_eq_plain_mixedSizes :
    (gsoBlast GSO_BATCH mixedSizes).sends.flatMap (fun x => x.data.segments)
      = (plainBlast PACE_CHECK mixedSizes).sends.map BlastSend.data ∧
    (gsoBlast GSO_BATCH mixedSizes).packetsSent = 3 ∧
    (gsoBlast GSO_BATCH mixedSizes).bytesSent = 5 := by
  obtain ⟨-, hsegments, hpackets, hbytes⟩ := gso_eq_plain (w := mixedSizes)
    (((WireBuf.inRange_empty.push _).push _).push _) (by decide)
  exact ⟨hsegments, hpackets, hbytes⟩

end Updown
