import Updown.Engine.Deadlock

set_option autoImplicit false

/-! # Transfers of which every packet arrives

`AllArrive sent` is the network that in the end delivers everything in `sent`: the idle timeout of
the receive task comes only after that, and neither socket nor disk fails. If `sent` has every
block, every transfer comes to its end, complete and with no resume file (`inevitable_completed`);
if a block is missing, a transfer can only time out (`exists_timedOut`).
-/

namespace Updown.RecvFile

open Transition

variable {C : Crates} {p : RecvParams} {sent : List Bytes} {rng : ℕ → Vector UInt8 4} {now : ℕ}
  {disk : Disk} {s : RecvFile C.raptorq}

/-- What is sent arrives, in any order and number, mixed with datagrams that do not open; the
receive task times out only when all of it has arrived. -/
def AllArrive (C : Crates) (p : RecvParams) (sent : List Bytes) (s : RecvFile C.raptorq) :
    RecvEvent → Prop
  | .datagram _ data => data ∈ sent ∨ p.opens C data = none
  | .idleTimeout => ∀ d ∈ sent, d ∈ s.log.arrived
  | .recvError => False
  | .writeFails _ => False
  | .ioFails => False
  | _ => True

theorem permitsEnd_allArrive : PermitsEnd (AllArrive C p sent) :=
  ⟨fun _ => trivial, fun _ => trivial, fun _ _ => trivial⟩

/-- There is nothing left to wait for: everything has arrived, or every block has been decoded and
the receive task has stopped reading. -/
def Settled (sent : List Bytes) (s : RecvFile C.raptorq) : Prop :=
  (∀ d ∈ sent, d ∈ s.log.arrived) ∨ s.receiver.allReceived

/-- The transfer has ended through the "all blocks received" exit, is complete, and has left no
resume file. -/
structure Completed {Q : RaptorQ} (s : RecvFile Q) : Prop where
  writer : s.writer.finished = true
  task : s.task = .exited .allReceived
  complete : s.resume.isTransferComplete = true
  resumeFile : s.resumeFile = none

/-! ## What the decoders have been fed -/

/-- The decoder of a block that is still open has been fed every packet of it that arrived, and has
returned nothing. -/
def Heard (C : Crates) (p : RecvParams) (K : ℕ → C.raptorq.Packet → Prop)
    (s : RecvFile C.raptorq) : Prop :=
  ∀ id len, id ∉ s.receiver.completedBlocks → p.decoderLen id = .ok len →
    C.raptorq.noSourceBlocks len SYMBOL_SIZE = false →
    ∃ fed, (s.receiver.decoderFor id len).FedWith len fed ∧ C.raptorq.Undecoded len fed ∧
      (∀ q ∈ fed, K id q) ∧
      ∀ d ∈ s.log.arrived, ∀ plain, p.opens C d = some (id, plain) →
        C.raptorq.deserialize plain ∈ fed

variable {K : ℕ → C.raptorq.Packet → Prop}

theorem heard_start (C : Crates) (p : RecvParams) (K : ℕ → C.raptorq.Packet → Prop)
    (rng : ℕ → Vector UInt8 4) (now : ℕ) (disk : Disk) :
    Heard C p K (start C.raptorq p rng now disk) :=
  fun _ len _ _ _ => ⟨[], FecDecoder.fedWith_new len, C.raptorq.undecoded_nil len, by simp,
    fun _ hd => by cases hd⟩

theorem Heard.of_eq {s s' : RecvFile C.raptorq} (h : Heard C p K s)
    (hreceiver : s'.receiver = s.receiver) (harrived : s'.log.arrived = s.log.arrived) :
    Heard C p K s' := by
  intro id len
  rw [hreceiver, harrived]
  exact h id len

/-- A datagram is heard by the decoder of its block. -/
theorem Heard.datagram {s : RecvFile C.raptorq} (h : Heard C p K s) (hb : s.Bookkeeping p)
    {data : Bytes} {r : UdpReceiver C.raptorq} {res : PacketResult}
    (hK : ∀ id plain, p.opens C data = some (id, plain) → K id (C.raptorq.deserialize plain))
    (heffect : s.receiver.Effect C data r res) : Heard C p K (s.afterReceive data r res) := by
  -- a block the datagram is not of
  have hkeep : ∀ {id len : ℕ}, id ∉ s.receiver.completedBlocks → p.decoderLen id = .ok len →
      C.raptorq.noSourceBlocks len SYMBOL_SIZE = false →
      r.pendingBlocks id = s.receiver.pendingBlocks id →
      (∀ plain, p.opens C data ≠ some (id, plain)) →
      ∃ fed, (r.decoderFor id len).FedWith len fed ∧ C.raptorq.Undecoded len fed ∧
        (∀ q ∈ fed, K id q) ∧
        ∀ d ∈ s.log.arrived ++ [data], ∀ plain, p.opens C d = some (id, plain) →
          C.raptorq.deserialize plain ∈ fed := by
    intro id len hid hlen hsplit hpending hnot
    obtain ⟨fed, hfed, hun, hKfed, hall⟩ := h id len hid hlen hsplit
    refine ⟨fed, by rwa [UdpReceiver.decoderFor_congr hpending], hun, hKfed, ?_⟩
    intro d hd plain hopen
    rcases List.mem_append.mp hd with hd | hd
    · exact hall d hd plain hopen
    · rw [List.mem_singleton.mp hd] at hopen
      exact absurd hopen (hnot plain)
  have hsame : ∀ {id id' : ℕ} {plain plain' : Bytes}, p.opens C data = some (id, plain) →
      p.opens C data = some (id', plain') → id' = id ∧ plain' = plain :=
    fun h h' => Prod.mk.inj (Option.some.inj (h'.symm.trans h))
  intro id len hid hlen hsplit
  cases heffect with
  | ignored hauth hpending hcomp hres =>
      rw [afterReceive_receiver, hcomp] at hid
      rw [hb.config.authentic_eq] at hauth
      exact hkeep hid hlen hsplit (by rw [hpending]) fun plain hopen => hid (hauth id plain hopen)
  | @faulted id₀ plain₀ fault hauth hnew hunopenable hpending hcomp =>
      rw [afterReceive_receiver, hcomp] at hid
      rw [hb.config.authentic_eq] at hauth
      refine hkeep hid hlen hsplit (by rw [hpending]) fun plain hopen => ?_
      obtain ⟨rfl, -⟩ := hsame hauth hopen
      rw [← hb.config.actualBlockLen_eq] at hlen
      exact UdpReceiver.not_unopenable hlen hsplit fault hunopenable
  | @absorbed id₀ len₀ plain₀ entry hauth hnew hlen₀ hadd hpending hcomp =>
      rw [afterReceive_receiver, hcomp] at hid
      rw [hb.config.authentic_eq] at hauth
      rw [hb.config.actualBlockLen_eq] at hlen₀
      by_cases heq : id = id₀
      · subst heq
        obtain rfl : len₀ = len := Except.ok.inj (hlen₀.symm.trans hlen)
        obtain ⟨fed, hfed, hun, hKfed, hall⟩ := h id len₀ hid hlen hsplit
        obtain ⟨hnone, hfed'⟩ := hfed.of_absorbed hadd
        refine ⟨fed ++ [C.raptorq.deserialize plain₀], ?_, hun.snoc hnone, ?_, ?_⟩
        · simpa [UdpReceiver.decoderFor, hpending] using hfed'
        · exact List.forall_mem_append.mpr
            ⟨hKfed, List.forall_mem_singleton.mpr (hK id plain₀ hauth)⟩
        · intro d hd plain hopen
          rcases List.mem_append.mp hd with hd | hd
          · exact List.mem_append_left _ (hall d hd plain hopen)
          · rw [List.mem_singleton.mp hd] at hopen
            rw [(hsame hauth hopen).2]
            exact List.mem_append_right _ (List.mem_singleton.mpr rfl)
      · refine hkeep hid hlen hsplit (by rw [hpending, Function.update_of_ne heq])
          fun plain hopen => ?_
        exact heq (hsame hauth hopen).1
  | @decoded len₀ plain₀ block hauth hnew hlen₀ hadd hpending hcomp =>
      rw [afterReceive_receiver, hcomp, List.mem_append, not_or] at hid
      rw [hb.config.authentic_eq] at hauth
      have heq : id ≠ block.blockId := fun heq => hid.2 (by simp [heq])
      refine hkeep hid.1 hlen hsplit (by rw [hpending, Function.update_of_ne heq])
        fun plain hopen => ?_
      exact heq (hsame hauth hopen).1

/-- **Open blocks have been fed all that arrived for them.** -/
theorem heard_of_reaches {P : RecvFile C.raptorq → RecvEvent → Prop}
    (hP : ∀ s e, P s e → Arrivals C p K s e)
    (hrun : Reaches (RecvFile.step C p) P (start C.raptorq p rng now disk) s) : Heard C p K s := by
  refine hrun.invariant_along (heard_start C p K rng now disk) fun u e u' hu hheard he hs => ?_
  cases step_cases hs with
  | datagram now data r res htask hopen hconfig heffect =>
      exact hheard.datagram (bookkeeping_of_reaches hu) (hP u _ he now data rfl) heffect
  | take save block rest s' hwriter hchannel htake =>
      obtain ⟨hframe, -⟩ := htake.frame
      exact hheard.of_eq hframe.receiver hframe.arrived
  | writeFails n block rest s' hwriter hchannel hnew hfail =>
      obtain ⟨hframe, -⟩ := hfail.frame
      exact hheard.of_eq hframe.receiver hframe.arrived
  | _ => exact hheard.of_eq rfl rfl

/-- **A block of which every source packet has arrived is decoded.** -/
theorem Heard.mem_completed (hC : C.Correct) (h : Heard C p K s) {id : ℕ} {data : Bytes}
    (hlen : p.decoderLen id = .ok data.length) (hne : data ≠ []) (hsmall : data.length < 2 ^ 32)
    (hK : ∀ q, K id q → C.raptorq.IsPacketOf data q)
    (hall : ∀ be ∈ C.raptorq.blockEncoders data SYMBOL_SIZE, ∀ q ∈ C.raptorq.sourcePackets be,
      ∃ d ∈ s.log.arrived, p.opens C d = some (id, C.raptorq.serialize q)) :
    id ∈ s.receiver.completedBlocks := by
  by_contra hid
  obtain ⟨fed, -, hun, hKfed, hfed⟩ := h id data.length hid hlen
    (hC.raptorq.noSourceBlocks_of_pos (List.length_pos_iff.mpr hne) hsmall)
  have hsource : ∀ be ∈ C.raptorq.blockEncoders data SYMBOL_SIZE,
      ∀ q ∈ C.raptorq.sourcePackets be, q ∈ fed := by
    intro be hbe q hq
    obtain ⟨d, hd, hopen⟩ := hall be hbe q hq
    have := hfed d hd _ hopen
    rwa [hC.raptorq.deserialize_serialize] at this
  obtain ⟨pre, q, post, hsplit, hout⟩ :=
    hC.raptorq.decode_complete hne hsmall (fun q hq => hK q (hKfed q hq)) hsource
  rw [hun pre q post hsplit] at hout
  cases hout

/-! ## The two tasks -/

/-- What everything that follows assumes: the numbers fit, no block has 4 GiB, and what is sent
carries block ids in range. -/
structure SoundTransfer (C : Crates) (p : RecvParams) (sent : List Bytes) (disk : Disk) : Prop where
  fits : p.Fits
  blockSize_lt : p.blockSize < 2 ^ 32
  blockLen_lt : ∀ id < p.totalBlocks, p.blockLen id < 2 ^ 32
  disk_sound : disk.Sound
  ids_lt : ∀ d ∈ sent, ∀ id plain, p.opens C d = some (id, plain) → id < p.totalBlocks

theorem SoundTransfer.idsBelow (h : SoundTransfer C p sent disk) (s : RecvFile C.raptorq)
    (e : RecvEvent) (he : AllArrive C p sent s e) : IdsBelow C p s e := by
  rintro now data rfl id plain hopen
  rcases he with hmem | hnone
  · exact h.ids_lt data hmem id plain hopen
  · rw [hnone] at hopen
    cases hopen

theorem SoundTransfer.recorded (h : SoundTransfer C p sent disk)
    (hrun : Reaches (RecvFile.step C p) (AllArrive C p sent) (start C.raptorq p rng now disk) s) :
    s.Recorded p :=
  recorded_of_reaches h.fits (fun _ _ hid => hid) h.disk_sound
    (fun u e he => arrivals_of_idsBelow u e (h.idsBelow u e he)) hrun

/-- Decoded blocks are in range and of the right length. -/
theorem SoundTransfer.decoded (hC : C.Correct) (h : SoundTransfer C p sent disk)
    (hrun : Reaches (RecvFile.step C p) (AllArrive C p sent) (start C.raptorq p rng now disk) s)
    {block : ReceivedBlock} (hblock : block ∈ s.decodedBlocks) :
    block.blockId < p.totalBlocks ∧ block.data.length = p.blockLen block.blockId := by
  have hfrom := (provenance_of_reaches
    (fun u e he => arrivals_of_idsBelow u e (h.idsBelow u e he)) hrun).blocks block hblock
  obtain ⟨-, hid⟩ := hfrom.exists_packet
  exact ⟨hid, Except.ok.inj ((hfrom.length hC).symm.trans (h.fits.decoderLen hid))⟩

theorem SoundTransfer.noFault (hC : C.Correct) (h : SoundTransfer C p sent disk)
    (hrun : Reaches (RecvFile.step C p) (AllArrive C p sent) (start C.raptorq p rng now disk) s) :
    s.NoFault := by
  have hnum : p.totalBlocks = 0 ∨ p.Fillable C.raptorq := by
    rcases Nat.eq_zero_or_pos p.totalBlocks with h0 | hpos
    · exact Or.inl h0
    · exact Or.inr (h.fits.fillable hC.raptorq hpos h.blockLen_lt)
  exact no_fault_of_reaches hC h.blockSize_lt hnum (hrun.mono fun _ _ _ => trivial)

/-- Neither task has failed, and they keep in step. -/
structure InStep {Q : RaptorQ} (p : RecvParams) (s : RecvFile Q) : Prop where
  /-- The writer takes blocks, waits, or has returned a result. -/
  writer : s.writer = .looping ∨ s.writer = .awaiting ∨ s.writer.finished = true
  /-- It leaves its loop with enough blocks written, or when the channel is closed. -/
  awaiting : s.writer = .awaiting →
    p.totalBlocks ≤ s.blocksWritten ∨ (s.channel = [] ∧ s.task.ended = true)
  finished : s.writer.finished = true → ∃ why, s.task = .exited why
  /-- The blocks it has taken are marked. -/
  taken : ∃ taken, s.log.delivered = taken ++ s.channel ∧
    ∀ block ∈ taken, s.resume.isComplete block.blockId = true

theorem inStep_start (Q : RaptorQ) (rng : ℕ → Vector UInt8 4) (now : ℕ) (disk : Disk) :
    (start Q p rng now disk).InStep p where
  writer := Or.inl rfl
  awaiting := by intro h; cases h
  finished := by intro h; cases h
  taken := ⟨[], rfl, by simp⟩

/-- The receive task has not ended, so the writer has not returned. -/
theorem InStep.not_finished {Q : RaptorQ} {s : RecvFile Q} (h : s.InStep p)
    (htask : s.task.ended = false) : s.writer.finished = false := by
  by_contra hfin
  obtain ⟨why, hwhy⟩ := h.finished (by simpa using hfin)
  rw [hwhy] at htask
  cases htask

/-- A step of the receive task that leaves the writer alone. -/
theorem InStep.of_receiving {Q : RaptorQ} {s s' : RecvFile Q} (h : s.InStep p)
    (hwriter : s'.writer = s.writer) (hwritten : s'.blocksWritten = s.blocksWritten)
    (hresume : s'.resume = s.resume) (htask : s.task.ended = false)
    (htaken : ∀ taken, s.log.delivered = taken ++ s.channel →
      s'.log.delivered = taken ++ s'.channel) : s'.InStep p := by
  obtain ⟨taken, heq, hmarked⟩ := h.taken
  have hnot := h.not_finished htask
  refine ⟨hwriter ▸ h.writer, fun hw => Or.inl ?_, fun hfin => ?_, taken, htaken taken heq,
    hresume ▸ hmarked⟩
  · rw [hwriter] at hw
    rw [hwritten]
    refine (h.awaiting hw).resolve_right fun hend => ?_
    rw [htask] at hend
    exact Bool.false_ne_true hend.2
  · rw [hwriter, hnot] at hfin
    cases hfin

/-- **Taking a block in range** marks it, if it is not marked yet. -/
theorem InStep.take {s s' : RecvFile C.raptorq} (h : s.InStep p) (hfits : p.Fits)
    (hrec : s.Recorded p) (hwriter : s.writer = .looping) {block : ReceivedBlock}
    {rest : List ReceivedBlock} (hchannel : s.channel = block :: rest)
    (hid : block.blockId < p.totalBlocks) (hlen : block.data.length = p.blockLen block.blockId)
    {save : SaveOutcome} (htake : TakeCases C p save { s with channel := rest } block s') :
    s'.InStep p := by
  obtain ⟨taken, heq, hmarked⟩ := h.taken
  have hsplit : s.log.delivered = (taken ++ [block]) ++ rest := by
    rw [heq, hchannel, List.append_assoc, List.singleton_append]
  have hrecord : s.resume.isComplete block.blockId = false →
      ({ s with channel := rest } : RecvFile C.raptorq).CanRecord block.blockId := by
    intro hnew
    obtain ⟨hhash, hcount⟩ := hrec.canRecord hid hnew
    exact ⟨hhash, hcount⟩
  rcases htake.ok hfits hid hrecord hlen with ⟨hdone, rfl⟩ | ⟨resume, chunk, hnew, hmark, rfl⟩
  · -- it was marked before
    refine ⟨Or.inl hwriter, fun hw => ?_, fun hfin => ?_, taken ++ [block], hsplit, ?_⟩
    · exact absurd (hwriter.symm.trans hw) (by simp)
    · rw [show _ = WriterTask.looping from hwriter] at hfin
      cases hfin
    · exact List.forall_mem_append.mpr ⟨hmarked, List.forall_mem_singleton.mpr hdone⟩
  · -- it is written and marked, and may be the last
    have hcomplete := ResumeState.isComplete_markComplete hmark (hrec.bitmap.lt_length hid)
    refine ⟨?_, fun hw => Or.inl ?_, fun hfin => ?_, taken ++ [block], hsplit, ?_⟩
    · simp only [recordBlock]
      split
      · exact Or.inr (Or.inl rfl)
      · exact Or.inl rfl
    · simp only [recordBlock] at hw ⊢
      split at hw
      · assumption
      · cases hw
    · simp only [recordBlock] at hfin
      split at hfin <;> cases hfin
    · intro block' hblock'
      rw [recordBlock_resume, hcomplete, Bool.or_eq_true, decide_eq_true_iff]
      rcases List.mem_append.mp hblock' with hblock' | hblock'
      · exact Or.inr (hmarked block' hblock')
      · rw [List.mem_singleton.mp hblock']
        exact Or.inl rfl

/-- **Every step of a transfer with a network that delivers keeps the tasks in step.** -/
theorem inStep_of_reaches (hC : C.Correct) (h : SoundTransfer C p sent disk)
    (hrun : Reaches (RecvFile.step C p) (AllArrive C p sent) (start C.raptorq p rng now disk) s) :
    s.InStep p := by
  refine hrun.invariant_along (inStep_start _ _ _ _) fun u e u' hu hin he hs => ?_
  have hbook := bookkeeping_of_reaches hu
  cases step_cases hs with
  | datagram now data r res htask =>
      exact hin.of_receiving rfl rfl rfl (by rw [htask]; rfl) fun _ ht => ht
  | recvError => exact he.elim
  | idleTimeout htask | exitAll htask =>
      exact hin.of_receiving rfl rfl rfl (by rw [htask]; rfl) fun _ ht => ht
  | send block htask =>
      refine hin.of_receiving rfl rfl rfl (by rw [htask]; rfl) fun taken ht => ?_
      simp only [pushBlock, ht, List.append_assoc]
  | sendFailed block htask hclosed =>
      exact hin.of_receiving rfl rfl rfl (by rw [htask]; rfl) fun _ ht => ht
  | take save block rest s' hwriter hchannel htake =>
      have hmem : block ∈ u.channel := by simp [hchannel]
      obtain ⟨hid, hlen⟩ := h.decoded hC hu (hbook.mem_decodedBlocks hmem)
      exact hin.take h.fits (h.recorded hu) hwriter hchannel hid hlen htake
  | writeFails => exact he.elim
  | channelEnd hwriter hchannel hended =>
      exact ⟨Or.inr (Or.inl rfl), fun _ => Or.inr ⟨hchannel, hended⟩, fun hfin => (by cases hfin),
        hin.taken⟩
  | finish save why hwriter htask =>
      exact ⟨Or.inr (Or.inr rfl), fun hw => (by cases hw), fun _ => ⟨why, htask⟩, hin.taken⟩
  | joinFails save fault hwriter htask => exact absurd htask ((h.noFault hC hu).task fault)
  | ioFails => exact he.elim

/-! ## Every block sent -/

/-- The datagrams hold every source packet of every block, and packets of these blocks only. -/
structure FullySent (C : Crates) (p : RecvParams) (sent : List Bytes) (data : ℕ → Bytes) :
    Prop where
  genuine : ∀ d ∈ sent, ∀ id plain, p.opens C d = some (id, plain) →
    id < p.totalBlocks ∧ C.raptorq.IsPacketOf (data id) (C.raptorq.deserialize plain)
  length : ∀ id < p.totalBlocks, (data id).length = p.blockLen id
  small : ∀ id < p.totalBlocks, (data id).length < 2 ^ 32
  all : ∀ id < p.totalBlocks, ∀ be ∈ C.raptorq.blockEncoders (data id) SYMBOL_SIZE,
    ∀ q ∈ C.raptorq.sourcePackets be, ∃ d ∈ sent, p.opens C d = some (id, C.raptorq.serialize q)

variable {data : ℕ → Bytes}

theorem FullySent.sound (h : FullySent C p sent data) (hfits : p.Fits)
    (hblock : p.blockSize < 2 ^ 32) (hdisk : disk.Sound) : SoundTransfer C p sent disk :=
  ⟨hfits, hblock, fun id hid => h.length id hid ▸ h.small id hid, hdisk,
    fun d hd id plain hopen => (h.genuine d hd id plain hopen).1⟩

/-- **With everything arrived, all blocks are decoded.** -/
theorem FullySent.allReceived (hC : C.Correct) (h : FullySent C p sent data) (hfits : p.Fits)
    (hrun : Reaches (RecvFile.step C p) (AllArrive C p sent) (start C.raptorq p rng now disk) s)
    (harrived : ∀ d ∈ sent, d ∈ s.log.arrived) : s.receiver.allReceived := by
  have hheard : Heard C p
      (fun id q => id < p.totalBlocks ∧ C.raptorq.IsPacketOf (data id) q) s := by
    refine heard_of_reaches (fun u e he => ?_) hrun
    rintro now d rfl id plain hopen
    rcases he with hmem | hnone
    · exact h.genuine d hmem id plain hopen
    · rw [hnone] at hopen
      cases hopen
  have hbook := bookkeeping_of_reaches hrun
  have hmem : ∀ id < p.totalBlocks, id ∈ s.receiver.completedBlocks := by
    intro id hid
    have hlen := h.length id hid
    refine hheard.mem_completed hC (by rw [hfits.decoderLen hid, hlen]) ?_ (h.small id hid)
      (fun q hq => hq.2) fun be hbe q hq => ?_
    · intro hnil
      have hpos := hfits.blockLen_pos hid
      rw [← hlen, hnil, List.length_nil] at hpos
      exact lt_irrefl 0 hpos
    · obtain ⟨d, hd, hopen⟩ := h.all id hid be hbe q hq
      exact ⟨d, harrived d hd, hopen⟩
  rw [hbook.allReceived_iff]
  refine le_antisymm hbook.length_le ?_
  have hsub : List.range p.totalBlocks ⊆ s.receiver.completedBlocks :=
    fun id hid => hmem id (List.mem_range.mp hid)
  have := (List.nodup_range.subperm hsub).length_le
  rwa [List.length_range] at this

/-- The receive task leaves its loop by the "all blocks received" exit only. -/
theorem FullySent.exited (hC : C.Correct) (h : FullySent C p sent data)
    (hsound : SoundTransfer C p sent disk)
    (hrun : Reaches (RecvFile.step C p) (AllArrive C p sent) (start C.raptorq p rng now disk) s)
    {why : LoopExit} (hwhy : s.task = .exited why) : why = .allReceived := by
  refine hrun.invariant_along (I := fun u => ∀ why, u.task = .exited why → why = .allReceived)
    (fun why hw => by cases hw) (fun u e u' hu hinv he hs why hw => ?_) why hwhy
  cases step_cases hs with
  | datagram now data r res htask hopen hconfig heffect =>
      rcases res with (_ | block) | _ | fault <;> cases hw
  | recvError => exact hinv why hw
  | idleTimeout htask hopen => exact absurd (h.allReceived hC hsound.fits hu he) hopen
  | exitAll => exact (RecvTask.exited.inj hw).symm
  | send => cases hw
  | sendFailed block htask hclosed =>
      have hin := inStep_of_reaches hC hsound hu
      have hnot := hin.not_finished (by rw [htask]; rfl)
      rcases hin.writer with hwr | hwr | hwr
      · rw [hwr] at hclosed
        cases hclosed
      · rw [hwr] at hclosed
        cases hclosed
      · rw [hwr] at hnot
        cases hnot
  | take save block rest s' hwriter hchannel htake =>
      obtain ⟨hframe, -⟩ := htake.frame
      rw [hframe.task] at hw
      exact hinv why hw
  | writeFails => exact he.elim
  | channelEnd | finish | joinFails | ioFails => exact hinv why hw

/-- **A transfer that has returned is complete.** -/
theorem FullySent.completed (hC : C.Correct) (h : FullySent C p sent data)
    (hsound : SoundTransfer C p sent disk)
    (hrun : Reaches (RecvFile.step C p) (AllArrive C p sent) (start C.raptorq p rng now disk) s)
    (hdone : s.writer.finished = true) : s.Completed := by
  refine hrun.invariant_along (I := fun u => u.writer.finished = true → u.Completed)
    (fun hw => by cases hw) (fun u e u' hu hinv he hs hw => ?_) hdone
  have hin := inStep_of_reaches hC hsound hu
  have hrec := hsound.recorded hu
  have hbook := bookkeeping_of_reaches hu
  have hrunning : ∀ task, u.task = task → task.ended = false → u.writer.finished ≠ true := by
    intro task htask hend hfin
    rw [hin.not_finished (htask ▸ hend)] at hfin
    cases hfin
  cases step_cases hs with
  | datagram now data r res htask => exact absurd hw (hrunning _ htask rfl)
  | recvError htask | idleTimeout htask | exitAll htask | send block htask
  | sendFailed block htask => exact absurd hw (hrunning _ htask rfl)
  | take save block rest s' hwriter hchannel htake =>
      cases htake with
      | skipped =>
          rw [show u.writer = _ from hwriter] at hw
          cases hw
      | wrote =>
          simp only [recordBlock] at hw
          split at hw <;> cases hw
      | _ => cases hw
  | writeFails => exact he.elim
  | channelEnd => cases hw
  | joinFails => cases hw
  | ioFails => cases hw
  | finish save why hwriter htask =>
      obtain rfl := h.exited hC hsound hu htask
      -- every block has been counted, or every block has been taken
      have hcomplete : u.resume.isTransferComplete = true := by
        rcases hin.awaiting hwriter with hcount | ⟨hchannel, -⟩
        · rw [ResumeState.isTransferComplete, hrec.totalBlocks_eq, ← hrec.blocksWritten_eq]
          exact decide_eq_true hcount
        · obtain ⟨taken, heq, hmarked⟩ := hin.taken
          rw [hchannel, List.append_nil] at heq
          rw [hrec.wellFormed.isTransferComplete_iff, hrec.totalBlocks_eq]
          intro id hid
          obtain ⟨block, hblock, rfl⟩ := hbook.mem_delivered htask
            (fun block hblock => (hsound.decoded hC hu hblock).1) hid
          exact hmarked block (heq ▸ hblock)
      exact ⟨rfl, htask, hcomplete, if_pos hcomplete⟩

/-- What is left to do once the receive task has stopped reading. -/
def RecvTask.rank : RecvTask → ℕ
  | .sending _ => 3
  | .running => 1
  | _ => 0

def WriterTask.rank : WriterTask → ℕ
  | .looping => 2
  | .awaiting => 1
  | _ => 0

def remaining {Q : RaptorQ} (s : RecvFile Q) : ℕ :=
  RecvTask.rank s.task + s.channel.length + WriterTask.rank s.writer

/-- A finished transfer does not move. -/
theorem not_moves_of_finished {P : RecvFile C.raptorq → RecvEvent → Prop} {why : LoopExit}
    (hdone : s.writer.finished = true) (htask : s.task = .exited why) (s' : RecvFile C.raptorq) :
    ¬ Moves (RecvFile.step C p) P s s' := by
  rintro ⟨e, -, hs⟩
  obtain ⟨result, hresult⟩ := WriterTask.exists_of_finished hdone
  cases e <;> simp [step, htask, hresult] at hs

/-- **Once all blocks are decoded every move comes closer to the end.** -/
theorem remaining_lt (hC : C.Correct) (hsound : SoundTransfer C p sent disk)
    (hrun : Reaches (RecvFile.step C p) (AllArrive C p sent) (start C.raptorq p rng now disk) s)
    (hall : s.receiver.allReceived) {e : RecvEvent} (he : AllArrive C p sent s e)
    {s' : RecvFile C.raptorq} (hs : RecvFile.step C p s e = some s') :
    s'.receiver.allReceived ∧ s'.remaining < s.remaining := by
  have hin := inStep_of_reaches hC hsound hrun
  cases step_cases hs with
  | datagram now data r res htask hopen => exact absurd hall hopen
  | recvError => exact he.elim
  | idleTimeout htask hopen => exact absurd hall hopen
  | exitAll htask => exact ⟨hall, by simp [remaining, htask, RecvTask.rank]⟩
  | send block htask =>
      refine ⟨hall, ?_⟩
      simp only [remaining, pushBlock, htask, RecvTask.rank, List.length_append,
        List.length_singleton]
      omega
  | sendFailed block htask => exact ⟨hall, by simp [remaining, htask, RecvTask.rank]⟩
  | take save block rest s' hwriter hchannel htake =>
      have hlen : s.channel.length = rest.length + 1 := by rw [hchannel, List.length_cons]
      obtain ⟨hframe, hrest⟩ := htake.frame
      have htask : s'.task = s.task := hframe.task
      have hch : s'.channel = rest := hrest
      have hrank : WriterTask.rank s'.writer ≤ WriterTask.rank s.writer := by
        rw [hwriter]
        cases s'.writer <;> simp [WriterTask.rank]
      refine ⟨by rw [hframe.receiver]; exact hall, ?_⟩
      simp only [remaining, htask, hch, hlen]
      omega
  | writeFails => exact he.elim
  | channelEnd hwriter => exact ⟨hall, by simp [remaining, hwriter, WriterTask.rank]⟩
  | finish save why hwriter =>
      refine ⟨hall, ?_⟩
      simp only [remaining, finishTransfer, hwriter, WriterTask.rank]
      omega
  | joinFails save fault hwriter => exact ⟨hall, by simp [remaining, hwriter, WriterTask.rank]⟩
  | ioFails => exact he.elim

/-- **Once all blocks are decoded there is a move until the end**: the two tasks do not block each
other if at most 64 blocks were marked at the start. -/
theorem FullySent.exists_moves (hC : C.Correct) (h : FullySent C p sent data)
    (hsound : SoundTransfer C p sent disk)
    (hfew : (start C.raptorq p rng now disk).blocksWritten ≤ CHANNEL_CAPACITY)
    (hrun : Reaches (RecvFile.step C p) (AllArrive C p sent) (start C.raptorq p rng now disk) s)
    (hall : s.receiver.allReceived) (hnot : ¬ s.Completed) :
    ∃ s', Moves (RecvFile.step C p) (AllArrive C p sent) s s' := by
  have hin := inStep_of_reaches hC hsound hrun
  have hnofin : s.writer.finished = false := by
    by_contra hfin
    exact hnot (h.completed hC hsound hrun (by simpa using hfin))
  have hwriter : s.writer = .looping ∨ s.writer = .awaiting := by
    rcases hin.writer with hw | hw | hw
    · exact Or.inl hw
    · exact Or.inr hw
    · rw [hnofin] at hw
      cases hw
  have hopen : s.writer.channelOpen = true := by
    rcases hwriter with hw | hw <;> rw [hw] <;> rfl
  -- a block on the channel can be taken while the writer loops
  have htake : s.writer = .looping → s.channel ≠ [] →
      ∃ s', Moves (RecvFile.step C p) (AllArrive C p sent) s s' := by
    intro hw hne
    obtain ⟨block, rest, hchannel⟩ := List.exists_cons_of_ne_nil hne
    exact ⟨_, .take .written, trivial, step_take .written hw hchannel⟩
  cases htask : s.task with
  | sending block =>
      by_cases hroom : s.channel.length < CHANNEL_CAPACITY
      · exact ⟨_, .send, trivial, step_send htask hopen hroom⟩
      · rcases hwriter with hw | hw
        · refine htake hw fun hnil => hroom ?_
          rw [hnil]
          decide
        · -- the writer waits for the receive task, and that for room on the channel
          have hwritten := (hin.awaiting hw).resolve_right (by simp [htask, RecvTask.ended])
          have hdead : s.Deadlocked p := ⟨hw, hwritten, ⟨block, htask⟩, Nat.le_of_not_lt hroom⟩
          have hothers := (hdead.blocksLeft hrun).1.others
          have hcount : (start C.raptorq p rng now disk).resume.completedCount
              ≤ CHANNEL_CAPACITY := hfew
          unfold blocksToCount at hothers
          omega
  | running => exact ⟨_, .exitAll, trivial, step_exitAll htask hall⟩
  | exited why =>
      rcases hwriter with hw | hw
      · by_cases hnil : s.channel = []
        · exact ⟨_, .channelEnd, trivial, step_channelEnd hw hnil (by rw [htask]; rfl)⟩
        · exact htake hw hnil
      · exact ⟨_, .finish .written, trivial, step_finish .written hw htask⟩
  | panicked fault => exact absurd htask ((hsound.noFault hC hrun).task fault)

/-- **A transfer of which every packet arrives comes to its end**, complete and with no resume
file: from any state in which nothing is left to wait for, whatever the two tasks do. -/
theorem inevitable_completed (hC : C.Correct) (h : FullySent C p sent data)
    (hsound : SoundTransfer C p sent disk)
    (hfew : (start C.raptorq p rng now disk).blocksWritten ≤ CHANNEL_CAPACITY)
    (hrun : Reaches (RecvFile.step C p) (AllArrive C p sent) (start C.raptorq p rng now disk) s)
    (hsettled : Settled sent s) :
    Inevitable (RecvFile.step C p) (AllArrive C p sent) (Completed (Q := C.raptorq)) s := by
  have hall : s.receiver.allReceived :=
    hsettled.elim (h.allReceived hC hsound.fits hrun) id
  refine Inevitable.of_measure
    (I := fun u => Reaches (RecvFile.step C p) (AllArrive C p sent)
      (start C.raptorq p rng now disk) u ∧ u.receiver.allReceived) remaining
    (fun u hu hnot => h.exists_moves hC hsound hfew hu.1 hu.2 hnot) ?_ ⟨hrun, hall⟩
  rintro u u' ⟨hu, huall⟩ - ⟨e, he, hs⟩
  obtain ⟨hall', hlt⟩ := remaining_lt hC hsound hu huall he hs
  exact ⟨⟨hu.snoc he hs, hall'⟩, hlt⟩

/-! ## A block left out -/

/-- No packet of block `id` is sent, and the block is not marked at the start. -/
structure LeftOut (C : Crates) (p : RecvParams) (sent : List Bytes) (s₀ : RecvFile C.raptorq)
    (id : ℕ) : Prop where
  lt : id < p.totalBlocks
  unsent : ∀ d ∈ sent, ∀ plain, p.opens C d ≠ some (id, plain)
  unmarked : s₀.resume.isComplete id = false

variable {id : ℕ}

/-- The block is not decoded. -/
theorem LeftOut.not_decoded (h : LeftOut C p sent (start C.raptorq p rng now disk) id)
    (hrun : Reaches (RecvFile.step C p) (AllArrive C p sent) (start C.raptorq p rng now disk) s) :
    ∀ block ∈ s.decodedBlocks, block.blockId ≠ id := by
  intro block hblock
  have hP : ∀ (u : RecvFile C.raptorq) (e : RecvEvent), AllArrive C p sent u e →
      Arrivals C p (fun id' _ => id' ≠ id) u e := by
    rintro u e he now d rfl id' plain hopen rfl
    rcases he with hmem | hnone
    · exact h.unsent d hmem plain hopen
    · rw [hnone] at hopen
      cases hopen
  exact ((provenance_of_reaches hP hrun).blocks block hblock).exists_packet.choose_spec

/-- It stays unmarked. -/
theorem LeftOut.stays (h : LeftOut C p sent (start C.raptorq p rng now disk) id)
    (hrun : Reaches (RecvFile.step C p) (AllArrive C p sent) (start C.raptorq p rng now disk) s) :
    s.resume.isComplete id = false := by
  by_contra hmarked
  rcases delivered_of_isComplete hrun (by simpa using hmarked) with hstart | ⟨block, hblock, heq⟩
  · rw [h.unmarked] at hstart
    cases hstart
  · exact h.not_decoded hrun block (List.mem_append_left _ hblock) heq

/-- **The receive task is never done.** -/
theorem LeftOut.not_allReceived (h : LeftOut C p sent (start C.raptorq p rng now disk) id)
    (hC : C.Correct) (hsound : SoundTransfer C p sent disk)
    (hrun : Reaches (RecvFile.step C p) (AllArrive C p sent) (start C.raptorq p rng now disk) s)
    (htask : s.task = .running) : ¬ s.receiver.allReceived := by
  have hbook := bookkeeping_of_reaches hrun
  rw [hbook.allReceived_iff]
  intro hlen
  obtain ⟨lost, hcomp, hlost⟩ := hbook.completed
  obtain rfl : lost = [] := hlost.resolve_right (by simp [htask])
  rw [List.append_nil] at hcomp
  have hlt : ∀ id ∈ s.receiver.completedBlocks, id < p.totalBlocks := by
    intro id' hid'
    rw [hcomp] at hid'
    obtain ⟨block, hblock, rfl⟩ := List.mem_map.mp hid'
    exact (hsound.decoded hC hrun hblock).1
  have hmem := mem_of_nodup_of_length hbook.nodup hlt hlen h.lt
  rw [hcomp] at hmem
  obtain ⟨block, hblock, heq⟩ := List.mem_map.mp hmem
  exact h.not_decoded hrun block hblock heq

/-- Between datagrams: the receive task waits for the next, and the writer for a block. -/
structure Resting {Q : RaptorQ} (s : RecvFile Q) : Prop where
  task : s.task = .running
  channel : s.channel = []
  writer : s.writer = .looping

/-- **The writer does not leave its loop** while the receive task runs. -/
theorem LeftOut.resting (h : LeftOut C p sent (start C.raptorq p rng now disk) id)
    (hC : C.Correct) (hsound : SoundTransfer C p sent disk)
    (hrun : Reaches (RecvFile.step C p) (AllArrive C p sent) (start C.raptorq p rng now disk) s)
    (htask : s.task = .running) (hchannel : s.channel = []) : s.Resting := by
  have hin := inStep_of_reaches hC hsound hrun
  have hrec := hsound.recorded hrun
  refine ⟨htask, hchannel, ?_⟩
  rcases hin.writer with hw | hw | hw
  · exact hw
  · rcases hin.awaiting hw with hcount | ⟨-, hended⟩
    · have hcomplete : s.resume.isTransferComplete = true := by
        rw [ResumeState.isTransferComplete, hrec.totalBlocks_eq, ← hrec.blocksWritten_eq]
        exact decide_eq_true hcount
      have hmarked := hrec.wellFormed.isTransferComplete_iff.mp hcomplete id
        (hrec.totalBlocks_eq ▸ h.lt)
      rw [h.stays hrun] at hmarked
      cases hmarked
    · rw [htask] at hended
      cases hended
  · rw [hin.not_finished (by rw [htask]; rfl)] at hw
    cases hw

/-- One more datagram arrives, and what it decodes is written. -/
theorem LeftOut.exists_arrived (h : LeftOut C p sent (start C.raptorq p rng now disk) id)
    (hC : C.Correct) (hsound : SoundTransfer C p sent disk)
    (hrun : Reaches (RecvFile.step C p) (AllArrive C p sent) (start C.raptorq p rng now disk) s)
    (hrest : s.Resting) {d : Bytes} (hd : d ∈ sent) :
    ∃ s', Reaches (RecvFile.step C p) (AllArrive C p sent) (start C.raptorq p rng now disk) s' ∧
      s'.Resting ∧ s'.log.arrived = s.log.arrived ++ [d] := by
  have hstep := step_datagram (p := p) ⟨0, 0⟩ d hrest.task
    (h.not_allReceived hC hsound hrun hrest.task)
  set s₁ := s.afterReceive d (s.receiver.receive C ⟨0, 0⟩ d).1 (s.receiver.receive C ⟨0, 0⟩ d).2
    with hs₁
  have hrun₁ := hrun.snoc (e := RecvEvent.datagram ⟨0, 0⟩ d) (Or.inl hd) hstep
  cases htask : s₁.task with
  | running =>
      exact ⟨s₁, hrun₁, h.resting hC hsound hrun₁ htask hrest.channel, rfl⟩
  | sending block =>
      -- the block goes over the channel
      have hroom : s₁.channel.length < CHANNEL_CAPACITY := by
        rw [show s₁.channel = [] from hrest.channel]
        decide
      have hwriter : s₁.writer = .looping := hrest.writer
      have hrun₂ := hrun₁.snoc (e := RecvEvent.send) trivial
        (step_send htask (by rw [hwriter]; rfl) hroom)
      have hchannel : (s₁.pushBlock block).channel = [block] := by
        rw [pushBlock, show s₁.channel = [] from hrest.channel, List.nil_append]
      have htake := step_take (p := p) .written (show (s₁.pushBlock block).writer = .looping from
        hwriter) hchannel
      have hrun₃ := hrun₂.snoc (e := RecvEvent.take .written) trivial htake
      obtain ⟨hframe, hch⟩ := (takeBlock_cases (C := C) (p := p) .written
        ({ s₁.pushBlock block with channel := [] } : RecvFile C.raptorq) block).frame
      exact ⟨_, hrun₃, h.resting hC hsound hrun₃ hframe.task hch, hframe.arrived⟩
  | exited why =>
      rw [hs₁] at htask
      generalize (s.receiver.receive C ⟨0, 0⟩ d).2 = res at htask
      rcases res with (_ | block) | _ | fault <;> cases htask
  | panicked fault => exact absurd htask ((hsound.noFault hC hrun₁).task fault)

/-- **A transfer with a block left out can only time out**: everything arrives, and the receive task
still waits. -/
theorem LeftOut.exists_timedOut (h : LeftOut C p sent (start C.raptorq p rng now disk) id)
    (hC : C.Correct) (hsound : SoundTransfer C p sent disk) :
    ∃ s s', Reaches (RecvFile.step C p) (AllArrive C p sent) (start C.raptorq p rng now disk) s ∧
      (∀ d ∈ sent, d ∈ s.log.arrived) ∧ Reaches (RecvFile.step C p) (AllArrive C p sent) s s' ∧
      s'.writer.finished = true ∧ s'.task = .exited .idleTimeout ∧
      s'.resume.isTransferComplete = false := by
  -- the packets arrive one by one, and the writer takes what they decode
  have hall : ∀ ds : List Bytes, (∀ d ∈ ds, d ∈ sent) →
      ∃ s, Reaches (RecvFile.step C p) (AllArrive C p sent) (start C.raptorq p rng now disk) s ∧
        s.Resting ∧ s.log.arrived = ds := by
    intro ds
    induction ds using List.reverseRecOn with
    | nil =>
        have hrun₀ : Reaches (RecvFile.step C p) (AllArrive C p sent)
            (start C.raptorq p rng now disk) (start C.raptorq p rng now disk) := Reaches.refl _
        exact fun _ => ⟨_, hrun₀, h.resting hC hsound hrun₀ rfl rfl, rfl⟩
    | append_singleton ds d ih =>
        intro hds
        obtain ⟨s, hrun, hrest, harrived⟩ := ih fun d' hd' => hds d' (by simp [hd'])
        obtain ⟨s', hrun', hrest', harrived'⟩ :=
          h.exists_arrived hC hsound hrun hrest (hds d (by simp))
        exact ⟨s', hrun', hrest', by rw [harrived', harrived]⟩
  obtain ⟨s, hrun, hrest, harrived⟩ := hall sent fun _ hd => hd
  have hnot := h.not_allReceived hC hsound hrun hrest.task
  have hidle : AllArrive C p sent s .idleTimeout := fun d hd => harrived ▸ hd
  -- then nothing comes any more: the receive loop gives up and the writer ends
  obtain ⟨s', hreach, hdone, htask, hresume, -, -⟩ := exists_finished permitsEnd_allArrive hrest.task
    hrest.channel (Or.inl hrest.writer) (Or.inr hidle)
  refine ⟨s, s', hrun, fun d hd => harrived ▸ hd, hreach, hdone, ?_, ?_⟩
  · rw [htask, exitOf, if_neg hnot]
  · by_contra hcomplete
    have hrec := hsound.recorded hrun
    rw [hresume] at hcomplete
    have hmarked := hrec.wellFormed.isTransferComplete_iff.mp (by simpa using hcomplete) id
      (hrec.totalBlocks_eq ▸ h.lt)
    rw [h.stays hrun] at hmarked
    cases hmarked

end Updown.RecvFile
