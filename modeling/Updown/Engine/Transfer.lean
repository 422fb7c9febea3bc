import Updown.Basic.PlainCrates
import Updown.Engine.RecvProgress

set_option autoImplicit false

/-! # From sender to receiver

A transfer joins the datagrams of `send_file_inner` and the two tasks of `receive_file` by a
network that loses, repeats and reorders: `Network sent` lets any datagram arrive that is one of
`sent` or that the receiver does not open. The datagrams of a source are genuine packets of its
blocks (`genuine_of_network`), so the receiver's invariants apply.
-/

namespace Updown

open Transition

/-- The datagrams that can arrive: those sent, in any order and number, and any that the receiver
does not open. -/
def Network (C : Crates) (p : RecvParams) (sent : List Bytes) (_ : RecvFile C.raptorq)
    (e : RecvEvent) : Prop :=
  ∀ now data, e = .datagram now data → data ∈ sent ∨ p.opens C data = none

/-- The receiver has the numbers the engine announces for the file: the number of blocks is cut
down to 32 bits. -/
structure RecvParams.Announced (p : RecvParams) (e : SendEngine) (file : SourceFile) : Prop where
  blockSize_eq : p.blockSize = e.blockSize
  fileSize_eq : p.fileSize = file.bytes.length
  totalBlocks_eq : p.totalBlocks = Blocks.count file.bytes.length e.blockSize % 2 ^ 32

/-- The receiver is set up for the file as this engine sends it: same block size, file size and
number of blocks. -/
structure RecvParams.Matches (p : RecvParams) (e : SendEngine) (file : SourceFile) : Prop where
  blockSize_eq : p.blockSize = e.blockSize
  fileSize_eq : p.fileSize = file.bytes.length
  totalBlocks_eq : p.totalBlocks = Blocks.count file.bytes.length e.blockSize

theorem RecvParams.Matches.for {p : RecvParams} {e : SendEngine} {file : SourceFile}
    (h : p.Matches e file) (hb : 1 ≤ e.blockSize) : p.For file.bytes :=
  ⟨by rw [h.blockSize_eq]; exact hb, h.fileSize_eq, by rw [h.totalBlocks_eq, h.blockSize_eq]⟩

theorem RecvParams.Matches.announced {p : RecvParams} {e : SendEngine} {file : SourceFile}
    (h : p.Matches e file) : p.Announced e file := by
  refine ⟨h.blockSize_eq, h.fileSize_eq, ?_⟩
  rw [← h.totalBlocks_eq, Nat.mod_eq_of_lt p.totalBlocks_lt]

/-- The blocks of the transfer are blocks of the file. -/
theorem RecvParams.Announced.lt_count {p : RecvParams} {e : SendEngine} {file : SourceFile}
    (h : p.Announced e file) {id : ℕ} (hid : id < p.totalBlocks) :
    id < Blocks.count file.bytes.length e.blockSize :=
  lt_of_lt_of_le (h.totalBlocks_eq ▸ hid) (Nat.mod_le _ _)

theorem RecvParams.Announced.fits {p : RecvParams} {e : SendEngine} {file : SourceFile}
    (h : p.Announced e file) (hb : 1 ≤ e.blockSize) : p.Fits where
  blockSize_pos := by rw [h.blockSize_eq]; exact hb
  totalBlocks_le := by
    rw [h.totalBlocks_eq, h.blockSize_eq, h.fileSize_eq]
    exact Nat.mod_le _ _

section

variable {C : Crates} {e : SendEngine} {file : SourceFile} {p : RecvParams} {skip : List ℕ}
  {rngSend rngRecv : ℕ → Vector UInt8 4} {doneAt : UInt64} {now : ℕ} {disk : Disk}
  {s : RecvFile C.raptorq}

/-- **The network delivers packets of what is sent only**, of blocks that are not skipped. -/
theorem sent_of_network (hC : C.Correct) (hp : p.Announced e file) (s : RecvFile C.raptorq)
    (ev : RecvEvent) (h : Network C p
      (e.sendFileInner C file p.sharedKey p.sessionId skip rngSend doneAt).1 s ev) :
    RecvFile.Arrivals C p (fun id q => id ∉ skip ∧ id < p.totalBlocks ∧
      ∃ data, e.blockData C (Blocks.block e.blockSize file.bytes id) = .ok data ∧
        C.raptorq.IsPacketOf data q) s ev := by
  intro t data he id plain hopen
  rcases h t data he with hmem | hnone
  · obtain ⟨T, sent, hT, hid, hskip, hdata, hpacket⟩ :=
      SendEngine.mem_sendFileInner hC hmem rfl hopen
    obtain ⟨-, -, hTeq⟩ := countBlocks_ok hT
    exact ⟨hskip, by rwa [hp.totalBlocks_eq, ← hTeq], sent, hdata, hpacket⟩
  · rw [hnone] at hopen
    cases hopen

/-- **The network delivers genuine packets only**, of blocks that are not skipped, when the
sender sends its blocks raw. -/
theorem genuine_of_network (hC : C.Correct) (hp : p.Matches e file)
    (hsends : e.SendsRaw C file.bytes) (s : RecvFile C.raptorq) (ev : RecvEvent)
    (h : Network C p
      (e.sendFileInner C file p.sharedKey p.sessionId skip rngSend doneAt).1 s ev) :
    RecvFile.Arrivals C p (fun id q => id ∉ skip ∧
      RecvFile.GenuineOn C p file.bytes (fun _ => True) id q) s ev := by
  intro t data he id plain hopen
  obtain ⟨hskip, hid, sent, hdata, hpacket⟩ :=
    sent_of_network hC hp.announced s ev h t data he id plain hopen
  have hraw : Blocks.block e.blockSize file.bytes id = sent :=
    Except.ok.inj ((hsends id (hp.totalBlocks_eq ▸ hid)).symm.trans hdata)
  refine ⟨hskip, hid, fun _ => ?_⟩
  rw [hp.blockSize_eq, hraw]
  exact hpacket

theorem arrivals_of_network (hC : C.Correct) (hp : p.Matches e file)
    (hsends : e.SendsRaw C file.bytes) (s : RecvFile C.raptorq) (ev : RecvEvent)
    (h : Network C p
      (e.sendFileInner C file p.sharedKey p.sessionId skip rngSend doneAt).1 s ev) :
    RecvFile.Arrivals C p (RecvFile.GenuineOn C p file.bytes fun _ => True) s ev :=
  fun t data he id plain hopen => (genuine_of_network hC hp hsends s ev h t data he id plain hopen).2

theorem permits_network (sent : List Bytes) : RecvFile.Permits (C := C) (Network C p sent) where
  send := by intro s now data h; cases h
  take := by intro s save now data h; cases h

theorem permitsEnd_network (sent : List Bytes) :
    RecvFile.PermitsEnd (C := C) (Network C p sent) where
  exitAll := by intro s now data h; cases h
  channelEnd := by intro s now data h; cases h
  finish := by intro s save now data h; cases h

/-- **End-to-end delivery.** Whatever the network loses, repeats, reorders or injects, every block
is delivered at most once and with the source's bytes, the receive task takes its "all blocks
received" exit only after every block was delivered, and a transfer that ends complete has left
the source in the output file. -/
theorem receiveFile_delivers (hC : C.Correct) (hb : 1 ≤ e.blockSize)
    (hcompress : e.compress = false) (hp : p.Matches e file) (hdisk : disk.resume = none)
    (hrun : Reaches (RecvFile.step C p)
      (Network C p (e.sendFileWithSession C file p.sharedKey p.sessionId rngSend doneAt).1)
      (RecvFile.start C.raptorq p rngRecv now disk) s) :
    ((s.log.delivered.map (·.blockId)).Nodup ∧
      ∀ block ∈ s.log.delivered, block.blockId < p.totalBlocks ∧
        block.data = Blocks.block p.blockSize file.bytes block.blockId) ∧
    (s.task = .exited .allReceived →
      ∀ id < p.totalBlocks, ∃ block ∈ s.log.delivered, block.blockId = id) ∧
    (∀ result, s.writer = .done result → s.resume.isTransferComplete = true →
      s.file = file.bytes) := by
  have hfor := hp.for hb
  have hP : ∀ u ev, Network C p (e.sendFileWithSession C file p.sharedKey p.sessionId rngSend
      doneAt).1 u ev → RecvFile.Arrivals C p (RecvFile.GenuineOn C p file.bytes fun _ => True) u ev :=
    arrivals_of_network hC hp (SendEngine.sendsRaw_of_off hcompress)
  have hbook := RecvFile.bookkeeping_of_reaches hrun
  have hdata : ∀ block ∈ s.decodedBlocks, block.blockId < p.totalBlocks ∧
      (True → block.data = Blocks.block p.blockSize file.bytes block.blockId) :=
    fun block hblock => RecvFile.data_eq_of_reaches hC
      (RecvFile.sizedOn_of_for hfor fun _ => True) hP hrun hblock
  have hsound : disk.Sound := by
    intro st hst
    rw [hdisk] at hst
    cases hst
  refine ⟨⟨hbook.nodup_delivered, fun block hblock => ?_⟩, fun htask id hid => ?_, ?_⟩
  · obtain ⟨hid, heq⟩ := hdata block (List.mem_append_left _ hblock)
    exact ⟨hid, heq trivial⟩
  -- the exit counts blocks; different ids in range are all of them
  · exact hbook.mem_delivered htask (fun block hblock => (hdata block hblock).1) hid
  · intro result _ hcomplete
    refine RecvFile.file_eq_of_complete hC hfor hsound hP (fun id hid => ?_) hrun hcomplete
    -- without a resume file nothing is marked at the start
    simp [RecvFile.start, ResumeState.load, hdisk] at hid

/-- A sender of raw blocks supplies every block it does not skip, in an environment that delivers
what is sent. -/
theorem supply_of_sent (hC : C.Correct) (hp : p.Matches e file) (hb : 1 ≤ e.blockSize)
    (hblock : e.blockSize < 2 ^ 32) (hsends : e.SendsRaw C file.bytes)
    (hdepth : 1 ≤ e.interleaveDepth)
    (hroom : Blocks.count file.bytes.length e.blockSize + e.interleaveDepth < 2 ^ 32)
    (hskip : skip.dedup.length ≤ Blocks.count file.bytes.length e.blockSize)
    {P : RecvFile C.raptorq → RecvEvent → Prop}
    (hP : ∀ d ∈ (e.sendFileInner C file p.sharedKey p.sessionId skip rngSend doneAt).1,
      ∀ s now, P s (.datagram now d)) {id : ℕ} (hid : id < p.totalBlocks) (hsent : id ∉ skip) :
    RecvFile.Supply C p P id (Blocks.block p.blockSize file.bytes id) := by
  have hmax : ISIZE_MAX = 2 ^ 63 - 1 := rfl
  have hbound := p.totalBlocks_lt
  obtain ⟨-, hall⟩ := SendEngine.sendFileInner_ok hC p.sharedKey_length hb (by omega) hsends
    hdepth hroom hskip p.sessionId rngSend doneAt
  rw [hp.blockSize_eq]
  refine RecvFile.supply_of_source fun be hbe q hq => ?_
  obtain ⟨pkt, hpkt, hcarries⟩ := hall id (hp.totalBlocks_eq ▸ hid) hsent be hbe q hq
  exact ⟨pkt, hcarries.authentic hC (by omega) rfl, hP pkt hpkt⟩

end

/-! ## A transfer that can be evaluated -/

namespace Small

/-- Five bytes, sent in blocks of four. -/
def file : SourceFile := ⟨[1, 2, 3, 4, 5], by decide⟩

def engine : SendEngine := (SendEngine.new 1000).withBlockSize 4

def params : RecvParams :=
  { sessionId := 9, sharedKey := List.replicate KEY_LEN 7, blockSize := 4, fileSize := 5,
    totalBlocks := 2, targetRateMbps := 1000, sharedKey_length := rfl,
    blockSize_lt := by decide, fileSize_lt := by decide, totalBlocks_lt := by decide }

def rng : ℕ → Vector UInt8 4 := fun _ => Vector.replicate 4 0

def clock : Clock := ⟨0, 0⟩

/-- Two packets of each block, in the order block 0, block 1, block 0, block 1. -/
def sent : List Bytes :=
  (engine.sendFileWithSession PlainCrates.plainCrates file params.sharedKey params.sessionId rng
    0).1

theorem matches_file : params.Matches engine file := ⟨rfl, rfl, by decide⟩

/-- Every datagram among the events satisfies `check`. -/
def datagramsAll (check : Bytes → Bool) (es : List RecvEvent) : Bool :=
  es.all fun e =>
    match e with
    | .datagram _ data => check data
    | _ => true

theorem allowedAlong_of_datagramsAll {C : Crates} {p : RecvParams}
    {P : RecvFile C.raptorq → RecvEvent → Prop} (check : Bytes → Bool) (es : List RecvEvent)
    (h : datagramsAll check es = true)
    (hP : ∀ u e, (∀ now data, e = .datagram now data → check data = true) → P u e)
    (s : RecvFile C.raptorq) : AllowedAlong (RecvFile.step C p) P s es := by
  refine allowedAlong_of_forall fun e he u => hP u e fun now data hdata => ?_
  have hall := List.all_eq_true.mp h e he
  subst hdata
  exact hall

/-- The second block first, then a packet of it again, junk, and the first block; the output path
held seven other bytes. -/
def events : List RecvEvent :=
  [.datagram clock (sent.getD 3 []), .send, .take .failed, .datagram clock (sent.getD 1 []),
    .datagram clock [1, 2], .datagram clock (sent.getD 0 []), .send, .exitAll, .take .written,
    .finish .written]

def disk : Disk := ⟨some [9, 9, 9, 9, 9, 9, 9], none⟩

end Small

theorem receiveFile_delivers_small :
    ∃ s, runAll (RecvFile.step PlainCrates.plainCrates Small.params)
        (RecvFile.start _ Small.params Small.rng 0 Small.disk) Small.events = some s ∧
      s.task = .exited .allReceived ∧ s.log.delivered.length = 2 ∧
      s.file = Small.file.bytes := by
  obtain ⟨s, hs, hcheck⟩ := exists_of_runAll
    (RecvFile.step PlainCrates.plainCrates Small.params)
    (RecvFile.start _ Small.params Small.rng 0 Small.disk) Small.events
    (fun s => s.writer.finished && s.resume.isTransferComplete &&
      decide (s.task = .exited .allReceived) && decide (s.log.delivered.length = 2))
    (by decide +kernel)
  simp only [Bool.and_eq_true, decide_eq_true_eq] at hcheck
  obtain ⟨⟨⟨hdone, hcomplete⟩, htask⟩, hlen⟩ := hcheck
  obtain ⟨result, hresult⟩ := WriterTask.exists_of_finished hdone
  have hallowed := Small.allowedAlong_of_datagramsAll (p := Small.params)
    (fun data => decide (data ∈ Small.sent) ||
      (Small.params.opens PlainCrates.plainCrates data).isNone) Small.events
    (P := Network PlainCrates.plainCrates Small.params Small.sent) (by decide +kernel)
    (fun u e h now data he => by simpa using h now data he)
    (RecvFile.start _ Small.params Small.rng 0 Small.disk)
  have hdelivers := receiveFile_delivers PlainCrates.plainCrates_correct (by decide) rfl
    Small.matches_file rfl (Reaches.of_runAll hs hallowed)
  exact ⟨s, hs, htask, hlen, hdelivers.2.2 result hresult hcomplete⟩

end Updown
