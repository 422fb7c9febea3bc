import Updown.Engine.DeferredWrites
import Updown.Engine.Transfer

set_option autoImplicit false

/-! # Many transfers to one output path

A resume file outlives the transfer that wrote it: a later `receive_file` for the same path loads it
when its sizes match, whatever was edited in between and whichever source is sent now. An
`OutputPath` is what the path holds between transfers, `OutputPath.step` one edit or one transfer,
run up to any point, a write that is still under way included. `resume_sound` says which histories
leave the source in the output file, `completes_with_source_iff` what a single transfer needs of the
resume state it finds.
-/

namespace Updown

open Transition

/-- A transfer to the path: what is sent, and the steps of `receive_file` and of the disk up to its
end or to the point where it is stopped. What is then still under way is lost. -/
structure PathTransfer where
  engine : SendEngine
  file : SourceFile
  skip : List ℕ
  rngSend : ℕ → Vector UInt8 4
  doneAt : UInt64
  params : RecvParams
  rngRecv : ℕ → Vector UInt8 4
  now : ℕ
  events : List DiskEvent

namespace PathTransfer

/-- The datagrams of the sender; blocks in `skip` are left out by a delta transfer. -/
def sent (C : Crates) (t : PathTransfer) : List Bytes :=
  (t.engine.sendFileInner C t.file t.params.sharedKey t.params.sessionId t.skip t.rngSend
    t.doneAt).1

def start (C : Crates) (t : PathTransfer) (disk : Disk) : DeferredRecv C.raptorq :=
  .start C.raptorq t.params t.rngRecv t.now disk

def run (C : Crates) (t : PathTransfer) (disk : Disk) : Option (DeferredRecv C.raptorq) :=
  runAll (DeferredRecv.step C t.params) (t.start C disk) t.events

/-- The steps of `receive_file` among the events. -/
def recvEvents (t : PathTransfer) : List RecvEvent := DeferredRecv.recvEvents t.events

/-- The transfer is of a file of `n` bytes in blocks of `b`, and what arrives is what was sent, or
does not open. -/
structure Valid (C : Crates) (b n : ℕ) (t : PathTransfer) (disk : Disk) : Prop where
  matches_engine : t.params.Matches t.engine t.file
  blockSize_eq : t.engine.blockSize = b
  length_eq : t.file.bytes.length = n
  network : AllowedAlong (DeferredRecv.step C t.params)
    (DeferredRecv.Along (Network C t.params (t.sent C))) (t.start C disk) t.events

end PathTransfer

/-- What is at the path, and the source of the last transfer to it. -/
structure OutputPath where
  disk : Disk
  source : Bytes
  deriving DecidableEq

/-- What happens to the path. -/
inductive PathEvent where
  /-- The output file is edited, or deleted; the resume file stays. -/
  | edit (out : Option Bytes)
  | transfer (t : PathTransfer)

namespace OutputPath

def step (C : Crates) (o : OutputPath) : PathEvent → Option OutputPath
  | .edit out => some { o with disk := { o.disk with out := out } }
  | .transfer t => (t.run C o.disk).map fun d => ⟨d.disk, t.file.bytes⟩

/-- The file at the path, cut or filled to `n` bytes as `set_len` does. -/
def sized (n : ℕ) (out : Option Bytes) : Bytes := Blocks.resize 0 n (out.getD [])

/-- A block is marked in the resume file at the path. -/
def Marks (o : OutputPath) (id : ℕ) : Prop :=
  ∃ st, o.disk.resume = some (.saved st) ∧ st.isComplete id = true

/-- Any transfer of a file of `n` bytes in blocks of `b`, and any edit. -/
def Allowed (C : Crates) (b n : ℕ) (o : OutputPath) : PathEvent → Prop
  | .edit _ => True
  | .transfer t => t.Valid C b n o.disk

/-- An edit leaves the blocks alone that are marked in the resume file. A transfer sends its blocks
raw, and its source agrees with the one before in the blocks that are marked. -/
def Keeps (C : Crates) (b n : ℕ) (o : OutputPath) : PathEvent → Prop
  | .edit out => ∀ id, o.Marks id →
      Blocks.block b (sized n out) id = Blocks.block b (sized n o.disk.out) id
  | .transfer t => t.engine.SendsRaw C t.file.bytes ∧ ∀ id, o.Marks id →
      Blocks.block b t.file.bytes id = Blocks.block b o.source id

/-- When a transfer stops, its last write has reached the file, if the resume file marks the block. -/
def Lands (C : Crates) (o : OutputPath) : PathEvent → Prop
  | .edit _ => True
  | .transfer t => ∀ d, t.run C o.disk = some d → d.Landed

/-- The blocks that are marked are the source's, on disk. -/
structure Current (b n : ℕ) (o : OutputPath) : Prop where
  sound : o.disk.Sound
  marked : ∀ id, o.Marks id →
    Blocks.block b (sized n o.disk.out) id = Blocks.block b o.source id

end OutputPath

namespace RecvFile

variable {C : Crates} {p : RecvParams} {rng : ℕ → Vector UInt8 4} {now : ℕ} {disk : Disk}
  {s : RecvFile C.raptorq}

/-- What a transfer starts with as marked is marked in the resume file on disk. -/
theorem saved_of_isComplete_start {id : ℕ}
    (h : (start C.raptorq p rng now disk).resume.isComplete id = true) :
    ∃ st, disk.resume = some (.saved st) ∧ st.isComplete id = true := by
  obtain ⟨hsaved | hnew, -⟩ := start_resume (p := p) C.raptorq rng now disk
  · exact ⟨_, hsaved, h⟩
  · rw [hnew, ResumeState.isComplete_new] at h
    cases h

/-- What a transfer leaves on disk has the shape `save` gives it. -/
theorem sound_of_reaches {K : ℕ → C.raptorq.Packet → Prop} (hfits : p.Fits)
    (hK : ∀ id q, K id q → id < p.totalBlocks) (hdisk : disk.Sound)
    {P : RecvFile C.raptorq → RecvEvent → Prop} (hP : ∀ s e, P s e → Arrivals C p K s e)
    (h : Reaches (RecvFile.step C p) P (start C.raptorq p rng now disk) s) : s.disk.Sound := by
  have hstart : (start C.raptorq p rng now disk).Recorded p := recorded_start _ _ _ hdisk
  refine h.invariant_along (I := fun u => u.disk.Sound) (fun st hst => ?_)
    fun u e u' hu hsound he hs st hst => ?_
  · rw [start_saved hst]
    exact hstart.wellFormed
  · rcases step_saved hs hst with rfl | hold
    · exact (recorded_of_reaches hfits hK hdisk hP (hu.snoc he hs)).wellFormed
    · exact hsound st hold

end RecvFile

namespace OutputPath

variable {C : Crates} {b n : ℕ} {o o' : OutputPath} {t : PathTransfer}

theorem current_start (out : Option Bytes) (source : Bytes) :
    Current b n ⟨⟨out, none⟩, source⟩ where
  sound := by intro st hst; cases hst
  marked := by rintro id ⟨st, hst, -⟩; cases hst

/-- What is known of a transfer from a path whose marked blocks are current. -/
structure Transferred (b n : ℕ) (t : PathTransfer) {Q : RaptorQ} (d : DeferredRecv Q) : Prop where
  sound : d.disk.Sound
  length_onDisk : d.onDisk.length = n
  saved : d.Landed → ∀ id, (OutputPath.mk d.disk t.file.bytes).Marks id →
    Blocks.block b d.onDisk id = Blocks.block b t.file.bytes id
  complete : d.recv.writer.finished = true → d.recv.resume.isTransferComplete = true →
    d.onDisk = t.file.bytes

/-- **A transfer that keeps what is marked** leaves marked blocks of its source only, once they have
reached the file, and the source itself when it ends complete. -/
theorem transferred_of_run (hC : C.Correct) (hb : 1 ≤ b) (hcur : o.Current b n)
    (hvalid : t.Valid C b n o.disk) (hkeeps : o.Keeps C b n (.transfer t))
    {d : DeferredRecv C.raptorq} (hrun : t.run C o.disk = some d) : Transferred b n t d := by
  obtain ⟨hraw, hsame⟩ := hkeeps
  obtain ⟨hmatch, rfl, rfl, hnet⟩ := hvalid
  have hfor := hmatch.for hb
  have hblock : t.params.blockSize = t.engine.blockSize := hmatch.blockSize_eq
  have hdeferred : Reaches (DeferredRecv.step C t.params) _ (t.start C o.disk) d :=
    Reaches.of_runAll hrun hnet
  have hreach := DeferredRecv.reaches_recv hdeferred
  have hP : ∀ u ev, Network C t.params (t.sent C) u ev →
      RecvFile.Arrivals C t.params (RecvFile.GenuineOn C t.params t.file.bytes fun _ => True) u ev :=
    arrivals_of_network hC hmatch hraw
  -- the blocks marked at the start are the source's
  have hstart : ∀ id, (t.start C o.disk).recv.resume.isComplete id = true →
      Blocks.block t.params.blockSize (t.start C o.disk).recv.file id
        = Blocks.block t.params.blockSize t.file.bytes id := by
    intro id hid
    have hmarks : o.Marks id := RecvFile.saved_of_isComplete_start hid
    calc Blocks.block t.params.blockSize (t.start C o.disk).recv.file id
        = Blocks.block t.engine.blockSize (sized t.file.bytes.length o.disk.out) id := by
          rw [hblock, sized, ← hmatch.fileSize_eq]
          rfl
      _ = Blocks.block t.engine.blockSize o.source id := hcur.marked id hmarks
      _ = Blocks.block t.params.blockSize t.file.bytes id := by rw [← hsame id hmarks, hblock]
  have hrec := RecvFile.recorded_of_reaches hfor.fits (fun _ _ hq => hq.1) hcur.sound hP hreach
  have hcontent := RecvFile.content_of_reaches hC (RecvFile.sizedOn_of_for hfor fun _ => True)
    hcur.sound hP hreach
  refine ⟨?_, ?_, ?_, ?_⟩
  · exact RecvFile.sound_of_reaches hfor.fits (fun _ _ hq => hq.1) hcur.sound hP hreach
  · rw [DeferredRecv.length_onDisk hfor.fits (fun _ _ hq => hq.1) hcur.sound hP hdeferred,
      hmatch.fileSize_eq]
  · rintro hlanded id ⟨st, hst, hid⟩
    have hmarked := hcontent.saved st hst id hid
    have hfile : Blocks.block t.params.blockSize d.onDisk id
        = Blocks.block t.params.blockSize d.recv.file id :=
      hlanded.block_onDisk hfor.fits (fun _ _ hq => hq.1) hcur.sound hP hdeferred
        (hrec.lt_of_isComplete hmarked) (RecvFile.marks_eq_true.mpr ⟨st, hst, hid⟩)
    rw [← hblock, hfile]
    cases h₀ : (t.start C o.disk).recv.resume.isComplete id with
    | true => exact (hcontent.kept id h₀).trans (hstart id h₀)
    | false => exact hcontent.written id hmarked h₀ trivial
  · intro hdone hcomplete
    rw [DeferredRecv.onDisk_of_finished hdeferred hdone]
    exact RecvFile.file_eq_of_complete hC hfor hcur.sound hP hstart hreach hcomplete

/-- **Edits and transfers that keep what is marked, and whose marked blocks reach the file, keep the
path current.** -/
theorem Current.step (hC : C.Correct) (hb : 1 ≤ b) (hcur : o.Current b n) {e : PathEvent}
    (hallowed : o.Allowed C b n e) (hkeeps : o.Keeps C b n e) (hlands : o.Lands C e)
    (hstep : step C o e = some o') : o'.Current b n := by
  cases e with
  | edit out =>
      obtain rfl := Option.some.inj hstep
      exact ⟨hcur.sound, fun id hid => (hkeeps id hid).trans (hcur.marked id hid)⟩
  | transfer t =>
      obtain ⟨d, hrun, rfl⟩ := Option.map_eq_some_iff.mp hstep
      obtain ⟨hsound, hlen, hsaved, -⟩ := transferred_of_run hC hb hcur hallowed hkeeps hrun
      refine ⟨hsound, fun id hid => ?_⟩
      have hsized : sized n d.disk.out = d.onDisk := by
        rw [sized, ← hlen]
        exact Blocks.resize_length_self 0 d.onDisk
      rw [hsized]
      exact hsaved (hlands d hrun) id hid

/-- **Resume soundness.** In every history of a path that starts without a resume file, in which
no edit touches the blocks a resume file marks, every source that meets one agrees there with the
source before, and every transfer's last write reaches the file if its block is marked: a transfer
that ends complete has left its source in the output file. -/
theorem resume_sound (hC : C.Correct) (hb : 1 ≤ b) {out : Option Bytes} {source : Bytes}
    (hist : Reaches (step C) (fun o e => o.Allowed C b n e ∧ o.Keeps C b n e ∧ o.Lands C e)
      ⟨⟨out, none⟩, source⟩ o)
    (hvalid : t.Valid C b n o.disk) (hkeeps : o.Keeps C b n (.transfer t))
    {d : DeferredRecv C.raptorq} (hrun : t.run C o.disk = some d)
    (hdone : d.recv.writer.finished = true)
    (hcomplete : d.recv.resume.isTransferComplete = true) : d.onDisk = t.file.bytes := by
  have hcur : o.Current b n :=
    hist.invariant (current_start out source) fun _ _ _ hu he hs =>
      hu.step hC hb he.1 he.2.1 he.2.2 hs
  exact (transferred_of_run hC hb hcur hvalid hkeeps hrun).complete hdone hcomplete

end OutputPath

/-! ## What a single transfer needs -/

section

variable {C : Crates} {e : SendEngine} {file : SourceFile} {p : RecvParams}
  {rngSend rngRecv : ℕ → Vector UInt8 4} {doneAt : UInt64} {now : ℕ} {disk : Disk}

/-- **A transfer that finds a resume state ends with its source in the file, whenever it ends
complete, exactly if the blocks marked there are the source's on disk.** -/
theorem completes_with_source_iff (hC : C.Correct) (hp : p.Matches e file) (hb : 1 ≤ e.blockSize)
    (hblock : e.blockSize < 2 ^ 32) (hsends : e.SendsRaw C file.bytes)
    (hdepth : 1 ≤ e.interleaveDepth)
    (hroom : Blocks.count file.bytes.length e.blockSize + e.interleaveDepth < 2 ^ 32)
    (hdisk : disk.Sound) :
    (∀ s, Reaches (RecvFile.step C p)
        (Network C p (e.sendFileWithSession C file p.sharedKey p.sessionId rngSend doneAt).1)
        (RecvFile.start C.raptorq p rngRecv now disk) s →
      s.writer.finished = true → s.resume.isTransferComplete = true → s.file = file.bytes) ↔
    ∀ id, (RecvFile.start C.raptorq p rngRecv now disk).resume.isComplete id = true →
      Blocks.block p.blockSize (RecvFile.start C.raptorq p rngRecv now disk).file id
        = Blocks.block p.blockSize file.bytes id := by
  have hfor := hp.for hb
  set sent := (e.sendFileWithSession C file p.sharedKey p.sessionId rngSend doneAt).1 with hsent
  have hP : ∀ u ev, Network C p sent u ev →
      RecvFile.Arrivals C p (RecvFile.GenuineOn C p file.bytes fun _ => True) u ev :=
    arrivals_of_network hC hp hsends
  constructor
  · intro hright id hid
    -- all other blocks are written, and the transfer ends
    have hsupply : ∀ id < p.totalBlocks,
        RecvFile.Supply C p (Network C p sent) id (Blocks.block p.blockSize file.bytes id) :=
      fun id hid => supply_of_sent hC hp hb hblock hsends hdepth hroom (Nat.zero_le _)
        (fun d hd s now _ _ he => by cases he; exact Or.inl hd) hid List.not_mem_nil
    obtain ⟨s₁, hreach, hdone, hcomplete⟩ := RecvFile.exists_complete hC hfor
      (by rw [hp.blockSize_eq]; exact hblock) (permits_network sent) (permitsEnd_network sent)
      (fun _ _ _ he => by cases he) rngRecv now hdisk fun id hid _ => hsupply id hid
    -- what was marked is as it was found, and the file is the source
    have hcontent := RecvFile.content_of_reaches hC
      (RecvFile.sizedOn_of_for hfor fun _ => True) hdisk hP hreach
    rw [← hright s₁ hreach hdone hcomplete]
    exact (hcontent.kept id hid).symm
  · intro hmarked s hreach _ hcomplete
    exact RecvFile.file_eq_of_complete hC hfor hdisk hP hmarked hreach hcomplete

end

/-! ## A history that goes wrong -/

namespace Small

/-- The steps of a transfer whose writes of up to four bytes have reached the file when `write_all`
returns. -/
def prompt (es : List RecvEvent) : List DiskEvent := es.map fun e => .recv e 4

/-- The first of the two blocks of `file` arrives and is written, and the transfer gives up. -/
def interrupted : PathTransfer :=
  { engine := engine, file := file, skip := [], rngSend := rng, doneAt := 0, params := params,
    rngRecv := rng, now := 0,
    events := prompt [.datagram clock (sent.getD 0 []), .send, .take .failed, .idleTimeout,
      .channelEnd, .finish .written] }

/-- Another file of five bytes. -/
def otherFile : SourceFile := ⟨[9, 9, 9, 9, 9], by decide⟩

def otherSent : List Bytes :=
  (engine.sendFileWithSession PlainCrates.plainCrates otherFile params.sharedKey params.sessionId
    rng 0).1

/-- All of the other file arrives. -/
def replaced : PathTransfer :=
  { interrupted with
    file := otherFile
    events := prompt [.datagram clock (otherSent.getD 0 []), .send, .take .failed,
      .datagram clock (otherSent.getD 1 []), .send, .take .failed, .exitAll, .finish .written] }

/-- What the interrupted transfer leaves at an empty path. -/
def half : OutputPath :=
  { disk :=
      { out := some [1, 2, 3, 4, 0]
        resume := some (.saved
          { ResumeState.new 9 5 4 2 with
            completedBlocks := [true, false]
            blockHashes := [some (PlainCrates.plainCrates.blake3 [1, 2, 3, 4]), none] }) }
    source := file.bytes }

theorem step_interrupted :
    OutputPath.step PlainCrates.plainCrates ⟨⟨none, none⟩, []⟩ (.transfer interrupted)
      = some half := by
  decide +kernel

/-- Datagrams that pass `check` are allowed whenever the bytes land. -/
theorem allowedAlong_prompt {C : Crates} {p : RecvParams}
    {P : RecvFile C.raptorq → RecvEvent → Prop} (check : Bytes → Bool) (es : List RecvEvent)
    (h : datagramsAll check es = true)
    (hP : ∀ u e, (∀ now data, e = .datagram now data → check data = true) → P u e)
    (d : DeferredRecv C.raptorq) :
    AllowedAlong (DeferredRecv.step C p) (DeferredRecv.Along P) d (prompt es) := by
  refine allowedAlong_of_forall fun e he d => ?_
  obtain ⟨e, hmem, rfl⟩ := List.mem_map.mp he
  refine hP d.recv e fun now data hdata => ?_
  have hall := List.all_eq_true.mp h e hmem
  subst hdata
  exact hall

theorem interrupted_valid : interrupted.Valid PlainCrates.plainCrates 4 5 ⟨none, none⟩ where
  matches_engine := matches_file
  blockSize_eq := rfl
  length_eq := rfl
  network := allowedAlong_prompt (fun data => decide (data ∈ sent)) _ (by decide +kernel)
    (fun _ _ h now data he => Or.inl (of_decide_eq_true (h now data he))) _

theorem replaced_valid : replaced.Valid PlainCrates.plainCrates 4 5 half.disk where
  matches_engine := ⟨rfl, rfl, by decide⟩
  blockSize_eq := rfl
  length_eq := rfl
  network := allowedAlong_prompt (fun data => decide (data ∈ otherSent)) _
    (by decide +kernel) (fun _ _ h now data he => Or.inl (of_decide_eq_true (h now data he))) _

/-- The interrupted transfer taken up again: the second block arrives. -/
def resumed : PathTransfer :=
  { interrupted with
    events := prompt [.datagram clock (sent.getD 1 []), .send, .take .failed, .idleTimeout,
      .finish .written] }

theorem resumed_valid : resumed.Valid PlainCrates.plainCrates 4 5 half.disk where
  matches_engine := matches_file
  blockSize_eq := rfl
  length_eq := rfl
  network := allowedAlong_prompt (fun data => decide (data ∈ sent)) _ (by decide +kernel)
    (fun _ _ h now data he => Or.inl (of_decide_eq_true (h now data he))) _

theorem resume_sound_small :
    ∃ d, resumed.run PlainCrates.plainCrates half.disk = some d ∧
      d.recv.writer.finished = true ∧ d.onDisk = file.bytes := by
  obtain ⟨d, hd, hcheck⟩ := exists_of_runAll
    (DeferredRecv.step PlainCrates.plainCrates resumed.params) (resumed.start _ half.disk)
    resumed.events (fun d => d.recv.writer.finished && d.recv.resume.isTransferComplete)
    (by decide +kernel)
  rw [Bool.and_eq_true] at hcheck
  have hraw : ∀ t : PathTransfer, t.engine = engine →
      t.engine.SendsRaw PlainCrates.plainCrates t.file.bytes :=
    fun t ht => SendEngine.sendsRaw_of_off (by rw [ht]; rfl)
  have hist : Reaches (OutputPath.step PlainCrates.plainCrates)
      (fun o e => o.Allowed PlainCrates.plainCrates 4 5 e ∧
        o.Keeps PlainCrates.plainCrates 4 5 e ∧ o.Lands PlainCrates.plainCrates e)
      ⟨⟨none, none⟩, []⟩ half := by
    refine Reaches.single (e := .transfer interrupted)
      ⟨interrupted_valid, ⟨hraw _ rfl, ?_⟩, ?_⟩ step_interrupted
    · rintro id ⟨st, hst, -⟩
      cases hst
    · -- the transfer has returned, so its writes have reached the file
      intro d hd u hu
      obtain ⟨d', hd', hfinished⟩ := exists_of_runAll
        (DeferredRecv.step PlainCrates.plainCrates interrupted.params)
        (interrupted.start _ ⟨none, none⟩) interrupted.events
        (fun d => d.unfinished.isNone) (by decide +kernel)
      obtain rfl := Option.some.inj (hd'.symm.trans hd)
      rw [hu] at hfinished
      cases hfinished
  exact ⟨d, hd, hcheck.1, OutputPath.resume_sound PlainCrates.plainCrates_correct (by decide) hist
    resumed_valid ⟨hraw _ rfl, fun _ _ => rfl⟩ hd hcheck.1 hcheck.2⟩

/-- The first file's block 0 stays in place of the other file's. -/
theorem not_resume_sound :
    ¬ ∀ (o : OutputPath) (t : PathTransfer) (d : DeferredRecv PlainCrates.plainCrates.raptorq),
      Reaches (OutputPath.step PlainCrates.plainCrates)
        (OutputPath.Allowed PlainCrates.plainCrates 4 5) ⟨⟨none, none⟩, []⟩ o →
      t.Valid PlainCrates.plainCrates 4 5 o.disk → t.run PlainCrates.plainCrates o.disk = some d →
      d.recv.writer.finished = true → d.recv.resume.isTransferComplete = true →
      d.onDisk = t.file.bytes := by
  intro hsound
  obtain ⟨d, hd, hcheck⟩ := exists_of_runAll
    (DeferredRecv.step PlainCrates.plainCrates replaced.params) (replaced.start _ half.disk)
    replaced.events (fun d => d.recv.writer.finished && d.recv.resume.isTransferComplete &&
      decide (d.onDisk = [1, 2, 3, 4, 9])) (by decide +kernel)
  simp only [Bool.and_eq_true, decide_eq_true_eq] at hcheck
  obtain ⟨⟨hdone, hcomplete⟩, hfile⟩ := hcheck
  have hwrong := hsound half replaced d
    (Reaches.single (e := .transfer interrupted) interrupted_valid step_interrupted)
    replaced_valid hd hdone hcomplete
  rw [hfile] at hwrong
  exact absurd hwrong (by decide)

end Small

end Updown
