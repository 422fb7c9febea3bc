import Updown.Engine.RecvContent

set_option autoImplicit false

/-! # Writes that are still under way

`write_all` on a `tokio::fs::File` returns when it has handed its last bytes to a background
thread; an error there is reported by the next `write_all` or `flush`, which both wait for the
thread, as `seek` does. `RecvFile.file` is the file as `write_all` was told it. A `DeferredRecv` is
a transfer together with the write that is still under way, and its `onDisk` what the file holds.
Every step of it is one of the transfer or leaves the transfer alone (`reaches_recv`); once
`receive_file` has returned, the file holds what was written (`onDisk_of_finished`).
-/

namespace Updown

open Transition

/-- A write of which bytes are missing in the file: they are still under way, or the write has
failed since `write_all` returned. -/
structure Unfinished where
  blockId : ℕ
  /-- The file as it was before. -/
  before : Bytes
  offset : ℕ
  chunk : Bytes
  /-- How many bytes have reached the file. -/
  landed : ℕ
  failed : Bool
  deriving DecidableEq

namespace Unfinished

/-- What the file holds. -/
def file (u : Unfinished) : Bytes := Blocks.patch 0 u.before u.offset (u.chunk.take u.landed)

/-- What the file holds once all of the write has reached it. -/
def whole (u : Unfinished) : Bytes := Blocks.patch 0 u.before u.offset u.chunk

/-- A write that has reached the file is over. -/
def rest (u : Unfinished) : Option Unfinished :=
  if u.chunk.length ≤ u.landed then none else some u

theorem rest_eq_some {u v : Unfinished} (h : u.rest = some v) :
    v = u ∧ u.landed < u.chunk.length := by
  unfold rest at h
  split at h
  · cases h
  · next hlen => exact ⟨(Option.some.inj h).symm, Nat.lt_of_not_le hlen⟩

end Unfinished

/-- The write of a block, if the writer comes to it without a panic: offset and bytes. -/
def RecvParams.blockWrite (p : RecvParams) (block : ReceivedBlock) : Option (ℕ × Bytes) :=
  match p.writeRange block.blockId with
  | .ok (offset, actualLen) =>
      if block.data.length < actualLen then none else some (offset, block.data.take actualLen)
  | .error _ => none

/-- The write a step hands to the background thread: block, offset and bytes. -/
def RecvFile.issues {Q : RaptorQ} (p : RecvParams) (s : RecvFile Q) :
    RecvEvent → Option (ℕ × ℕ × Bytes)
  | .take _ =>
      match s.channel with
      | block :: _ =>
          if s.resume.isComplete block.blockId then none
          else (p.blockWrite block).map fun w => (block.blockId, w.1, w.2)
      | [] => none
  | _ => none

/-- A transfer, and the write of it that has not reached the file. -/
structure DeferredRecv (Q : RaptorQ) where
  recv : RecvFile Q
  unfinished : Option Unfinished

inductive DiskEvent where
  /-- A step of the transfer. Of what it writes, so many bytes have reached the file when `write_all`
  returns. -/
  | recv (e : RecvEvent) (landed : ℕ)
  /-- More bytes of the write reach the file. -/
  | lands (n : ℕ)
  /-- The write fails. -/
  | landFails

namespace DeferredRecv

/-- A step that uses the file waits for the write before it, and returns its error. -/
def ready {Q : RaptorQ} (p : RecvParams) (d : DeferredRecv Q) (e : RecvEvent) : Bool :=
  match e with
  | .take _ => (d.recv.issues p e).isNone || d.unfinished.isNone
  | .writeFails n => d.unfinished.all fun u => u.failed && decide (n = 0)
  | .finish _ => d.unfinished.isNone
  | .ioFails => d.unfinished.all fun u => u.failed
  | _ => true

def step (C : Crates) (p : RecvParams) (d : DeferredRecv C.raptorq) :
    DiskEvent → Option (DeferredRecv C.raptorq)
  | .recv e landed =>
      if d.ready p e then
        (RecvFile.step C p d.recv e).map fun s' =>
          { recv := s'
            unfinished :=
              match d.recv.issues p e with
              | some (id, offset, chunk) =>
                  Unfinished.rest ⟨id, d.recv.file, offset, chunk, landed, false⟩
              | none => d.unfinished }
      else none
  | .lands n =>
      match d.unfinished with
      | some u =>
          if u.failed then none
          else some { d with unfinished := Unfinished.rest { u with landed := u.landed + n } }
      | none => none
  | .landFails =>
      match d.unfinished with
      | some u =>
          if u.failed then none else some { d with unfinished := some { u with failed := true } }
      | none => none

/-- The output file. -/
def onDisk {Q : RaptorQ} (d : DeferredRecv Q) : Bytes :=
  match d.unfinished with
  | some u => u.file
  | none => d.recv.file

theorem onDisk_of_some {Q : RaptorQ} {d : DeferredRecv Q} {u : Unfinished}
    (hu : d.unfinished = some u) : d.onDisk = u.file := by
  rw [onDisk, hu]

theorem onDisk_of_none {Q : RaptorQ} {d : DeferredRecv Q} (hnone : d.unfinished = none) :
    d.onDisk = d.recv.file := by
  rw [onDisk, hnone]

def disk {Q : RaptorQ} (d : DeferredRecv Q) : Disk :=
  { out := some d.onDisk, resume := d.recv.resumeFile }

/-- Nothing is under way when `receive_file` starts. -/
def start (Q : RaptorQ) (p : RecvParams) (rng : ℕ → Vector UInt8 4) (now : ℕ) (disk : Disk) :
    DeferredRecv Q :=
  { recv := .start Q p rng now disk, unfinished := none }

/-- The steps of the transfer are allowed; the disk does as it likes. -/
def Along {Q : RaptorQ} (P : RecvFile Q → RecvEvent → Prop) (d : DeferredRecv Q) :
    DiskEvent → Prop
  | .recv e _ => P d.recv e
  | _ => True

end DeferredRecv

namespace RecvFile

variable {C : Crates} {p : RecvParams}

/-- Whether the resume file marks a block. -/
def marks (file : Option ResumeFile) (id : ℕ) : Bool :=
  match file with
  | some (.saved st) => st.isComplete id
  | _ => false

theorem marks_eq_true {file : Option ResumeFile} {id : ℕ} :
    marks file id = true ↔ ∃ st, file = some (.saved st) ∧ st.isComplete id = true := by
  unfold marks
  split
  · simp
  · next hother =>
      simp only [Bool.false_eq_true, false_iff, not_exists, not_and]
      exact fun st hst => absurd hst (hother st)

theorem blockWrite_eq_some {block : ReceivedBlock} {offset : ℕ} {chunk : Bytes}
    (h : p.blockWrite block = some (offset, chunk)) :
    ∃ len ≤ block.data.length, p.writeRange block.blockId = .ok (offset, len) ∧
      chunk = block.data.take len := by
  unfold RecvParams.blockWrite at h
  split at h
  · next offset' len hrange =>
      split at h
      · cases h
      · next hlen =>
          obtain ⟨rfl, rfl⟩ := Prod.mk.inj (Option.some.inj h)
          exact ⟨len, Nat.le_of_not_lt hlen, hrange, rfl⟩
  · cases h

section

variable {s : RecvFile C.raptorq} {save : SaveOutcome} {block : ReceivedBlock}
  {rest : List ReceivedBlock}

theorem issues_of_complete (hchannel : s.channel = block :: rest)
    (hdone : s.resume.isComplete block.blockId = true) : s.issues p (.take save) = none := by
  simp [issues, hchannel, hdone]

theorem issues_of_rangeFault {fault : Fault} (hchannel : s.channel = block :: rest)
    (hrange : p.writeRange block.blockId = .error fault) : s.issues p (.take save) = none := by
  simp [issues, hchannel, RecvParams.blockWrite, hrange]

theorem issues_of_short {offset len : ℕ} (hchannel : s.channel = block :: rest)
    (hrange : p.writeRange block.blockId = .ok (offset, len)) (hshort : block.data.length < len) :
    s.issues p (.take save) = none := by
  simp [issues, hchannel, RecvParams.blockWrite, hrange, hshort]

theorem issues_of_write {offset len : ℕ} (hchannel : s.channel = block :: rest)
    (hnew : s.resume.isComplete block.blockId = false)
    (hrange : p.writeRange block.blockId = .ok (offset, len)) (hlen : len ≤ block.data.length) :
    s.issues p (.take save) = some (block.blockId, offset, block.data.take len) := by
  simp [issues, hchannel, hnew, RecvParams.blockWrite, hrange, Nat.not_lt.mpr hlen]

end

/-- **What a step does to the file**: it writes what it issues, and if that is nothing, only a write
that fails at once leaves something behind. -/
theorem step_file {s s' : RecvFile C.raptorq} {e : RecvEvent} (h : step C p s e = some s') :
    (∃ id offset chunk, s.issues p e = some (id, offset, chunk) ∧
        s'.file = Blocks.patch 0 s.file offset chunk) ∨
      (s.issues p e = none ∧ (s'.file = s.file ∨ ∃ n, e = .writeFails n ∧ n ≠ 0)) := by
  cases step_cases h with
  | take save block rest s' hwriter hchannel htake =>
      cases htake with
      | skipped hdone => exact Or.inr ⟨issues_of_complete hchannel hdone, Or.inl rfl⟩
      | rangeFault fault hnew hrange =>
          exact Or.inr ⟨issues_of_rangeFault hchannel hrange, Or.inl rfl⟩
      | sliceFault offset len hnew hrange hshort =>
          exact Or.inr ⟨issues_of_short hchannel hrange hshort, Or.inl rfl⟩
      | markFault offset len fault hnew hrange hlen | wrote offset len resume hnew hrange hlen =>
          exact Or.inl ⟨_, _, _, issues_of_write hchannel hnew hrange hlen, rfl⟩
  | writeFails n block rest s' hwriter hchannel hnew hfail =>
      refine Or.inr ⟨rfl, ?_⟩
      cases hfail with
      | rangeFault | sliceFault => exact Or.inl rfl
      | partly offset len hrange hlen =>
          rcases Nat.eq_zero_or_pos n with rfl | hn
          · exact Or.inl (by simp [write, Blocks.patch])
          · exact Or.inr ⟨n, rfl, hn.ne'⟩
  | _ => exact Or.inr ⟨rfl, Or.inl rfl⟩

theorem finished_recordBlock {Q : RaptorQ} (save : SaveOutcome) (s : RecvFile Q)
    (block : ReceivedBlock) (resume : ResumeState) :
    (s.recordBlock p save block resume).writer.finished = false := by
  simp only [recordBlock]
  split <;> rfl

/-- `receive_file` returns a result by its last step only, and then writes no more. -/
theorem step_finished {s s' : RecvFile C.raptorq} {e : RecvEvent} (h : step C p s e = some s')
    (hdone : s'.writer.finished = true) :
    (∃ save, e = .finish save) ∨ (s.writer.finished = true ∧ s.issues p e = none) := by
  cases step_cases h with
  | take save block rest s' hwriter hchannel htake =>
      have hopen : s.writer.finished = false := by rw [hwriter]; rfl
      cases htake with
      | skipped => exact absurd (hopen.symm.trans hdone) Bool.false_ne_true
      | rangeFault | sliceFault | markFault => cases hdone
      | wrote =>
          rw [finished_recordBlock] at hdone
          cases hdone
  | writeFails n block rest s' hwriter hchannel hnew hfail =>
      cases hfail with
      | rangeFault | sliceFault | partly => cases hdone
  | channelEnd | joinFails | ioFails => cases hdone
  | finish save => exact Or.inl ⟨save, rfl⟩
  | _ => exact Or.inr ⟨hdone, rfl⟩

end RecvFile

namespace DeferredRecv

variable {C : Crates} {p : RecvParams} {P : RecvFile C.raptorq → RecvEvent → Prop}
  {rng : ℕ → Vector UInt8 4} {now : ℕ} {disk : Disk} {d d' : DeferredRecv C.raptorq}

/-- The steps of a transfer with a write under way. -/
inductive StepCases (C : Crates) (p : RecvParams) (d : DeferredRecv C.raptorq) :
    DiskEvent → DeferredRecv C.raptorq → Prop
  | issued (e : RecvEvent) (landed : ℕ) (s' : RecvFile C.raptorq) (id offset : ℕ) (chunk : Bytes)
      (hstep : RecvFile.step C p d.recv e = some s')
      (hissues : d.recv.issues p e = some (id, offset, chunk)) (hnone : d.unfinished = none)
      (hfile : s'.file = Blocks.patch 0 d.recv.file offset chunk) :
      StepCases C p d (.recv e landed)
        ⟨s', Unfinished.rest ⟨id, d.recv.file, offset, chunk, landed, false⟩⟩
  | silent (e : RecvEvent) (landed : ℕ) (s' : RecvFile C.raptorq)
      (hstep : RecvFile.step C p d.recv e = some s') (hissues : d.recv.issues p e = none)
      (hready : d.ready p e = true)
      (hfile : ∀ u, d.unfinished = some u → s'.file = d.recv.file) :
      StepCases C p d (.recv e landed) { d with recv := s' }
  | lands (n : ℕ) (u : Unfinished) (hu : d.unfinished = some u) (hfailed : u.failed = false) :
      StepCases C p d (.lands n)
        { d with unfinished := Unfinished.rest { u with landed := u.landed + n } }
  | landFails (u : Unfinished) (hu : d.unfinished = some u) (hfailed : u.failed = false) :
      StepCases C p d .landFails { d with unfinished := some { u with failed := true } }

/-- **Inversion of a step.** -/
theorem step_cases {e : DiskEvent} (h : step C p d e = some d') : StepCases C p d e d' := by
  cases e with
  | recv e landed =>
      simp only [step] at h
      split at h
      · next hready =>
          obtain ⟨s', hstep, rfl⟩ := Option.map_eq_some_iff.mp h
          rcases RecvFile.step_file hstep with ⟨id, offset, chunk, hissues, hfile⟩ | ⟨hissues, hfile⟩
          · simp only [hissues]
            refine .issued e landed s' id offset chunk hstep hissues ?_ hfile
            -- only the writer's handling of a block issues a write
            cases e with
            | take save => simpa [ready, hissues] using hready
            | _ => cases hissues
          · simp only [hissues]
            refine .silent e landed s' hstep hissues hready fun u hu => ?_
            rcases hfile with hsame | ⟨n, rfl, hn⟩
            · exact hsame
            · simp [ready, hu, hn] at hready
      · cases h
  | lands n =>
      simp only [step] at h
      split at h
      · next u hu =>
          split at h
          · cases h
          · next hfailed =>
              obtain rfl := Option.some.inj h
              exact .lands n u hu (by simpa using hfailed)
      · cases h
  | landFails =>
      simp only [step] at h
      split at h
      · next u hu =>
          split at h
          · cases h
          · next hfailed =>
              obtain rfl := Option.some.inj h
              exact .landFails u hu (by simpa using hfailed)
      · cases h

/-- A step is one of the transfer, or the transfer does not see it. -/
theorem recv_step {e : DiskEvent} (he : Along P d e) (h : step C p d e = some d') :
    d'.recv = d.recv ∨ ∃ e', P d.recv e' ∧ RecvFile.step C p d.recv e' = some d'.recv := by
  cases step_cases h with
  | issued e landed s' id offset chunk hstep => exact Or.inr ⟨e, he, hstep⟩
  | silent e landed s' hstep => exact Or.inr ⟨e, he, hstep⟩
  | lands | landFails => exact Or.inl rfl

/-- **What is known of a transfer holds whenever its writes reach the file.** -/
theorem reaches_recv (h : Reaches (step C p) (Along P) d d') :
    Reaches (RecvFile.step C p) P d.recv d'.recv :=
  Reaches.simulated DeferredRecv.recv (fun _ _ _ he hs => recv_step he hs) h

/-- The steps of the transfer among the events. -/
def recvEvents (es : List DiskEvent) : List RecvEvent :=
  es.filterMap fun e =>
    match e with
    | .recv e _ => some e
    | _ => none

/-- An execution is one of the transfer. -/
theorem runAll_recv {es : List DiskEvent} (h : runAll (step C p) d es = some d')
    (hP : AllowedAlong (step C p) (Along P) d es) :
    runAll (RecvFile.step C p) d.recv (recvEvents es) = some d'.recv ∧
      AllowedAlong (RecvFile.step C p) P d.recv (recvEvents es) := by
  induction es generalizing d with
  | nil =>
      obtain rfl := Option.some.inj h
      exact ⟨rfl, trivial⟩
  | cons e es ih =>
      obtain ⟨d₁, hs, h⟩ := Option.bind_eq_some_iff.mp h
      obtain ⟨hrun, hallowed⟩ := ih h (hP.2 d₁ hs)
      cases step_cases hs with
      | issued e landed s' id offset chunk hstep | silent e landed s' hstep =>
          refine ⟨Option.bind_eq_some_iff.mpr ⟨s', hstep, hrun⟩, hP.1, fun s₁ hs₁ => ?_⟩
          obtain rfl := Option.some.inj (hstep.symm.trans hs₁)
          exact hallowed
      | lands | landFails => exact ⟨hrun, hallowed⟩

/-! ## The write under way -/

/-- The write `u` was issued in the state `s`. -/
def Issued {Q : RaptorQ} (p : RecvParams) (s : RecvFile Q) (u : Unfinished) : Prop :=
  ∃ e, s.issues p e = some (u.blockId, u.offset, u.chunk) ∧ u.before = s.file

/-- A write is issued for a block on the channel that is not marked. -/
theorem Issued.exists_block {Q : RaptorQ} {s : RecvFile Q} {u : Unfinished} (h : Issued p s u) :
    ∃ block ∈ s.channel, block.blockId = u.blockId ∧ s.resume.isComplete u.blockId = false ∧
      ∃ len ≤ block.data.length, p.writeRange u.blockId = .ok (u.offset, len) ∧
        u.chunk = block.data.take len := by
  obtain ⟨e, hissues, -⟩ := h
  cases e with
  | take save =>
      simp only [RecvFile.issues] at hissues
      split at hissues
      · next block rest hchannel =>
          split at hissues
          · cases hissues
          · next hnew =>
              obtain ⟨w, hwrite, hw⟩ := Option.map_eq_some_iff.mp hissues
              obtain ⟨hid, hw⟩ := Prod.mk.inj hw
              obtain ⟨len, hlen, hrange, hchunk⟩ := RecvFile.blockWrite_eq_some
                (show p.blockWrite block = some (u.offset, u.chunk) by rw [hwrite, ← hw])
              rw [← hid]
              exact ⟨block, by simp [hchannel], rfl, by simpa using hnew, len, hlen, hrange, hchunk⟩
      · cases hissues
  | _ => cases hissues

/-- **The write that is under way** was issued in a state of the transfer, and with it the file would
hold what `write_all` was told. -/
theorem exists_issued_of_reaches
    (h : Reaches (step C p) (Along P) (start C.raptorq p rng now disk) d) {u : Unfinished}
    (hu : d.unfinished = some u) :
    d.recv.file = u.whole ∧ ∃ s, Issued p s u ∧
      Reaches (RecvFile.step C p) P (.start C.raptorq p rng now disk) s := by
  refine h.invariant_along (I := fun d => ∀ u, d.unfinished = some u → d.recv.file = u.whole ∧
    ∃ s, Issued p s u ∧ Reaches (RecvFile.step C p) P (.start C.raptorq p rng now disk) s)
    (fun u hu => by cases hu) (fun d e d' hd hinv he hs => ?_) u hu
  cases step_cases hs with
  | issued e landed s' id offset chunk hstep hissues hnone hfile =>
      intro u hu
      obtain ⟨rfl, -⟩ := Unfinished.rest_eq_some hu
      exact ⟨hfile, d.recv, ⟨e, hissues, rfl⟩, reaches_recv hd⟩
  | silent e landed s' hstep hissues hready hfile =>
      intro u hu
      obtain ⟨hwhole, hissued⟩ := hinv u hu
      exact ⟨(hfile u hu).trans hwhole, hissued⟩
  | lands n v hv =>
      intro u hu
      obtain ⟨rfl, -⟩ := Unfinished.rest_eq_some hu
      exact hinv v hv
  | landFails v hv =>
      intro u hu
      obtain rfl := Option.some.inj hu
      exact hinv v hv

/-- The step that returns comes after the flush, which waits for the write. -/
theorem unfinished_step {e : DiskEvent}
    (hinv : d.recv.writer.finished = true → d.unfinished = none) (hs : step C p d e = some d')
    (hdone : d'.recv.writer.finished = true) : d'.unfinished = none := by
  cases step_cases hs with
  | issued e landed s' id offset chunk hstep hissues =>
      rcases RecvFile.step_finished hstep hdone with ⟨save, rfl⟩ | ⟨-, hnone⟩
      · cases hissues
      · rw [hnone] at hissues
        cases hissues
  | silent e landed s' hstep hissues hready =>
      rcases RecvFile.step_finished hstep hdone with ⟨save, rfl⟩ | ⟨hbefore, -⟩
      · simpa [ready] using hready
      · exact hinv hbefore
  | lands n u hu | landFails u hu =>
      rw [hinv hdone] at hu
      cases hu

/-- **When `receive_file` returns, its writes have reached the file.** -/
theorem unfinished_of_finished
    (h : Reaches (step C p) (Along P) (start C.raptorq p rng now disk) d)
    (hdone : d.recv.writer.finished = true) : d.unfinished = none :=
  h.invariant (I := fun d => d.recv.writer.finished = true → d.unfinished = none)
    (fun hdone => by cases hdone) (fun _ _ _ hinv _ hs => unfinished_step hinv hs) hdone

theorem onDisk_of_finished
    (h : Reaches (step C p) (Along P) (start C.raptorq p rng now disk) d)
    (hdone : d.recv.writer.finished = true) : d.onDisk = d.recv.file :=
  onDisk_of_none (unfinished_of_finished h hdone)

/-! ## What is missing -/

/-- The write is that of a block of the transfer, in its place. -/
structure InPlace (p : RecvParams) (u : Unfinished) : Prop where
  length_before : u.before.length = p.fileSize
  blockId_lt : u.blockId < p.totalBlocks
  offset_eq : u.offset = u.blockId * p.blockSize
  length_chunk : u.chunk.length = p.blockLen u.blockId

theorem inPlace_of_reaches {K : ℕ → C.raptorq.Packet → Prop} (hfits : p.Fits)
    (hK : ∀ id q, K id q → id < p.totalBlocks) (hdisk : disk.Sound)
    (hP : ∀ s e, P s e → RecvFile.Arrivals C p K s e)
    (h : Reaches (step C p) (Along P) (start C.raptorq p rng now disk) d) {u : Unfinished}
    (hu : d.unfinished = some u) : InPlace p u := by
  obtain ⟨-, s, hissued, hreach⟩ := exists_issued_of_reaches h hu
  obtain ⟨block, hblock, hid, -, len, hlen, hrange, hchunk⟩ := hissued.exists_block
  obtain ⟨e, -, hbefore⟩ := hissued
  have hrec := RecvFile.recorded_of_reaches hfits hK hdisk hP hreach
  have hmem := (RecvFile.bookkeeping_of_reaches hreach).mem_decodedBlocks hblock
  obtain ⟨q, hq⟩ :=
    ((RecvFile.provenance_of_reaches hP hreach).blocks block hmem).exists_packet
  obtain ⟨hoffset, rfl⟩ := RecvParams.writeRange_eq_ok hrange
  refine ⟨hbefore ▸ hrec.length_file, hid ▸ hK _ q hq, hoffset, ?_⟩
  rw [hchunk, List.length_take, min_eq_left hlen]

/-- The missing bytes are those of one block. -/
theorem InPlace.block_file {u : Unfinished} (h : InPlace p u) (hfits : p.Fits) {j : ℕ}
    (hj : j < p.totalBlocks) (hne : j ≠ u.blockId) :
    Blocks.block p.blockSize u.file j = Blocks.block p.blockSize u.whole j := by
  have hother : ∀ chunk : Bytes, chunk.length ≤ p.blockLen u.blockId →
      Blocks.block p.blockSize (Blocks.patch 0 u.before (u.blockId * p.blockSize) chunk) j
        = Blocks.block p.blockSize u.before j :=
    fun chunk hlen => RecvFile.block_write_of_ne hfits h.length_before h.blockId_lt hj hne hlen
  rw [Unfinished.file, Unfinished.whole, h.offset_eq, hother _ h.length_chunk.le,
    hother _ (by rw [List.length_take, h.length_chunk]; exact min_le_right _ _)]

theorem InPlace.length_file {u : Unfinished} (h : InPlace p u) (hfits : p.Fits) :
    u.file.length = p.fileSize := by
  have hend := hfits.end_le h.blockId_lt
  have hlen : (u.chunk.take u.landed).length ≤ p.blockLen u.blockId := by
    rw [List.length_take, h.length_chunk]
    exact min_le_right _ _
  rw [Unfinished.file, h.offset_eq, Blocks.length_patch (by rw [h.length_before]; omega),
    h.length_before]

theorem length_onDisk {K : ℕ → C.raptorq.Packet → Prop} (hfits : p.Fits)
    (hK : ∀ id q, K id q → id < p.totalBlocks) (hdisk : disk.Sound)
    (hP : ∀ s e, P s e → RecvFile.Arrivals C p K s e)
    (h : Reaches (step C p) (Along P) (start C.raptorq p rng now disk) d) :
    d.onDisk.length = p.fileSize := by
  cases hu : d.unfinished with
  | none =>
      rw [onDisk_of_none hu]
      exact (RecvFile.recorded_of_reaches hfits hK hdisk hP (reaches_recv h)).length_file
  | some u =>
      rw [onDisk_of_some hu]
      exact (inPlace_of_reaches hfits hK hdisk hP h hu).length_file hfits

/-- No block is marked in the resume file of which bytes are missing in the output file. -/
def Landed {Q : RaptorQ} (d : DeferredRecv Q) : Prop :=
  ∀ u, d.unfinished = some u → RecvFile.marks d.recv.resumeFile u.blockId = true →
    u.file = u.whole

/-- **The blocks the resume file marks** are in the output file as they were written. -/
theorem Landed.block_onDisk {K : ℕ → C.raptorq.Packet → Prop} (hlanded : d.Landed)
    (hfits : p.Fits) (hK : ∀ id q, K id q → id < p.totalBlocks) (hdisk : disk.Sound)
    (hP : ∀ s e, P s e → RecvFile.Arrivals C p K s e)
    (h : Reaches (step C p) (Along P) (start C.raptorq p rng now disk) d) {id : ℕ}
    (hid : id < p.totalBlocks) (hmarks : RecvFile.marks d.recv.resumeFile id = true) :
    Blocks.block p.blockSize d.onDisk id = Blocks.block p.blockSize d.recv.file id := by
  cases hu : d.unfinished with
  | none => rw [onDisk_of_none hu]
  | some u =>
      rw [onDisk_of_some hu, (exists_issued_of_reaches h hu).1]
      by_cases hne : id = u.blockId
      · rw [hlanded u hu (hne ▸ hmarks)]
      · exact (inPlace_of_reaches hfits hK hdisk hP h hu).block_file hfits hid hne

end DeferredRecv

end Updown
