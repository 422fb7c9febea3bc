import Updown.Engine.DeferredWrites
import Updown.Engine.Transfer

set_option autoImplicit false

/-! # The persisted resume state and the file

A transfer that starts without a resume file, run by the blocks the writer is given: any blocks in
range, in any order and with repeats. `Traced` keeps the list of the blocks the writer has written
beside the state. `Persisted` is the invariant: the bitmap in memory records all of that list, the
resume file an initial part of it that falls short by fewer than eight, and each block recorded has
been written. The eighth block is saved before its write is known to have reached the file, and
`neverAhead_iff` says what that costs.
-/

namespace Updown

open Transition

namespace RecvFile

variable {C : Crates} {p : RecvParams}

/-! ## Runs of the writer -/

/-- A transfer, and the blocks written so far: their ids and what was written. -/
structure Traced (Q : RaptorQ) where
  state : DeferredRecv Q
  written : List (ℕ × Bytes)

inductive TraceEvent where
  | disk (e : DiskEvent)
  /-- A decoded block is put on the channel. -/
  | deliver (block : ReceivedBlock)

/-- The block a step writes, if it writes one. -/
def writtenBy (p : RecvParams) {Q : RaptorQ} (s : RecvFile Q) (e : RecvEvent) :
    List (ℕ × Bytes) :=
  (s.issues p e).toList.map fun w => (w.1, w.2.2)

/-- Blocks that are put on the channel are in range, and saving succeeds. -/
def Regular (p : RecvParams) {Q : RaptorQ} (s : RecvFile Q) : RecvEvent → Prop
  | .send => ∀ block, s.task = .sending block → block.blockId < p.totalBlocks
  | .take save | .finish save => save = .written
  | _ => True

namespace Traced

def step (C : Crates) (p : RecvParams) (t : Traced C.raptorq) :
    TraceEvent → Option (Traced C.raptorq)
  | .disk e =>
      (DeferredRecv.step C p t.state e).map fun d =>
        { state := d
          written :=
            match e with
            | .recv e _ => t.written ++ writtenBy p t.state.recv e
            | _ => t.written }
  | .deliver block =>
      let recv := { t.state.recv with channel := t.state.recv.channel ++ [block] }
      some { t with state := { t.state with recv := recv } }

def InRange (p : RecvParams) {Q : RaptorQ} (t : Traced Q) : TraceEvent → Prop
  | .deliver block => block.blockId < p.totalBlocks
  | .disk e => DeferredRecv.Along (RecvFile.Regular p) t.state e

/-- The state `receive_file` starts in, with nothing written. -/
def start (Q : RaptorQ) (p : RecvParams) (rng : ℕ → Vector UInt8 4) (now : ℕ) (disk : Disk) :
    Traced Q :=
  { state := .start Q p rng now disk, written := [] }

/-- Every run of `receive_file` can be traced. -/
theorem exists_of_reaches {P : RecvFile C.raptorq → RecvEvent → Prop}
    {d d' : DeferredRecv C.raptorq} (hP : ∀ s e, P s e → RecvFile.Regular p s e)
    (h : Reaches (DeferredRecv.step C p) (DeferredRecv.Along P) d d')
    (written : List (ℕ × Bytes)) :
    ∃ written', Reaches (step C p) (InRange p) ⟨d, written⟩ ⟨d', written'⟩ := by
  induction h with
  | refl => exact ⟨written, Reaches.refl _⟩
  | @tail u u' _ hm ih =>
      obtain ⟨e, he, hs⟩ := hm
      obtain ⟨written', hreach⟩ := ih
      refine ⟨_, hreach.snoc (e := .disk e) ?_ (Option.map_eq_some_iff.mpr ⟨u', hs, rfl⟩)⟩
      cases e with
      | recv e landed => exact hP _ e he
      | lands | landFails => trivial

end Traced

/-! ## The invariant -/

/-- The bitmap marks the blocks of the list, with the hashes of what was written. -/
structure Records (C : Crates) (st : ResumeState) (written : List (ℕ × Bytes)) : Prop where
  isComplete_iff : ∀ id, st.isComplete id = true ↔ id ∈ written.map Prod.fst
  hash : ∀ x ∈ written, st.blockHashes[x.1]? = some (some (C.blake3 x.2))

/-- The block is in the file, where it belongs and in its length. -/
structure InFile (p : RecvParams) (file : Bytes) (x : ℕ × Bytes) : Prop where
  lt : x.1 < p.totalBlocks
  range : p.writeRange x.1 = .ok (x.1 * p.blockSize, x.2.length)
  content : Blocks.slice file (x.1 * p.blockSize) x.2.length = x.2

/-- The resume file records `written`; without one nothing is recorded. -/
def OnDisk (C : Crates) (file : Option ResumeFile) (written : List (ℕ × Bytes)) : Prop :=
  (file = none ∧ written = []) ∨ ∃ st, file = some (.saved st) ∧ Records C st written

/-- **Bitmap, resume file and output file agree.** -/
structure Persisted (C : Crates) (p : RecvParams) (s : RecvFile C.raptorq)
    (written : List (ℕ × Bytes)) : Prop where
  wellFormed : s.resume.WellFormed
  totalBlocks_eq : s.resume.totalBlocks = p.totalBlocks
  counted : s.blocksWritten = s.resume.completedCount
  nodup : (written.map Prod.fst).Nodup
  records : Records C s.resume written
  inFile : ∀ x ∈ written, InFile p s.file x
  channel : ∀ block ∈ s.channel, block.blockId < p.totalBlocks
  onDisk : s.writer.finished = false → s.blocksSinceSave < 8 ∧
    ∃ old new, written = old ++ new ∧ new.length = s.blocksSinceSave ∧ OnDisk C s.resumeFile old
  ended : s.writer.finished = true →
    (s.resumeFile = none ∧ ∀ id < p.totalBlocks, id ∈ written.map Prod.fst) ∨
      ∃ st, s.resumeFile = some (.saved st) ∧ Records C st written

theorem persisted_start (rng : ℕ → Vector UInt8 4) (now : ℕ) {disk : Disk}
    (hdisk : disk.resume = none) : Persisted C p (start C.raptorq p rng now disk) [] where
  wellFormed := by
    have hnew : (start C.raptorq p rng now disk).resume
        = .new p.sessionId p.fileSize p.blockSize p.totalBlocks := by
      simp [start, ResumeState.load, hdisk]
    rw [hnew]
    exact ResumeState.wellFormed_new p.totalBlocks_lt
  totalBlocks_eq := by simp [start, ResumeState.load, hdisk, ResumeState.new]
  counted := rfl
  nodup := List.nodup_nil
  records := by
    constructor
    · intro id
      simp [start, ResumeState.load, hdisk]
    · intro x hx
      cases hx
  inFile := by
    intro x hx
    cases hx
  channel := by
    intro block hblock
    cases hblock
  onDisk := by
    intro _
    exact ⟨by simp [start], [], [], rfl, rfl, Or.inl ⟨by simp [start, ResumeState.load, hdisk], rfl⟩⟩
  ended := by
    intro h
    cases h

/-- A step that leaves the writer's stores alone. -/
theorem Persisted.of_eq {s s' : RecvFile C.raptorq} {written : List (ℕ × Bytes)}
    (h : Persisted C p s written) (hresume : s'.resume = s.resume)
    (hwritten : s'.blocksWritten = s.blocksWritten) (hfile : s'.file = s.file)
    (hdisk : s'.resumeFile = s.resumeFile) (hcount : s'.blocksSinceSave = s.blocksSinceSave)
    (hwriter : s'.writer.finished = s.writer.finished)
    (hchannel : ∀ block ∈ s'.channel, block.blockId < p.totalBlocks) :
    Persisted C p s' written where
  wellFormed := hresume ▸ h.wellFormed
  totalBlocks_eq := hresume ▸ h.totalBlocks_eq
  counted := by rw [hwritten, hresume, h.counted]
  nodup := h.nodup
  records := hresume ▸ h.records
  inFile := hfile ▸ h.inFile
  channel := hchannel
  onDisk := by
    rw [hwriter, hcount, hdisk]
    exact h.onDisk
  ended := by
    rw [hwriter, hdisk]
    exact h.ended

/-- **A write to another block leaves a block in the file.** -/
theorem InFile.patch {file chunk : Bytes} {x : ℕ × Bytes} (h : InFile p file x) {id : ℕ}
    (hid : id < p.totalBlocks) (hne : x.1 ≠ id) (hlen : chunk.length ≤ p.blockLen id) :
    InFile p (Blocks.patch 0 file (id * p.blockSize) chunk) x where
  lt := h.lt
  range := h.range
  content := by
    have hxlen : x.2.length = p.blockLen x.1 := (RecvParams.writeRange_eq_ok h.range).2
    have hfull : x.2.length ≤ file.length - x.1 * p.blockSize := by
      have := congrArg List.length h.content
      simp [Blocks.slice] at this
      omega
    rw [Blocks.slice_patch_of_disjoint hfull ?_, h.content]
    rcases Nat.lt_or_gt_of_ne hne with hlt | hgt
    · have := RecvParams.end_le_of_lt hid hlt
      omega
    · have := RecvParams.end_le_of_lt h.lt hgt
      omega

/-- A block that is not marked is not recorded. -/
theorem Records.ne_of_mem {st : ResumeState} {written : List (ℕ × Bytes)} (h : Records C st written)
    {x : ℕ × Bytes} (hx : x ∈ written) {id : ℕ} (hid : st.isComplete id = false) : x.1 ≠ id := by
  rintro rfl
  have hmarked := (h.isComplete_iff x.1).mpr (List.mem_map_of_mem hx)
  rw [hid] at hmarked
  cases hmarked

/-- Marking the block that was written records it too. -/
theorem Records.mark {st st' : ResumeState} {written : List (ℕ × Bytes)} (h : Records C st written)
    {id : ℕ} {chunk : Bytes} (hmark : st.markComplete id (C.blake3 chunk) = .ok st')
    (hid : id < st.completedBlocks.length) (hnew : st.isComplete id = false) :
    Records C st' (written ++ [(id, chunk)]) := by
  constructor
  · intro j
    rw [ResumeState.isComplete_markComplete hmark hid, Bool.or_eq_true, decide_eq_true_iff,
      h.isComplete_iff, List.map_append, List.mem_append]
    simp [or_comm]
  · intro x hx
    rw [ResumeState.blockHashes_markComplete hmark hid]
    rcases List.mem_append.mp hx with hold | hlast
    · rw [if_neg (h.ne_of_mem hold hnew), h.hash x hold]
    · obtain rfl := List.mem_singleton.mp hlast
      rw [if_pos rfl]

/-- The new block is in the file. -/
theorem inFile_self {file chunk : Bytes} {id offset : ℕ} (hid : id < p.totalBlocks)
    (hrange : p.writeRange id = .ok (offset, chunk.length)) :
    InFile p (Blocks.patch 0 file offset chunk) (id, chunk) := by
  obtain ⟨rfl, -⟩ := RecvParams.writeRange_eq_ok hrange
  exact ⟨hid, hrange, Blocks.slice_patch_self 0 file _ chunk⟩

/-- The eighth block since the last save: the resume state is saved. -/
theorem recordBlock_saved {Q : RaptorQ} (save : SaveOutcome) {s : RecvFile Q}
    (block : ReceivedBlock) (resume : ResumeState) (h : 8 ≤ s.blocksSinceSave + 1) :
    (s.recordBlock p save block resume).blocksSinceSave = 0 ∧
      (s.recordBlock p save block resume).resumeFile = save.apply resume s.resumeFile := by
  simp [recordBlock, h]

theorem recordBlock_unsaved {Q : RaptorQ} (save : SaveOutcome) {s : RecvFile Q}
    (block : ReceivedBlock) (resume : ResumeState) (h : ¬ 8 ≤ s.blocksSinceSave + 1) :
    (s.recordBlock p save block resume).blocksSinceSave = s.blocksSinceSave + 1 ∧
      (s.recordBlock p save block resume).resumeFile = s.resumeFile := by
  simp [recordBlock, h]

/-- **Writing, marking and, every eighth time, saving a block.** -/
theorem Persisted.wrote {s : RecvFile C.raptorq} {written : List (ℕ × Bytes)}
    (h : Persisted C p s written) (hwriter : s.writer = .looping) {block : ReceivedBlock}
    {offset len : ℕ} {resume : ResumeState} (hid : block.blockId < p.totalBlocks)
    (hnew : s.resume.isComplete block.blockId = false)
    (hrange : p.writeRange block.blockId = .ok (offset, len)) (hlen : len ≤ block.data.length)
    (hmark : s.resume.markComplete block.blockId (C.blake3 (block.data.take len)) = .ok resume) :
    Persisted C p ((s.write offset (block.data.take len)).recordBlock p .written block resume)
      (written ++ [(block.blockId, block.data.take len)]) := by
  set chunk := block.data.take len with hchunk
  have hchunklen : chunk.length = len := by
    rw [hchunk, List.length_take, min_eq_left hlen]
  have hbitmap : block.blockId < s.resume.completedBlocks.length := by
    rwa [h.wellFormed.bitmap_length, h.totalBlocks_eq]
  have hnotin : block.blockId ∉ written.map Prod.fst := by
    rw [← h.records.isComplete_iff, hnew]
    exact Bool.false_ne_true
  have hrecords := h.records.mark hmark hbitmap hnew
  have hrange' : p.writeRange block.blockId = .ok (offset, chunk.length) := by rwa [hchunklen]
  obtain ⟨hoffset, hblocklen⟩ := RecvParams.writeRange_eq_ok hrange
  obtain ⟨hlt, old, new, hsplit, hnewlen, hdisk⟩ := h.onDisk (by rw [hwriter]; rfl)
  refine ⟨h.wellFormed.mark hmark, ?_, ?_, ?_, hrecords, ?_, h.channel, ?_, ?_⟩
  · rw [← h.totalBlocks_eq]
    exact (ResumeState.markComplete_frame hmark).2.2.1
  · rw [recordBlock_blocksWritten, recordBlock_resume,
      h.wellFormed.completedCount_markComplete hmark (h.totalBlocks_eq ▸ hid) hnew, ← h.counted]
    rfl
  · rw [List.map_append]
    exact List.Nodup.append h.nodup (List.nodup_singleton _) (by simpa using hnotin)
  · intro x hx
    rcases List.mem_append.mp hx with hold | hlast
    · show InFile p (Blocks.patch 0 s.file offset chunk) x
      rw [hoffset]
      exact (h.inFile x hold).patch hid (h.records.ne_of_mem hold hnew) (by omega)
    · obtain rfl := List.mem_singleton.mp hlast
      exact inFile_self hid hrange'
  · intro _
    -- the eighth block since the last save is saved with the others
    by_cases hsave : 8 ≤ s.blocksSinceSave + 1
    · obtain ⟨hcount, hfile⟩ :=
        recordBlock_saved (p := p) .written (s := s.write offset chunk) block resume hsave
      rw [hcount, hfile]
      exact ⟨by omega, written ++ [(block.blockId, chunk)], [], by simp, rfl,
        Or.inr ⟨resume, rfl, hrecords⟩⟩
    · obtain ⟨hcount, hfile⟩ :=
        recordBlock_unsaved (p := p) .written (s := s.write offset chunk) block resume hsave
      rw [hcount, hfile]
      refine ⟨by simp only [write]; omega, old, new ++ [(block.blockId, chunk)], ?_, ?_, hdisk⟩
      · rw [hsplit, List.append_assoc]
      · simp [hnewlen, write]
  · intro hdone
    simp only [recordBlock] at hdone
    split at hdone <;> cases hdone

theorem writtenBy_of_none {Q : RaptorQ} {s : RecvFile Q} {e : RecvEvent}
    (h : s.issues p e = none) : writtenBy p s e = [] := by
  rw [writtenBy, h]
  rfl

theorem writtenBy_of_some {Q : RaptorQ} {s : RecvFile Q} {e : RecvEvent} {id offset : ℕ}
    {chunk : Bytes} (h : s.issues p e = some (id, offset, chunk)) :
    writtenBy p s e = [(id, chunk)] := by
  rw [writtenBy, h]
  rfl

/-- A block in range that is not marked can be marked and counted. -/
theorem Persisted.canRecord {s : RecvFile C.raptorq} {written : List (ℕ × Bytes)}
    (h : Persisted C p s written) {id : ℕ} (hid : id < p.totalBlocks)
    (hnew : s.resume.isComplete id = false) : s.CanRecord id := by
  have hid' : id < s.resume.totalBlocks := h.totalBlocks_eq ▸ hid
  have htotal := h.wellFormed.total_lt
  have hlt := h.wellFormed.completedCount_lt hid' hnew
  rw [← h.counted] at hlt
  exact ⟨fun _ => h.wellFormed.hashes_length ▸ hid', by omega⟩

/-- **A write that fails** touches no block that is recorded. -/
theorem Persisted.fail {s s' : RecvFile C.raptorq} {written : List (ℕ × Bytes)} {n : ℕ}
    (h : Persisted C p s written) (hwriter : s.writer = .looping) {block : ReceivedBlock}
    (hid : block.blockId < p.totalBlocks) (hnew : s.resume.isComplete block.blockId = false)
    (hfail : FailCases p n s block s') : Persisted C p s' written := by
  cases hfail with
  | rangeFault | sliceFault =>
      exact h.of_eq rfl rfl rfl rfl rfl (by rw [hwriter]; rfl) h.channel
  | partly offset len hrange hlen =>
      obtain ⟨rfl, hblocklen⟩ := RecvParams.writeRange_eq_ok hrange
      refine ⟨h.wellFormed, h.totalBlocks_eq, h.counted, h.nodup, h.records, fun x hx => ?_, h.channel,
        fun _ => h.onDisk (by rw [hwriter]; rfl), (fun hdone => by cases hdone)⟩
      refine (h.inFile x hx).patch hid (h.records.ne_of_mem hx hnew) ?_
      rw [List.length_take, List.length_take]
      omega

/-- **Every step of the transfer keeps the stores in agreement.** -/
theorem Persisted.recv {s s' : RecvFile C.raptorq} {written : List (ℕ × Bytes)} {e : RecvEvent}
    (h : Persisted C p s written) (he : Regular p s e) (hs : RecvFile.step C p s e = some s') :
    Persisted C p s' (written ++ writtenBy p s e) := by
  have hrest : ∀ {block rest}, s.channel = block :: rest → block.blockId < p.totalBlocks ∧
      Persisted C p ({ s with channel := rest } : RecvFile C.raptorq) written := by
    intro block rest hchannel
    refine ⟨h.channel block (by simp [hchannel]), ?_⟩
    exact h.of_eq rfl rfl rfl rfl rfl rfl fun b hb => h.channel b (by simp [hchannel, hb])
  -- a step that issues no write leaves the list of written blocks
  have hsilent : ∀ {e : RecvEvent}, s.issues p e = none → Persisted C p s' written →
      Persisted C p s' (written ++ writtenBy p s e) := by
    intro e hnone h
    rwa [writtenBy_of_none hnone, List.append_nil]
  cases step_cases hs with
  | take save block rest s' hwriter hchannel htake =>
      obtain rfl : save = .written := he
      obtain ⟨hid, htaken⟩ := hrest hchannel
      cases htake with
      | skipped hdone => exact hsilent (issues_of_complete hchannel hdone) htaken
      | rangeFault fault hnew hrange =>
          refine hsilent (issues_of_rangeFault hchannel hrange) ?_
          exact htaken.of_eq rfl rfl rfl rfl rfl (by rw [hwriter]; rfl) htaken.channel
      | sliceFault offset len hnew hrange hshort =>
          refine hsilent (issues_of_short hchannel hrange hshort) ?_
          exact htaken.of_eq rfl rfl rfl rfl rfl (by rw [hwriter]; rfl) htaken.channel
      -- ids in range and hashes for all blocks: marking does not fault
      | markFault offset len fault hnew hrange hlen hmark =>
          exact absurd hmark ((htaken.canRecord hid hnew).markBlock_ne_error _ _)
      | wrote offset len resume hnew hrange hlen hmark =>
          rw [writtenBy_of_some (issues_of_write hchannel hnew hrange hlen)]
          exact htaken.wrote hwriter hid hnew hrange hlen hmark
  | writeFails n block rest s' hwriter hchannel hnew hfail =>
      obtain ⟨hid, htaken⟩ := hrest hchannel
      exact hsilent rfl (htaken.fail hwriter hid hnew hfail)
  | finish save why hwriter htask =>
      obtain rfl : save = .written := he
      refine hsilent rfl ⟨h.wellFormed, h.totalBlocks_eq, h.counted, h.nodup, h.records, h.inFile,
        h.channel, (fun hopen => by cases hopen), fun _ => ?_⟩
      -- a complete transfer removes the resume file, another saves it
      by_cases hcomplete : s.resume.isTransferComplete = true
      · refine Or.inl ⟨by simp [finishTransfer, hcomplete], fun id hid => ?_⟩
        rw [← h.records.isComplete_iff]
        exact h.wellFormed.isTransferComplete_iff.mp hcomplete id (h.totalBlocks_eq ▸ hid)
      · refine Or.inr ⟨s.resume, ?_, h.records⟩
        simp [finishTransfer, hcomplete, SaveOutcome.apply]
  | send block htask hopen hroom =>
      refine hsilent rfl (h.of_eq rfl rfl rfl rfl rfl rfl ?_)
      exact List.forall_mem_append.mpr
        ⟨h.channel, List.forall_mem_singleton.mpr (he block htask)⟩
  | channelEnd hwriter | joinFails save fault hwriter | ioFails hwriter =>
      exact hsilent rfl (h.of_eq rfl rfl rfl rfl rfl (by rw [hwriter]; rfl) h.channel)
  | datagram | recvError | idleTimeout | exitAll | sendFailed =>
      exact hsilent rfl (h.of_eq rfl rfl rfl rfl rfl rfl h.channel)

/-- The write that is under way is that of a block written, and the others are in the file without
it. -/
structure Behind (p : RecvParams) {Q : RaptorQ} (t : Traced Q) (u : Unfinished) : Prop where
  lt : u.blockId < p.totalBlocks
  range : p.writeRange u.blockId = .ok (u.offset, u.chunk.length)
  whole : t.state.recv.file = u.whole
  mem : (u.blockId, u.chunk) ∈ t.written
  others : ∀ x ∈ t.written, x.1 ≠ u.blockId → InFile p u.before x

/-- A write that is handed to the background thread, with the stores in agreement until then. -/
theorem behind_of_issued {s s' : RecvFile C.raptorq} {written : List (ℕ × Bytes)}
    (h : Persisted C p s written) {e : RecvEvent} {id offset landed : ℕ} {chunk : Bytes}
    (hissues : s.issues p e = some (id, offset, chunk))
    (hfile : s'.file = Blocks.patch 0 s.file offset chunk) :
    Behind p ⟨⟨s', Unfinished.rest ⟨id, s.file, offset, chunk, landed, false⟩⟩,
      written ++ writtenBy p s e⟩ ⟨id, s.file, offset, chunk, landed, false⟩ := by
  have hissued : DeferredRecv.Issued p s ⟨id, s.file, offset, chunk, landed, false⟩ :=
    ⟨e, hissues, rfl⟩
  obtain ⟨block, hblock, hid, -, len, hlen, hrange, hchunk⟩ := hissued.exists_block
  have hlength : chunk.length = len := by
    rw [show chunk = block.data.take len from hchunk, List.length_take, min_eq_left hlen]
  rw [writtenBy_of_some hissues]
  refine ⟨hid ▸ h.channel block hblock, hlength ▸ hrange, hfile, by simp, fun x hx hne => ?_⟩
  rcases List.mem_append.mp hx with hold | hlast
  · exact h.inFile x hold
  · exact absurd (congrArg Prod.fst (List.mem_singleton.mp hlast)) hne

/-- **The stores agree in every state reached**, but for the bytes under way. -/
theorem persisted_of_reaches {rng : ℕ → Vector UInt8 4} {now : ℕ} {disk : Disk}
    (hdisk : disk.resume = none) {t : Traced C.raptorq}
    (h : Reaches (Traced.step C p) (Traced.InRange p) (Traced.start C.raptorq p rng now disk) t) :
    Persisted C p t.state.recv t.written ∧
      ∀ u, t.state.unfinished = some u → Behind p t u := by
  refine h.invariant (I := fun t => Persisted C p t.state.recv t.written ∧
      ∀ u, t.state.unfinished = some u → Behind p t u)
    ⟨persisted_start rng now hdisk, fun u hu => by cases hu⟩ fun t e t' hinv he hstep => ?_
  obtain ⟨hstores, hbehind⟩ := hinv
  cases e with
  | deliver block =>
      obtain rfl := Option.some.inj hstep
      refine ⟨hstores.of_eq rfl rfl rfl rfl rfl rfl ?_, fun u hu => ?_⟩
      · exact List.forall_mem_append.mpr ⟨hstores.channel, List.forall_mem_singleton.mpr he⟩
      · exact ⟨(hbehind u hu).lt, (hbehind u hu).range, (hbehind u hu).whole, (hbehind u hu).mem,
          (hbehind u hu).others⟩
  | disk e =>
      obtain ⟨d, hs, rfl⟩ := Option.map_eq_some_iff.mp hstep
      cases DeferredRecv.step_cases hs with
      -- a new write: only now can bytes be outstanding behind the bitmap
      | issued e landed s' id offset chunk hrecv hissues hnone hfile =>
          refine ⟨hstores.recv he hrecv, fun u hu => ?_⟩
          obtain ⟨rfl, -⟩ := Unfinished.rest_eq_some hu
          exact behind_of_issued hstores hissues hfile
      | silent e landed s' hrecv hissues hready hfile =>
          refine ⟨hstores.recv he hrecv, fun u hu => ?_⟩
          show Behind p ⟨⟨s', t.state.unfinished⟩, t.written ++ writtenBy p t.state.recv e⟩ u
          rw [writtenBy_of_none hissues, List.append_nil]
          obtain ⟨hlt, hrange, hwhole, hmem, hothers⟩ := hbehind u hu
          exact ⟨hlt, hrange, (hfile u hu).trans hwhole, hmem, hothers⟩
      | lands n v hv =>
          refine ⟨hstores, fun u hu => ?_⟩
          obtain ⟨rfl, -⟩ := Unfinished.rest_eq_some hu
          obtain ⟨hlt, hrange, hwhole, hmem, hothers⟩ := hbehind v hv
          exact ⟨hlt, hrange, hwhole, hmem, hothers⟩
      -- the error stays with the file until its next operation
      | landFails v hv =>
          refine ⟨hstores, fun u hu => ?_⟩
          obtain rfl := Option.some.inj hu
          obtain ⟨hlt, hrange, hwhole, hmem, hothers⟩ := hbehind v hv
          exact ⟨hlt, hrange, hwhole, hmem, hothers⟩

/-- A transfer that has returned has nothing under way. -/
theorem unfinished_of_finished {rng : ℕ → Vector UInt8 4} {now : ℕ} {disk : Disk}
    {t : Traced C.raptorq}
    (h : Reaches (Traced.step C p) (Traced.InRange p) (Traced.start C.raptorq p rng now disk) t)
    (hdone : t.state.recv.writer.finished = true) : t.state.unfinished = none := by
  refine h.invariant
    (I := fun t => t.state.recv.writer.finished = true → t.state.unfinished = none)
    (fun hdone => by cases hdone) (fun t e t' hinv _ hstep => ?_) hdone
  cases e with
  | deliver block =>
      obtain rfl := Option.some.inj hstep
      exact hinv
  | disk e =>
      obtain ⟨d, hs, rfl⟩ := Option.map_eq_some_iff.mp hstep
      exact DeferredRecv.unfinished_step hinv hs

/-- Of the blocks recorded on disk none is missing there. -/
theorem OnDisk.marks {file : Option ResumeFile} {written : List (ℕ × Bytes)}
    (h : OnDisk C file written) {x : ℕ × Bytes} (hx : x ∈ written) :
    RecvFile.marks file x.1 = true := by
  rcases h with ⟨-, rfl⟩ | ⟨st, rfl, hrecords⟩
  · cases hx
  · exact (hrecords.isComplete_iff x.1).mpr (List.mem_map_of_mem hx)

/-- A state on disk records a part of what was written. -/
theorem Persisted.exists_records {s : RecvFile C.raptorq} {written : List (ℕ × Bytes)}
    (h : Persisted C p s written) {st : ResumeState} (hst : s.resumeFile = some (.saved st)) :
    ∃ old ⊆ written, Records C st old := by
  cases hdone : s.writer.finished with
  | false =>
      obtain ⟨-, old, new, hsplit, -, hdisk⟩ := h.onDisk hdone
      refine ⟨old, by simp [hsplit], ?_⟩
      rcases hdisk with ⟨hnone, -⟩ | ⟨st', hst', hrecords⟩
      · rw [hnone] at hst
        cases hst
      · rw [hst'] at hst
        exact ResumeFile.saved.inj (Option.some.inj hst) ▸ hrecords
  | true =>
      rcases h.ended hdone with ⟨hnone, -⟩ | ⟨st', hst', hrecords⟩
      · rw [hnone] at hst
        cases hst
      · rw [hst'] at hst
        exact ⟨written, fun _ hx => hx, ResumeFile.saved.inj (Option.some.inj hst) ▸ hrecords⟩

/-- The blocks written are in the file, but for the one that is under way. -/
theorem Behind.inFile {t : Traced C.raptorq} {u : Unfinished} (h : Behind p t u)
    {x : ℕ × Bytes} (hx : x ∈ t.written) (hne : x.1 ≠ u.blockId) : InFile p u.file x := by
  obtain ⟨hoffset, hlen⟩ := RecvParams.writeRange_eq_ok h.range
  rw [Unfinished.file, hoffset]
  refine (h.others x hx hne).patch h.lt hne ?_
  rw [List.length_take, hlen]
  exact min_le_right _ _

/-- The block under way is in the file if nothing of it is missing there. -/
theorem Behind.file_eq_whole {t : Traced C.raptorq} {u : Unfinished} (h : Behind p t u)
    (hin : InFile p u.file (u.blockId, u.chunk)) : u.file = u.whole := by
  have hcontent : Blocks.slice u.file u.offset u.chunk.length = u.chunk := by
    rw [(RecvParams.writeRange_eq_ok h.range).1]
    exact hin.content
  calc u.file = Blocks.patch 0 u.file u.offset u.chunk := (Blocks.patch_eq_self hcontent).symm
    _ = u.whole := Blocks.patch_patch_take 0 u.before u.chunk u.offset u.landed

/-- The persisted resume state agrees with the file. What it marks is there with the hash it stores;
up to the return fewer than eight blocks that were written are missing from it; and a transfer that
returns has its blocks in the file, and all of them and no resume file, or one that marks exactly
the blocks written. -/
structure NeverAhead (C : Crates) (p : RecvParams) (t : Traced C.raptorq) : Prop where
  recorded : ∀ st, t.state.recv.resumeFile = some (.saved st) → ∀ id, st.isComplete id = true →
    ∃ chunk, (id, chunk) ∈ t.written ∧ InFile p t.state.onDisk (id, chunk) ∧
      st.blockHashes[id]? = some (some (C.blake3 chunk))
  missing : t.state.recv.writer.finished = false →
    (t.written.filter fun x => !marks t.state.recv.resumeFile x.1).length ≤ 7
  inFile : t.state.recv.writer.finished = true → ∀ x ∈ t.written, InFile p t.state.onDisk x
  returned : t.state.recv.writer.finished = true →
    ((∀ id < p.totalBlocks, id ∈ t.written.map Prod.fst) ∧ t.state.recv.resumeFile = none) ∨
    ∃ st, t.state.recv.resumeFile = some (.saved st) ∧
      ∀ id, st.isComplete id = true ↔ id ∈ t.written.map Prod.fst

/-- **The persisted resume state is ahead of the file exactly by the bytes under way**: it marks a
block of which bytes are missing in the file if it was saved before they reached it. -/
theorem neverAhead_iff {rng : ℕ → Vector UInt8 4} {now : ℕ} {disk : Disk}
    (hdisk : disk.resume = none) {t : Traced C.raptorq}
    (h : Reaches (Traced.step C p) (Traced.InRange p) (Traced.start C.raptorq p rng now disk) t) :
    NeverAhead C p t ↔ t.state.Landed := by
  obtain ⟨hinv, hbehind⟩ := persisted_of_reaches hdisk h
  constructor
  · intro hnever u hu hmarks
    obtain ⟨st, hst, hid⟩ := marks_eq_true.mp hmarks
    obtain ⟨chunk, hmem, hin, -⟩ := hnever.recorded st hst u.blockId hid
    -- the block was written once
    obtain ⟨-, rfl⟩ := Prod.mk.inj
      (List.inj_on_of_nodup_map hinv.nodup hmem (hbehind u hu).mem rfl)
    rw [DeferredRecv.onDisk_of_some hu] at hin
    exact (hbehind u hu).file_eq_whole hin
  · intro hlanded
    refine ⟨fun st hst id hid => ?_, fun hopen => ?_, fun hdone x hx => ?_, fun hdone => ?_⟩
    · obtain ⟨old, hsub, hrecords⟩ := hinv.exists_records hst
      obtain ⟨x, hx, rfl⟩ := List.mem_map.mp ((hrecords.isComplete_iff id).mp hid)
      refine ⟨x.2, hsub hx, ?_, hrecords.hash x hx⟩
      cases hu : t.state.unfinished with
      | none =>
          rw [DeferredRecv.onDisk_of_none hu]
          exact hinv.inFile x (hsub hx)
      | some u =>
          rw [DeferredRecv.onDisk_of_some hu]
          by_cases hsame : x.1 = u.blockId
          · rw [hlanded u hu (hsame ▸ marks_eq_true.mpr ⟨st, hst, hid⟩), ← (hbehind u hu).whole]
            exact hinv.inFile x (hsub hx)
          · exact (hbehind u hu).inFile (hsub hx) hsame
    · obtain ⟨hlt, old, new, hsplit, hlen, hondisk⟩ := hinv.onDisk hopen
      calc (t.written.filter fun x => !marks t.state.recv.resumeFile x.1).length
          = (new.filter fun x => !marks t.state.recv.resumeFile x.1).length := by
            rw [hsplit, List.filter_append, List.filter_eq_nil_iff.mpr ?_, List.nil_append]
            intro x hx
            simp [hondisk.marks hx]
        _ ≤ new.length := List.length_filter_le _ _
        _ ≤ 7 := by omega
    · rw [DeferredRecv.onDisk_of_none (unfinished_of_finished h hdone)]
      exact hinv.inFile x hx
    · rcases hinv.ended hdone with ⟨hnone, hall⟩ | ⟨st, hst, hrecords⟩
      · exact Or.inl ⟨hall, hnone⟩
      · exact Or.inr ⟨st, hst, hrecords.isComplete_iff⟩

end RecvFile

namespace Small

/-- A file of nine blocks of three bytes. -/
def nineBlocks : RecvParams :=
  { params with
    blockSize := 3, fileSize := 27, totalBlocks := 9, blockSize_lt := by decide,
    fileSize_lt := by decide, totalBlocks_lt := by decide }

/-- A decoded block of the file. -/
def decoded (id : ℕ) : ReceivedBlock :=
  { blockId := id, data := [7, 7, 7], packetsReceived := 1, elapsed := 0, decodeStats := ⟨1, 1, 0, 0⟩ }

/-- All blocks are decoded, and seven of them written. -/
def sevenWritten : List RecvFile.TraceEvent :=
  (List.range 9).map (fun id => .deliver (decoded id)) ++
    List.replicate 7 (.disk (.recv (.take .written) 3))

/-- The eighth is written, and `write_all` returns before it has reached the file. -/
def eighthHanded : List RecvFile.TraceEvent := sevenWritten ++ [.disk (.recv (.take .written) 0)]

/-- Its write fails after a byte, which the writer is told when it comes to the ninth. -/
def eighthFails : List RecvFile.TraceEvent :=
  eighthHanded ++ [.disk (.lands 1), .disk .landFails, .disk (.recv (.writeFails 0) 0)]

/-- Its write succeeds. -/
def eighthLands : List RecvFile.TraceEvent := eighthHanded ++ [.disk (.lands 3)]

/-- The events above are in range. -/
def inRange : RecvFile.Traced PlainCrates.plainCrates.raptorq → RecvFile.TraceEvent → Bool
  | _, .deliver block => decide (block.blockId < nineBlocks.totalBlocks)
  | _, .disk (.recv (.take .written) _) | _, .disk (.recv (.writeFails _) _) => true
  | _, .disk (.lands _) | _, .disk .landFails => true
  | _, _ => false

theorem inRange_sound (t : RecvFile.Traced PlainCrates.plainCrates.raptorq)
    (e : RecvFile.TraceEvent) (he : inRange t e = true) :
    RecvFile.Traced.InRange nineBlocks t e := by
  cases e with
  | deliver block => exact of_decide_eq_true (p := block.blockId < nineBlocks.totalBlocks) he
  | disk e =>
      cases e with
      | recv e landed =>
          cases e with
          | take save => cases save <;> first | rfl | cases he
          | writeFails n => trivial
          | _ => cases he
      | lands | landFails => trivial

/-- The eighth block reaches the file, and the saved state agrees with it. -/
theorem neverAhead_iff_nine :
    ∃ t, Reaches (RecvFile.Traced.step PlainCrates.plainCrates nineBlocks)
        (RecvFile.Traced.InRange nineBlocks)
        (RecvFile.Traced.start _ nineBlocks rng 0 ⟨none, none⟩) t ∧
      RecvFile.marks t.state.recv.resumeFile 7 = true ∧
      RecvFile.NeverAhead PlainCrates.plainCrates nineBlocks t := by
  obtain ⟨t, ht, hcheck⟩ := exists_of_runAll
    (guarded inRange (RecvFile.Traced.step PlainCrates.plainCrates nineBlocks))
    (RecvFile.Traced.start _ nineBlocks rng 0 ⟨none, none⟩) eighthLands
    (fun t => RecvFile.marks t.state.recv.resumeFile 7 && t.state.unfinished.isNone)
    (by decide +kernel)
  rw [Bool.and_eq_true] at hcheck
  have hreach := Reaches.of_guarded inRange inRange_sound ht
  refine ⟨t, hreach, hcheck.1, (RecvFile.neverAhead_iff rfl hreach).mpr fun u hu => ?_⟩
  rw [hu] at hcheck
  cases hcheck.2

/-- The writer returns the error of the eighth block, which the saved state marks. -/
theorem not_neverAhead_nine :
    ¬ ∀ t, Reaches (RecvFile.Traced.step PlainCrates.plainCrates nineBlocks)
        (RecvFile.Traced.InRange nineBlocks)
        (RecvFile.Traced.start _ nineBlocks rng 0 ⟨none, none⟩) t →
      RecvFile.NeverAhead PlainCrates.plainCrates nineBlocks t := by
  intro hall
  obtain ⟨t, ht, hcheck⟩ := exists_of_runAll
    (guarded inRange (RecvFile.Traced.step PlainCrates.plainCrates nineBlocks))
    (RecvFile.Traced.start _ nineBlocks rng 0 ⟨none, none⟩) eighthFails
    (fun t => RecvFile.marks t.state.recv.resumeFile 7 && t.written.all fun x =>
      decide (x.1 = 7 → Blocks.slice t.state.onDisk 21 x.2.length ≠ x.2))
    (by decide +kernel)
  rw [Bool.and_eq_true, List.all_eq_true] at hcheck
  obtain ⟨hmarks, hmissing⟩ := hcheck
  obtain ⟨st, hst, hid⟩ := RecvFile.marks_eq_true.mp hmarks
  obtain ⟨chunk, hmem, hin, -⟩ :=
    (hall t (Reaches.of_guarded inRange inRange_sound ht)).recorded st hst 7 hid
  exact of_decide_eq_true (hmissing _ hmem) rfl hin.content

end Small

end Updown
