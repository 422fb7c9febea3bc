import Updown.Engine.History
import Updown.Engine.Persistence

set_option autoImplicit false

/-! # What restarts cost

The writer saves the resume state with every eighth block and when the transfer ends, and ignores a
save that fails. A transfer may be stopped anywhere and started again, any number of times. A
`Ledger` counts along a history of the path what was written to the output file and what went wrong;
`restarts_cost_le` bounds the one by the other: a transfer that is stopped and a save that fails
cost eight blocks at most, and only a torn resume file, or the end of a complete transfer, starts
over from nothing.
-/

namespace Updown

open Transition

namespace ResumeState

/-- How many blocks a transfer with these numbers finds marked. -/
def found (file : Option ResumeFile) (fileSize blockSize totalBlocks : ℕ) : ℕ :=
  ((load file fileSize blockSize totalBlocks).1.map completedCount).getD 0

variable {file : Option ResumeFile} {fileSize blockSize totalBlocks : ℕ}

@[simp] theorem found_none : found none fileSize blockSize totalBlocks = 0 := rfl

@[simp] theorem found_corrupt : found (some .corrupt) fileSize blockSize totalBlocks = 0 := rfl

theorem found_saved (st : ResumeState) :
    found (some (.saved st)) st.fileSize st.blockSize st.totalBlocks = st.completedCount := by
  simp [found, load]

/-- What does not match is removed, and nothing was found in it. -/
theorem found_load :
    found (load file fileSize blockSize totalBlocks).2 fileSize blockSize totalBlocks
      = found file fileSize blockSize totalBlocks := by
  cases file with
  | none => rfl
  | some content =>
      cases content with
      | corrupt => rfl
      | saved st =>
          simp only [load]
          split
          · next hother => simp [found, load, hother]
          · rfl

theorem found_le (h : ∀ st, file = some (.saved st) → st.WellFormed) :
    found file fileSize blockSize totalBlocks ≤ totalBlocks := by
  unfold found
  cases hload : (load file fileSize blockSize totalBlocks).1 with
  | none => exact Nat.zero_le _
  | some st =>
      obtain ⟨hfile, -, -, htotal⟩ := load_eq_some hload
      exact htotal ▸ (h st hfile).completedCount_le

end ResumeState

namespace RecvEvent

/-- A save that fails. -/
def fails : RecvEvent → Bool
  | .take .failed | .finish .failed => true
  | _ => false

/-- A save that leaves a torn file. -/
def tears : RecvEvent → Bool
  | .take .torn | .finish .torn => true
  | _ => false

/-- What a step may cost in blocks, of a transfer of `n` blocks. -/
def cost (n : ℕ) (e : RecvEvent) : ℕ := 8 * e.fails.toNat + n * e.tears.toNat

theorem sum_cost (n : ℕ) (es : List RecvEvent) :
    (es.map (cost n)).sum = 8 * es.countP fails + n * es.countP tears := by
  induction es with
  | nil => rfl
  | cons e es ih =>
      rw [List.map_cons, List.sum_cons, ih, cost, List.countP_cons, List.countP_cons]
      cases e.fails <;> cases e.tears <;> simp <;> ring

end RecvEvent

/-- The writes that may have been made and not been counted: one, if the writer has broken off. -/
def WriterTask.brokeOff : WriterTask → ℕ
  | .failed _ | .panicked _ => 1
  | _ => 0

theorem WriterTask.brokeOff_le (w : WriterTask) : w.brokeOff ≤ 1 := by
  cases w <;> simp [brokeOff]

theorem WriterTask.brokeOff_of_open {w : WriterTask} (h : w.channelOpen = true) :
    w.brokeOff = 0 := by
  cases w with
  | looping | awaiting => rfl
  | done | failed | panicked => cases h

namespace RecvFile

variable {C : Crates} {p : RecvParams}

section

variable {Q : RaptorQ}

/-- How many blocks the next transfer would find marked. -/
def found (p : RecvParams) (s : RecvFile Q) : ℕ :=
  ResumeState.found s.resumeFile p.fileSize p.blockSize p.totalBlocks

/-- How many blocks were written that are neither in the resume file nor waiting for the next save.
The end of a complete transfer removes the resume file. -/
def overdue (p : RecvParams) (s : RecvFile Q) : ℕ :=
  if s.writer.finished then
    if s.resume.isTransferComplete then 0 else s.blocksWritten - s.found p
  else s.blocksWritten - (s.found p + s.blocksSinceSave)

theorem found_start (rng : ℕ → Vector UInt8 4) (now : ℕ) (disk : Disk) :
    (start Q p rng now disk).found p
      = ResumeState.found disk.resume p.fileSize p.blockSize p.totalBlocks :=
  ResumeState.found_load

/-- A transfer starts to count at the blocks it finds. -/
theorem blocksWritten_start (rng : ℕ → Vector UInt8 4) (now : ℕ) (disk : Disk) :
    (start Q p rng now disk).blocksWritten
      = ResumeState.found disk.resume p.fileSize p.blockSize p.totalBlocks := by
  simp only [start, ResumeState.found]
  cases (ResumeState.load disk.resume p.fileSize p.blockSize p.totalBlocks).1 with
  | none => exact ResumeState.completedCount_new _ _ _ _
  | some st => rfl

/-- A state that is saved is found again. -/
theorem Recorded.found_saved {s : RecvFile Q} (h : s.Recorded p) :
    ResumeState.found (some (.saved s.resume)) p.fileSize p.blockSize p.totalBlocks
      = s.blocksWritten := by
  rw [← h.fileSize_eq, ← h.blockSize_eq, ← h.totalBlocks_eq, ResumeState.found_saved,
    h.blocksWritten_eq]

theorem Recorded.blocksWritten_le {s : RecvFile Q} (h : s.Recorded p) :
    s.blocksWritten ≤ p.totalBlocks := by
  rw [h.blocksWritten_eq, ← h.totalBlocks_eq]
  exact h.wellFormed.completedCount_le

theorem overdue_of_open {s : RecvFile Q} (h : s.writer.finished = false) :
    s.overdue p = s.blocksWritten - (s.found p + s.blocksSinceSave) := by
  simp [overdue, h]

theorem overdue_start (rng : ℕ → Vector UInt8 4) (now : ℕ) (disk : Disk) :
    (start Q p rng now disk).overdue p = 0 := by
  rw [overdue_of_open rfl, blocksWritten_start, found_start]
  omega

/-- As long as the stores stay, so does what is overdue. -/
theorem overdue_of_eq {s s' : RecvFile Q} (hwriter : s.writer.finished = false)
    (hwriter' : s'.writer.finished = false) (hfile : s'.resumeFile = s.resumeFile)
    (hwritten : s'.blocksWritten = s.blocksWritten)
    (hcount : s'.blocksSinceSave = s.blocksSinceSave) : s'.overdue p = s.overdue p := by
  rw [overdue_of_open hwriter, overdue_of_open hwriter', found, found, hfile, hwritten, hcount]

end

/-! ## One step -/

/-- Every eighth block a save is due. -/
theorem blocksSinceSave_recordBlock_lt {Q : RaptorQ} (save : SaveOutcome) (s : RecvFile Q)
    (block : ReceivedBlock) (resume : ResumeState) :
    (s.recordBlock p save block resume).blocksSinceSave < 8 := by
  by_cases hsave : 8 ≤ s.blocksSinceSave + 1
  · rw [(recordBlock_saved save block resume hsave).1]
    exact Nat.zero_lt_succ 7
  · rw [(recordBlock_unsaved save block resume hsave).1]
    omega

/-- **Recording a block**: the eighth is saved with the others, if the save succeeds. -/
theorem overdue_recordBlock {Q : RaptorQ} (save : SaveOutcome) {s : RecvFile Q}
    {block : ReceivedBlock} {resume : ResumeState} (hwriter : s.writer.finished = false)
    (hsince : s.blocksSinceSave < 8) (hrec : (s.recordBlock p save block resume).Recorded p) :
    (s.recordBlock p save block resume).overdue p
      ≤ s.overdue p + (RecvEvent.take save).cost p.totalBlocks := by
  have hle := hrec.blocksWritten_le
  have hsaved := hrec.found_saved
  rw [overdue_of_open (finished_recordBlock save s block resume), overdue_of_open hwriter, found]
  rw [recordBlock_blocksWritten] at hle hsaved ⊢
  by_cases hsave : 8 ≤ s.blocksSinceSave + 1
  · obtain ⟨hcount, hfile⟩ := recordBlock_saved (p := p) save block resume hsave
    rw [hcount, hfile]
    cases save with
    | written =>
        rw [SaveOutcome.apply]
        rw [recordBlock_resume] at hsaved
        rw [hsaved]
        omega
    | failed =>
        simp only [SaveOutcome.apply, RecvEvent.cost, RecvEvent.fails, Bool.toNat_true, found]
        omega
    | torn =>
        simp only [SaveOutcome.apply, RecvEvent.cost, RecvEvent.tears, Bool.toNat_true]
        omega
  · obtain ⟨hcount, hfile⟩ := recordBlock_unsaved (p := p) save block resume hsave
    rw [hcount, hfile, found]
    omega

/-- **The end of a transfer** saves all that is left, if the save succeeds. -/
theorem overdue_finishTransfer (save : SaveOutcome) {s : RecvFile C.raptorq}
    (hwriter : s.writer.finished = false) (hsince : s.blocksSinceSave < 8)
    (hrec : s.Recorded p) :
    (s.finishTransfer C save).overdue p
      ≤ s.overdue p + (RecvEvent.finish save).cost p.totalBlocks := by
  have hle := hrec.blocksWritten_le
  have hsaved := hrec.found_saved
  rw [overdue_of_open hwriter, overdue]
  simp only [finishTransfer, WriterTask.finished, if_true]
  split
  · exact Nat.zero_le _
  · cases save with
    | written =>
        simp only [found, SaveOutcome.apply, *]
        omega
    | failed =>
        simp only [found, SaveOutcome.apply, RecvEvent.cost, RecvEvent.fails, Bool.toNat_true, *]
        omega
    | torn =>
        simp only [found, SaveOutcome.apply, RecvEvent.cost, RecvEvent.tears, Bool.toNat_true, *]
        omega

/-- **A step costs what its save costs.** -/
theorem overdue_step {s s' : RecvFile C.raptorq} {e : RecvEvent} (hsince : s.blocksSinceSave < 8)
    (hrec : s.Recorded p) (hrec' : s'.Recorded p) (hstep : RecvFile.step C p s e = some s') :
    s'.overdue p ≤ s.overdue p + e.cost p.totalBlocks := by
  have hsame : ∀ t : RecvFile C.raptorq, t.overdue p = s.overdue p →
      t.overdue p ≤ s.overdue p + e.cost p.totalBlocks :=
    fun t h => h.le.trans (Nat.le_add_right _ _)
  cases step_cases hstep with
  | take save block rest s' hwriter hchannel htake =>
      have hlooping : s.writer.finished = false := by rw [hwriter]; rfl
      cases htake with
      | skipped => exact hsame _ rfl
      | rangeFault | sliceFault | markFault =>
          exact hsame _ (overdue_of_eq hlooping rfl rfl rfl rfl)
      | wrote offset len resume =>
          exact @overdue_recordBlock p _ save
            (({ s with channel := rest } : RecvFile C.raptorq).write offset (block.data.take len))
            block resume hlooping hsince hrec'
  | writeFails n block rest s' hwriter hchannel hnew hfail =>
      have hlooping : s.writer.finished = false := by rw [hwriter]; rfl
      cases hfail with
      | rangeFault | sliceFault | partly => exact hsame _ (overdue_of_eq hlooping rfl rfl rfl rfl)
  | finish save why hwriter htask =>
      exact overdue_finishTransfer save (by rw [hwriter]; rfl) hsince hrec
  | channelEnd hwriter | joinFails save fault hwriter | ioFails hwriter =>
      exact hsame _ (overdue_of_eq (by rw [hwriter]; rfl) rfl rfl rfl rfl)
  | _ => exact hsame _ rfl

/-- The writer's counts: a save is due with every eighth block, and every write to the file is that
of a block that is counted but the one at which the writer broke off. -/
structure Tallied {Q : RaptorQ} (loaded : ℕ) (s : RecvFile Q) : Prop where
  since_lt : s.blocksSinceSave < 8
  writes_le : s.log.writes.length + loaded ≤ s.blocksWritten + s.writer.brokeOff

/-- The writer breaks off, after one more write at most. -/
theorem Tallied.breakOff {Q : RaptorQ} {loaded : ℕ} {s s' : RecvFile Q} (h : s.Tallied loaded)
    (hopen : s.writer.channelOpen = true) (hbroke : s'.writer.brokeOff = 1)
    (hcount : s'.blocksSinceSave = s.blocksSinceSave)
    (hwritten : s'.blocksWritten = s.blocksWritten)
    (hwrites : s'.log.writes.length ≤ s.log.writes.length + 1) : s'.Tallied loaded where
  since_lt := hcount ▸ h.since_lt
  writes_le := by
    have hold := h.writes_le
    rw [WriterTask.brokeOff_of_open hopen] at hold
    rw [hwritten, hbroke]
    omega

theorem Tallied.step {s s' : RecvFile C.raptorq} {e : RecvEvent} {loaded : ℕ}
    (h : s.Tallied loaded) (hstep : RecvFile.step C p s e = some s') : s'.Tallied loaded := by
  have ⟨hsince, hwrites⟩ := h
  cases step_cases hstep with
  | take save block rest s' hwriter hchannel htake =>
      have hopen : s.writer.channelOpen = true := by rw [hwriter]; rfl
      cases htake with
      | skipped => exact ⟨hsince, hwrites⟩
      | rangeFault | sliceFault => exact h.breakOff hopen rfl rfl rfl (Nat.le_succ _)
      | markFault => exact h.breakOff hopen rfl rfl rfl (by simp [write])
      | wrote =>
          rw [WriterTask.brokeOff_of_open hopen] at hwrites
          refine ⟨blocksSinceSave_recordBlock_lt save _ block _, ?_⟩
          simp only [recordBlock, write, List.length_append, List.length_singleton]
          omega
  | writeFails n block rest s' hwriter hchannel hnew hfail =>
      have hopen : s.writer.channelOpen = true := by rw [hwriter]; rfl
      cases hfail with
      | rangeFault | sliceFault => exact h.breakOff hopen rfl rfl rfl (Nat.le_succ _)
      | partly => exact h.breakOff hopen rfl rfl rfl (by simp [write])
  | channelEnd hwriter | finish save why hwriter =>
      rw [hwriter] at hwrites
      exact ⟨hsince, hwrites⟩
  | joinFails save fault hwriter | ioFails hwriter =>
      exact h.breakOff (by rw [hwriter]; rfl) rfl rfl rfl (Nat.le_succ _)
  | _ => exact ⟨hsince, hwrites⟩

theorem tallied_of_reaches {rng : ℕ → Vector UInt8 4} {now : ℕ} {disk : Disk}
    {P : RecvFile C.raptorq → RecvEvent → Prop} {s : RecvFile C.raptorq}
    (h : Reaches (RecvFile.step C p) P (start C.raptorq p rng now disk) s) :
    s.Tallied (ResumeState.found disk.resume p.fileSize p.blockSize p.totalBlocks) :=
  h.invariant
    ⟨Nat.zero_lt_succ 7, by simp [← blocksWritten_start (Q := C.raptorq) rng now disk, start]⟩
    fun _ _ _ hu _ hs => hu.step hs

/-! ## One transfer -/

/-- `receive_file` has not returned a result. -/
def stopped {Q : RaptorQ} (s : RecvFile Q) : Bool := !s.writer.finished

/-- `receive_file` has returned with all blocks marked. -/
def completed {Q : RaptorQ} (s : RecvFile Q) : Bool :=
  s.writer.finished && s.resume.isTransferComplete

/-- What was written is found again but for what is overdue, the blocks since the last save if the
transfer is stopped, and all of it once it is complete. -/
theorem blocksWritten_le_found {Q : RaptorQ} {s : RecvFile Q} (hrec : s.Recorded p)
    (hsince : s.blocksSinceSave < 8) : s.blocksWritten + s.writer.brokeOff
      ≤ s.found p + s.overdue p + p.totalBlocks * s.completed.toNat + 8 * s.stopped.toNat := by
  have hle := hrec.blocksWritten_le
  cases hdone : s.writer.finished with
  | false =>
      have hbroke := s.writer.brokeOff_le
      rw [overdue_of_open hdone]
      simp only [stopped, completed, hdone, Bool.not_false, Bool.false_and, Bool.toNat_true,
        Bool.toNat_false]
      omega
  | true =>
      obtain ⟨result, hresult⟩ := WriterTask.exists_of_finished hdone
      have hbroke : s.writer.brokeOff = 0 := by rw [hresult]; rfl
      simp only [overdue, stopped, completed, hdone, if_true, Bool.true_and, Bool.not_true,
        Bool.toNat_false]
      cases hcomplete : s.resume.isTransferComplete with
      | false =>
          simp only [Bool.false_eq_true, if_false, Bool.toNat_false]
          omega
      | true =>
          simp only [Bool.toNat_true]
          omega

end RecvFile

namespace OutputPath

variable {C : Crates} {b n : ℕ} {o : OutputPath} {t : PathTransfer}

/-- How many blocks a transfer of `n` bytes in blocks of `b` finds marked. -/
def found (b n : ℕ) (o : OutputPath) : ℕ :=
  ResumeState.found o.disk.resume n b (Blocks.count n b)

/-- What opens is of a block of the transfer. -/
theorem arrivals_inRange (hC : C.Correct) (hmatch : t.params.Matches t.engine t.file)
    (u : RecvFile C.raptorq) (ev : RecvEvent) (h : Network C t.params (t.sent C) u ev) :
    RecvFile.Arrivals C t.params (fun id _ => id < t.params.totalBlocks) u ev :=
  fun now data he id plain hopen =>
    (sent_of_network hC hmatch.announced u ev h now data he id plain hopen).2.1

/-- **What a transfer costs**, stopped anywhere and under any network. -/
theorem writes_le_of_run (hC : C.Correct) (hb : 1 ≤ b) (hsound : o.disk.Sound)
    (hvalid : t.Valid C b n o.disk) {d : DeferredRecv C.raptorq}
    (hdeferred : t.run C o.disk = some d) :
    d.disk.Sound ∧ d.recv.log.writes.length + o.found b n
      ≤ (OutputPath.mk d.disk t.file.bytes).found b n
        + Blocks.count n b * (d.recv.completed.toNat + t.recvEvents.countP RecvEvent.tears)
        + 8 * (d.recv.stopped.toNat + t.recvEvents.countP RecvEvent.fails) := by
  obtain ⟨hmatch, rfl, rfl, hnet⟩ := hvalid
  have hfits := hmatch.announced.fits hb
  have hP := arrivals_inRange hC hmatch
  -- where its writes are does not matter here
  obtain ⟨hrun, hnet⟩ := DeferredRecv.runAll_recv hdeferred hnet
  have hreach : Reaches (RecvFile.step C t.params) _ (t.start C o.disk).recv d.recv :=
    Reaches.of_runAll hrun hnet
  have hrec : ∀ {u : RecvFile C.raptorq},
      Reaches (RecvFile.step C t.params) (Network C t.params (t.sent C))
        (t.start C o.disk).recv u →
      u.Recorded t.params := fun hu =>
    RecvFile.recorded_of_reaches hfits (fun _ _ hid => hid) hsound hP hu
  have hbudget := le_add_weights_of_runAll (RecvFile.overdue t.params)
    (RecvEvent.cost t.params.totalBlocks) (fun u e u' hu he hs => RecvFile.overdue_step
      (RecvFile.tallied_of_reaches hu).since_lt (hrec hu) (hrec (hu.snoc he hs)) hs) hrun hnet
  rw [RecvFile.overdue_start, RecvEvent.sum_cost] at hbudget
  obtain ⟨hsince, hwrites⟩ := RecvFile.tallied_of_reaches hreach
  have hfound := RecvFile.blocksWritten_le_found (hrec hreach) hsince
  refine ⟨RecvFile.sound_of_reaches hfits (fun _ _ hid => hid) hsound hP hreach, ?_⟩
  have hbefore : ResumeState.found o.disk.resume t.params.fileSize t.params.blockSize
      t.params.totalBlocks = o.found t.engine.blockSize t.file.bytes.length := by
    rw [found, hmatch.fileSize_eq, hmatch.blockSize_eq, hmatch.totalBlocks_eq]
  have hafter : d.recv.found t.params
      = (OutputPath.mk d.disk t.file.bytes).found t.engine.blockSize t.file.bytes.length := by
    rw [RecvFile.found, found, hmatch.fileSize_eq, hmatch.blockSize_eq, hmatch.totalBlocks_eq]
    rfl
  rw [hbefore] at hwrites
  rw [hafter, hmatch.totalBlocks_eq] at hfound
  rw [hmatch.totalBlocks_eq] at hbudget
  rw [PathTransfer.recvEvents, Nat.mul_add, Nat.mul_add]
  omega

end OutputPath

/-! ## Any number of transfers -/

/-- A path, and what has happened there so far. No step depends on the counts. -/
structure Ledger where
  path : OutputPath
  /-- Writes to the output file, one that broke off included. -/
  writes : ℕ
  /-- Transfers that returned no result. -/
  stopped : ℕ
  /-- Transfers that returned with all blocks marked. -/
  completed : ℕ
  failedSaves : ℕ
  tornSaves : ℕ

namespace Ledger

variable {C : Crates} {b n : ℕ} {o₀ : OutputPath} {l l' : Ledger}

def start (o : OutputPath) : Ledger :=
  { path := o, writes := 0, stopped := 0, completed := 0, failedSaves := 0, tornSaves := 0 }

/-- The path once the transfer has run, and the counts with its own. -/
def enter {Q : RaptorQ} (l : Ledger) (t : PathTransfer) (d : DeferredRecv Q) : Ledger :=
  { path := ⟨d.disk, t.file.bytes⟩
    writes := l.writes + d.recv.log.writes.length
    stopped := l.stopped + d.recv.stopped.toNat
    completed := l.completed + d.recv.completed.toNat
    failedSaves := l.failedSaves + t.recvEvents.countP RecvEvent.fails
    tornSaves := l.tornSaves + t.recvEvents.countP RecvEvent.tears }

def step (C : Crates) (l : Ledger) : PathEvent → Option Ledger
  | .edit out => some { l with path := { l.path with disk := { l.path.disk with out := out } } }
  | .transfer t => (t.run C l.path.disk).map (l.enter t)

/-- A ledger follows the path. -/
theorem map_path_step (l : Ledger) (e : PathEvent) :
    (l.step C e).map Ledger.path = l.path.step C e := by
  cases e with
  | edit out => rfl
  | transfer t =>
      rw [step, OutputPath.step, Option.map_map]
      rfl

/-- Of every history of a path a ledger can be kept. -/
theorem exists_of_reaches {P : OutputPath → PathEvent → Prop} {o : OutputPath}
    (h : Reaches (OutputPath.step C) P o₀ o) :
    ∃ l, Reaches (step C) (fun l e => P l.path e) (start o₀) l ∧ l.path = o := by
  induction h with
  | refl => exact ⟨start o₀, Reaches.refl _, rfl⟩
  | tail _ hm ih =>
      obtain ⟨e, he, hs⟩ := hm
      obtain ⟨l, hreach, rfl⟩ := ih
      rw [← map_path_step] at hs
      obtain ⟨l', hl', rfl⟩ := Option.map_eq_some_iff.mp hs
      exact ⟨l', hreach.snoc he hl', rfl⟩

/-- The books balance: what was written is found again, but for what the counts account for. -/
structure Balanced (b n : ℕ) (o₀ : OutputPath) (l : Ledger) : Prop where
  sound : l.path.disk.Sound
  writes_le : l.writes + o₀.found b n ≤ l.path.found b n
    + Blocks.count n b * (l.completed + l.tornSaves) + 8 * (l.stopped + l.failedSaves)

theorem Balanced.step (hC : C.Correct) (hb : 1 ≤ b) (h : Balanced b n o₀ l) {e : PathEvent}
    (hallowed : l.path.Allowed C b n e) (hstep : l.step C e = some l') : Balanced b n o₀ l' := by
  cases e with
  | edit out =>
      obtain rfl := Option.some.inj hstep
      exact ⟨h.sound, h.writes_le⟩
  | transfer t =>
      obtain ⟨d, hrun, rfl⟩ := Option.map_eq_some_iff.mp hstep
      obtain ⟨hsound, hwrites⟩ := OutputPath.writes_le_of_run hC hb h.sound hallowed hrun
      refine ⟨hsound, ?_⟩
      have hbefore := h.writes_le
      simp only [enter, Nat.mul_add] at hbefore hwrites ⊢
      omega

/-- **A crash costs at most eight blocks.** Take any history of a path: transfers of files of `n`
bytes in blocks of `b`, each under any network and stopped at any point, with edits of the output
file in between. A block is written once, but for at most eight blocks for each transfer that
returned no result and for each save that failed, and all blocks for each transfer that ended
complete, which removes the resume file, and for each torn save. -/
theorem restarts_cost_le (hC : C.Correct) (hb : 1 ≤ b) (hsound : o₀.disk.Sound)
    (hist : Reaches (step C) (fun l e => l.path.Allowed C b n e) (start o₀) l) :
    l.writes + o₀.found b n ≤ l.path.found b n
        + Blocks.count n b * (l.completed + l.tornSaves) + 8 * (l.stopped + l.failedSaves) ∧
      l.path.found b n ≤ Blocks.count n b := by
  have hbalanced : Balanced b n o₀ l :=
    hist.invariant ⟨hsound, by simp [start]⟩ fun _ _ _ hl he hs => hl.step hC hb he hs
  exact ⟨hbalanced.writes_le, ResumeState.found_le hbalanced.sound⟩

end Ledger

namespace Small

/-- The first block is written, and the transfer is stopped. -/
def crashed : PathTransfer :=
  { interrupted with events := prompt [.datagram clock (sent.getD 0 []), .send, .take .written] }

/-- Both blocks are written, and the transfer ends. -/
def startedAgain : PathTransfer :=
  { interrupted with
    events := prompt [.datagram clock (sent.getD 0 []), .send, .take .written,
      .datagram clock (sent.getD 1 []), .send, .take .written, .exitAll, .finish .written] }

theorem crashed_valid (disk : Disk) : crashed.Valid PlainCrates.plainCrates 4 5 disk where
  matches_engine := matches_file
  blockSize_eq := rfl
  length_eq := rfl
  network := allowedAlong_prompt (fun data => decide (data ∈ sent)) _ (by decide +kernel)
    (fun _ _ h now data he => Or.inl (of_decide_eq_true (h now data he))) _

theorem startedAgain_valid (disk : Disk) :
    startedAgain.Valid PlainCrates.plainCrates 4 5 disk where
  matches_engine := matches_file
  blockSize_eq := rfl
  length_eq := rfl
  network := allowedAlong_prompt (fun data => decide (data ∈ sent)) _ (by decide +kernel)
    (fun _ _ h now data he => Or.inl (of_decide_eq_true (h now data he))) _

/-- The first of two blocks is written twice. -/
theorem restarts_cost_le_small : ∃ l : Ledger, l.writes = 3 ∧ l.stopped = 1 ∧
    (l.writes + 0 ≤ l.path.found 4 5 + 2 * (l.completed + l.tornSaves)
      + 8 * (l.stopped + l.failedSaves) ∧ l.path.found 4 5 ≤ 2) := by
  obtain ⟨l, hrun, hcheck⟩ := exists_of_runAll (Ledger.step PlainCrates.plainCrates)
    (.start ⟨⟨none, none⟩, []⟩) [.transfer crashed, .transfer startedAgain]
    (fun l => decide (l.writes = 3) && decide (l.stopped = 1)) (by decide +kernel)
  rw [Bool.and_eq_true, decide_eq_true_iff, decide_eq_true_iff] at hcheck
  have hsound : (⟨none, none⟩ : Disk).Sound := fun st hst => by cases hst
  have hist : Reaches (Ledger.step PlainCrates.plainCrates)
      (fun l e => l.path.Allowed PlainCrates.plainCrates 4 5 e) (.start ⟨⟨none, none⟩, []⟩) l :=
    Reaches.of_runAll hrun
      ⟨crashed_valid _, fun l' _ => ⟨startedAgain_valid _, fun _ _ => trivial⟩⟩
  exact ⟨l, hcheck.1, hcheck.2,
    Ledger.restarts_cost_le PlainCrates.plainCrates_correct (by decide) hsound hist⟩

end Small

end Updown
