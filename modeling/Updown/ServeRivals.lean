import Updown.Engine.RecvContent
import Updown.Lib.Versions
import Updown.ServeTasks

set_option autoImplicit false

/-! # Transfers with one output file

Transfers with different names have different files, unless one is named like the resume file of
another. Transfers with one name are versions of one file (`Updown.Lib.Versions`), and their resume
files are one, too: a block one of them has written may be marked for the other. `Output` says what
the file of one name holds as long as no transfer of that name has failed, `Inv` adds what each of
its transfers knows of its own, and `Inv.advance` what a step has to show.
-/

namespace Updown

open FilePath Transition

/-! ## Transfers of one name -/

section

variable {ι : Type}

/-- The transfers with the name of transfer `i`, which is one of them. -/
abbrev Rivals (t : ι → Served) (i : ι) : Type := { j : ι // (t j).filename = (t i).filename }

/-- The sources of one name. -/
def versions (t : ι → Served) (i : ι) (j : Rivals t i) : Bytes := (t j).file.bytes

/-- The block sizes they are sent in. -/
def blockSizes (t : ι → Served) (i : ι) (j : Rivals t i) : ℕ := (t j).engine.blockSize

/-- The others keep out of the way of transfer `i`: its name is not that of another's resume file,
nor the other way; and the sources of its name, sent raw and in numbers that fit, differ in one
block at most. -/
structure Apart (C : Crates) (t : ι → Served) (i : ι) : Prop where
  names : ∀ j, (t i).filename.toList ≠ (t j).filename.toList ++ RESUME_SUFFIX ∧
    (t j).filename.toList ≠ (t i).filename.toList ++ RESUME_SUFFIX
  mergeable : Versions.Mergeable (versions t i) (blockSizes t i)
  blockSize_lt : ∀ j : Rivals t i, (t j).engine.blockSize < 2 ^ 32
  count_lt : ∀ j : Rivals t i,
    Blocks.count (t j).file.bytes.length (t j).engine.blockSize < 2 ^ 32
  sendsRaw : ∀ j : Rivals t i, (t j).engine.SendsRaw C (t j).file.bytes

variable {C : Crates} {d : OutputDir} {t : ι → Served} {i : ι}

namespace Served

variable {a b : Served}

theorem out_eq_iff (ha : a.Accepted C) (hb : b.Accepted C) :
    a.out d = b.out d ↔ a.filename = b.filename := by
  rw [out, out, resolve_outputPath _ _ ha.isName, resolve_outputPath _ _ hb.isName]
  simp [String.toList_inj]

theorem resumeAt_eq_iff (ha : a.Accepted C) (hb : b.Accepted C) :
    a.resumeAt d = b.resumeAt d ↔ a.filename = b.filename := by
  rw [resumeAt, resumeAt, resolve_resumePath _ _ ha.isName, resolve_resumePath _ _ hb.isName]
  simp [String.toList_inj]

theorem out_ne_resumeAt (ha : a.Accepted C) (hb : b.Accepted C)
    (h : a.filename.toList ≠ b.filename.toList ++ RESUME_SUFFIX) : a.out d ≠ b.resumeAt d := by
  rw [out, resumeAt, resolve_outputPath _ _ ha.isName, resolve_resumePath _ _ hb.isName]
  simpa using h

theorem Accepted.blockSize_pos (ha : a.Accepted C) : 1 ≤ a.engine.blockSize := by
  obtain ⟨sessionId, sharedKey, rateMbps, req, hreq, -⟩ := ha.negotiated
  unfold negotiateRequest at hreq
  cases hT : countBlocks a.file.bytes.length a.engine.blockSize with
  | error fault =>
      rw [hT] at hreq
      cases hreq
  | ok T => exact (countBlocks_ok hT).1

end Served

/-- Rivals have the same files. -/
theorem Rivals.out_eq (j : Rivals t i) : (t j).out d = (t i).out d := by
  rw [Served.out, Served.out, j.2]

theorem Rivals.resumeAt_eq (j : Rivals t i) : (t j).resumeAt d = (t i).resumeAt d := by
  rw [Served.resumeAt, Served.resumeAt, j.2]

theorem Apart.matches (hapart : Apart C t i) (ht : ∀ i, (t i).Accepted C) (j : Rivals t i) :
    (t j).params.Matches (t j).engine (t j).file := by
  obtain ⟨sessionId, sharedKey, rateMbps, req, hreq, hp⟩ := (ht j).negotiated
  exact matches_of_negotiated (hapart.blockSize_lt j) (hapart.count_lt j) hreq hp

theorem Apart.for (hapart : Apart C t i) (ht : ∀ i, (t i).Accepted C) (j : Rivals t i) :
    (t j).params.For (t j).file.bytes :=
  (hapart.matches ht j).for (ht j).blockSize_pos

end

/-! ## Resume states -/

/-- A resume state has the numbers of the transfer. -/
structure ResumeState.IsFor (st : ResumeState) (p : RecvParams) : Prop where
  fileSize_eq : st.fileSize = p.fileSize
  blockSize_eq : st.blockSize = p.blockSize
  totalBlocks_eq : st.totalBlocks = p.totalBlocks

/-- The resume state a task has in memory. -/
def ReceivePhase.record {Q : RaptorQ} : ReceivePhase Q → Option ResumeState
  | .loading => none
  | .opening loaded => loaded
  | .receiving _ s _ => some s.resume

/-- The task has opened its output file. -/
def ReceivePhase.opened {Q : RaptorQ} : ReceivePhase Q → Bool
  | .receiving _ _ _ => true
  | _ => false

/-- `receive_file` has returned an error, or panicked. -/
def WriterTask.hasFailed : WriterTask → Bool
  | .failed _ | .panicked _ => true
  | _ => false

def ReceivePhase.hasFailed {Q : RaptorQ} : ReceivePhase Q → Bool
  | .receiving _ s _ => s.writer.hasFailed
  | _ => false

namespace RecvFile

variable {C : Crates} {p : RecvParams} {s s' : RecvFile C.raptorq} {e : RecvEvent}

/-- A writer that has failed makes no further step. -/
theorem writer_of_hasFailed (h : s.writer.hasFailed = true) (hs : step C p s e = some s') :
    s'.writer = s.writer := by
  have hloop : s.writer ≠ .looping := by
    intro hw
    rw [hw] at h
    cases h
  have hwait : s.writer ≠ .awaiting := by
    intro hw
    rw [hw] at h
    cases h
  cases step_cases hs with
  | take save block rest s' hwriter => exact absurd hwriter hloop
  | writeFails n block rest s' hwriter => exact absurd hwriter hloop
  | channelEnd hwriter => exact absurd hwriter hloop
  | finish save why hwriter => exact absurd hwriter hwait
  | joinFails save fault hwriter => exact absurd hwriter hwait
  | ioFails hwriter => exact absurd hwriter hwait
  | _ => rfl

/-- A writer that works has worked before. -/
theorem hasFailed_of_step (hs : step C p s e = some s') (h : s'.writer.hasFailed = false) :
    s.writer.hasFailed = false := by
  by_contra hfailed
  rw [writer_of_hasFailed (by simpa using hfailed) hs] at h
  exact hfailed h

/-- The state a transfer starts with is the one that was loaded, if it has a mark. -/
theorem loaded_of_isComplete {Q : RaptorQ} {rng : ℕ → Vector UInt8 4} {now : ℕ}
    {out : Option Bytes} {loaded : Option ResumeState} {id : ℕ}
    (h : (start Q p rng now { out := out, resume := loaded.map .saved }).resume.isComplete id
      = true) :
    loaded = some (start Q p rng now { out := out, resume := loaded.map .saved }).resume := by
  obtain ⟨horigin, -⟩ := start_resume (p := p) Q rng now
    { out := out, resume := loaded.map .saved }
  rcases horigin with hsaved | hnew
  · obtain ⟨st, hst, heq⟩ := Option.map_eq_some_iff.mp hsaved
    exact hst.trans (congrArg some (ResumeFile.saved.inj heq))
  · rw [hnew, ResumeState.isComplete_new] at h
    cases h

/-- What a step does to the output file and the bitmap. -/
inductive WriteCases (C : Crates) (p : RecvParams) (s : RecvFile C.raptorq) (e : RecvEvent)
    (s' : RecvFile C.raptorq) : Prop
  | kept (hresume : s'.resume = s.resume) (hfile : s'.file = s.file)
  | failed (hresume : s'.resume = s.resume) (hfailed : s'.writer.hasFailed = true)
  | wrote (block : ReceivedBlock) (offset len : ℕ) (hwrites : e.writes = true)
      (hblock : block ∈ s.channel) (hrange : p.writeRange block.blockId = .ok (offset, len))
      (hlen : len ≤ block.data.length)
      (hfile : s'.file = Blocks.patch 0 s.file offset (block.data.take len))
      (hmark : s.resume.markComplete block.blockId (C.blake3 (block.data.take len))
        = .ok s'.resume)

theorem write_cases (hs : step C p s e = some s') : WriteCases C p s e s' := by
  cases step_cases hs with
  | take save block rest s' hwriter hchannel htake =>
      cases htake with
      | skipped => exact .kept rfl rfl
      | rangeFault | sliceFault | markFault => exact .failed rfl rfl
      | wrote offset len resume hnew hrange hlen hmark =>
          exact .wrote block offset len rfl (by simp [hchannel]) hrange hlen rfl hmark
  | writeFails n block rest s' hwriter hchannel hnew hfail =>
      cases hfail with
      | rangeFault | sliceFault | partly => exact .failed rfl rfl
  | _ => exact .kept rfl rfl

/-- The resume state stays well formed, and for the same transfer. -/
theorem WriteCases.shape (h : WriteCases C p s e s') {q : RecvParams}
    (hwf : s.resume.WellFormed) (hfor : s.resume.IsFor q) :
    s'.resume.WellFormed ∧ s'.resume.IsFor q := by
  cases h with
  | kept hsame | failed hsame =>
      rw [hsame]
      exact ⟨hwf, hfor⟩
  | wrote block offset len hwrites hblock hrange hlen hfile hmark =>
      obtain ⟨hf, hb, htotal, -, -⟩ := ResumeState.markComplete_frame hmark
      exact ⟨hwf.mark hmark, hf.trans hfor.fileSize_eq, hb.trans hfor.blockSize_eq,
        htotal.trans hfor.totalBlocks_eq⟩

end RecvFile

namespace ServeTasks

variable {ι : Type} {C : Crates} {K : ResumeCodec} {d : OutputDir} {t : ι → Served} {i : ι}

/-- A resume state a transfer of the name goes by, or may yet load. -/
def Holds (K : ResumeCodec) (d : OutputDir) (t : ι → Served) (i : ι) {Q : RaptorQ}
    (w : ServeTasks Q ι) (j : Rivals t i) (st : ResumeState) : Prop :=
  (w.phase j).record = some st ∨
    ((w.fs.read ((t i).resumeAt d)).map (Node.toResume K) = some (.saved st) ∧
      st.IsFor (t j).params)

/-- **The output file of one name.** What a resume state marks is right, as far as the transfer goes
that holds it. A transfer that has not opened the file holds no state if there is no file yet, or if
its size is not that of all. -/
structure Output (K : ResumeCodec) (d : OutputDir) (t : ι → Served) (i : ι) {Q : RaptorQ}
    (w : ServeTasks Q ι) : Prop where
  early : ∀ j : Rivals t i, (w.phase j).opened = false →
    (w.fs.read ((t i).out d) = none ∨
      ∃ m : Rivals t i, (versions t i m).length ≠ (versions t i j).length) →
    ∀ st, ¬ Holds K d t i w j st
  file : ∀ node, w.fs.read ((t i).out d) = some node → ∃ f, node = .bytes f ∧
    Versions.Sized (versions t i) f ∧
    ∀ (j : Rivals t i) st, Holds K d t i w j st → ∀ k < (versions t i j).length,
      st.isComplete (k / blockSizes t i j) = true → Versions.Right (versions t i) j f k

/-- What a task that has opened its output file knows. -/
structure Task (C : Crates) (d : OutputDir) (t : ι → Served) (fs : Files) (j : ι) (handle : ℕ)
    (s : RecvFile C.raptorq) : Prop where
  linked : fs.Linked ((t j).out d) handle
  books : s.Bookkeeping (t j).params
  provenance : RecvFile.Provenance C (t j).params
    (RecvFile.GenuineOn C (t j).params (t j).file.bytes fun _ => True) s

/-- The content an event meets is that of the file under the transfer's name. -/
theorem Task.exists_read {fs : Files} {j : ι} {handle : ℕ} {s : RecvFile C.raptorq}
    (h : Task C d t fs j handle s) {e : RecvEvent} {bytes : Bytes}
    (hcontent : content K fs handle ((t j).out d) e = some bytes) :
    ∃ node, fs.read ((t j).out d) = some node ∧ node.toBytes K = bytes := by
  refine Option.map_eq_some_iff.mp ?_
  unfold content at hcontent
  split at hcontent
  · exact hcontent
  · rwa [h.linked.read_eq]

/-- Neither the books nor the decoders depend on the file. -/
theorem Task.withFile {fs : Files} {j : ι} {handle : ℕ} {s : RecvFile C.raptorq}
    (h : Task C d t fs j handle s) (bytes : Bytes) :
    Task C d t fs j handle { s with file := bytes } where
  linked := h.linked
  books := h.books.of_sameReceiving ⟨rfl, rfl, rfl, rfl⟩ ⟨[], rfl⟩
  provenance := ⟨h.provenance.pending, h.provenance.blocks⟩

theorem Task.step {fs fs' : Files} {j : ι} {handle : ℕ} {s s' : RecvFile C.raptorq}
    (h : Task C d t fs j handle s) {e : RecvEvent}
    (hlinked : fs'.Linked ((t j).out d) handle)
    (harrivals : RecvFile.Arrivals C (t j).params
      (RecvFile.GenuineOn C (t j).params (t j).file.bytes fun _ => True) s e)
    (hstep : RecvFile.step C (t j).params s e = some s') : Task C d t fs' j handle s' where
  linked := hlinked
  books := h.books.step hstep
  provenance := h.provenance.step h.books harrivals hstep

/-- The blocks on the channel are the source's. -/
theorem Task.block_eq (hC : C.Correct) {fs : Files} {j : ι} {handle : ℕ} {s : RecvFile C.raptorq}
    (h : Task C d t fs j handle s) (hfor : (t j).params.For (t j).file.bytes)
    {block : ReceivedBlock} (hblock : block ∈ s.channel) :
    block.blockId < (t j).params.totalBlocks ∧
      block.data = Blocks.block (t j).params.blockSize (t j).file.bytes block.blockId := by
  have hdecoded := h.provenance.blocks block (h.books.mem_decodedBlocks hblock)
  obtain ⟨hid, hdata⟩ := hdecoded.genuine hC (RecvFile.sizedOn_of_for hfor fun _ => True)
  exact ⟨hid, hdata trivial⟩

/-- **The invariant of the tasks**, for the name of transfer `i`. Of the other transfers it says
only that they have no other file open than their own. -/
structure Inv (C : Crates) (K : ResumeCodec) (d : OutputDir) (t : ι → Served) (i : ι)
    (w : ServeTasks C.raptorq ι) : Prop where
  owns : ∀ j handle s due, w.phase j = .receiving handle s due →
    w.fs.Owns ((t j).out d) handle
  task : ∀ (j : Rivals t i) handle s due, w.phase j = .receiving handle s due →
    Task C d t w.fs j handle s
  shape : ∀ (j : Rivals t i) st, (w.phase j).record = some st →
    st.WellFormed ∧ st.IsFor (t j).params
  disk : ∀ node, w.fs.read ((t i).resumeAt d) = some node →
    ∃ r, node = .resume r ∧ ∀ st, r = .saved st → st.WellFormed
  output : (∀ j : Rivals t i, (w.phase j).hasFailed = false) → Output K d t i w

/-- There is nothing to know of an output directory without the files of the name. -/
theorem inv_start {fs : Files} (hout : fs.read ((t i).out d) = none)
    (hresume : fs.read ((t i).resumeAt d) = none) :
    Inv C K d t i (start C.raptorq fs) := by
  have hfs : (start C.raptorq fs : ServeTasks C.raptorq ι).fs = fs := rfl
  refine ⟨?_, ?_, ?_, ?_, fun _ => ⟨?_, ?_⟩⟩
  · intro j handle s due hj
    cases hj
  · intro j handle s due hj
    cases hj
  · intro j st hst
    cases hst
  · intro node hnode
    rw [hfs, hresume] at hnode
    cases hnode
  · rintro j _ _ st (hrecord | ⟨hsaved, -⟩)
    · cases hrecord
    · rw [hfs, hresume] at hsaved
      cases hsaved
  · intro node hnode
    rw [hfs, hout] at hnode
    cases hnode

/-! ## A step of one transfer -/

variable [DecidableEq ι] {w w' : ServeTasks C.raptorq ι} {a : ι}

section

variable {fs : Files} {phase : ReceivePhase C.raptorq}

/-- What a transfer holds after a step of one: what that one has in memory now, what the others
had, and what the resume file holds. -/
theorem holds_advance {j : Rivals t i} {st : ResumeState}
    (h : Holds K d t i (w.advance a fs phase) j st) :
    (j = a ∧ phase.record = some st) ∨ (j ≠ a ∧ (w.phase j).record = some st) ∨
      ((fs.read ((t i).resumeAt d)).map (Node.toResume K) = some (.saved st) ∧
        st.IsFor (t j).params) := by
  rcases h with hrecord | hdisk
  · by_cases hja : j = a
    · rw [hja, advance_phase_self] at hrecord
      exact Or.inl ⟨hja, hrecord⟩
    · rw [advance_phase_of_ne _ hja] at hrecord
      exact Or.inr (Or.inl ⟨hja, hrecord⟩)
  · exact Or.inr (Or.inr hdisk)

/-- A transfer that has not opened its file after a step had not before. -/
theorem opened_of_advance (hopened : phase.opened = false → (w.phase a).opened = false) {j : ι}
    (h : ((w.advance a fs phase).phase j).opened = false) : (w.phase j).opened = false := by
  by_cases hja : j = a
  · rw [hja] at h ⊢
    rw [advance_phase_self] at h
    exact hopened h
  · rwa [advance_phase_of_ne _ hja] at h

/-- A step that leaves the output file alone and makes no new state. -/
theorem Output.of_advance (h : Output K d t i w)
    (hread : fs.read ((t i).out d) = w.fs.read ((t i).out d))
    (hopened : ∀ j : Rivals t i, ((w.advance a fs phase).phase j).opened = false →
      (w.phase j).opened = false)
    (hholds : ∀ j st, Holds K d t i (w.advance a fs phase) j st → Holds K d t i w j st) :
    Output K d t i (w.advance a fs phase) := by
  refine ⟨fun j hj hwhy st hst => ?_, fun node hnode => ?_⟩
  · rw [advance_fs, hread] at hwhy
    exact h.early j (hopened j hj) hwhy st (hholds j st hst)
  · rw [advance_fs, hread] at hnode
    obtain ⟨f, rfl, hsized, hright⟩ := h.file node hnode
    exact ⟨f, rfl, hsized, fun j st hst => hright j st (hholds j st hst)⟩

/-- A transfer with its file still to open holds no state, whoever else writes to the file. -/
theorem Output.early_of_written (h : Output K d t i w) (hopened : phase.opened = true) {node : Node}
    (hnew : fs.read ((t i).out d) = some node)
    (hresume : fs.read ((t i).resumeAt d) = w.fs.read ((t i).resumeAt d)) (j : Rivals t i)
    (hj : ((w.advance a fs phase).phase j).opened = false)
    (hwhy : (w.advance a fs phase).fs.read ((t i).out d) = none ∨
      ∃ m : Rivals t i, (versions t i m).length ≠ (versions t i j).length) (st : ResumeState) :
    ¬ Holds K d t i (w.advance a fs phase) j st := by
  intro hst
  have hja : (j : ι) ≠ a := by
    intro hja
    rw [hja, advance_phase_self, hopened] at hj
    cases hj
  rw [advance_phase_of_ne _ hja] at hj
  refine h.early j hj (Or.inr (hwhy.resolve_left ?_)) st ?_
  · rw [advance_fs, hnew]
    exact Option.some_ne_none node
  · rcases holds_advance hst with ⟨heq, -⟩ | ⟨-, hrecord⟩ | ⟨hsaved, hform⟩
    · exact absurd heq hja
    · exact Or.inl hrecord
    · exact Or.inr ⟨hresume ▸ hsaved, hform⟩

/-- **What a step has to show** to keep the invariant. -/
theorem Inv.advance (h : Inv C K d t i w) (hgrows : w.fs.Grows fs)
    (howns : ∀ handle s due, phase = .receiving handle s due → fs.Owns ((t a).out d) handle)
    (hlinked : ∀ n, w.fs.Linked ((t i).out d) n → fs.Linked ((t i).out d) n)
    (htask : (t a).filename = (t i).filename → ∀ handle s due,
      phase = .receiving handle s due → Task C d t fs a handle s)
    (hshape : (t a).filename = (t i).filename → ∀ st, phase.record = some st →
      st.WellFormed ∧ st.IsFor (t a).params)
    (hdisk : ∀ node, fs.read ((t i).resumeAt d) = some node →
      ∃ r, node = .resume r ∧ ∀ st, r = .saved st → st.WellFormed)
    (hfailed : (t a).filename = (t i).filename → phase.hasFailed = false →
      (w.phase a).hasFailed = false)
    (houtput : (∀ j : Rivals t i, ((w.advance a fs phase).phase j).hasFailed = false) →
      Output K d t i w → Output K d t i (w.advance a fs phase)) :
    Inv C K d t i (w.advance a fs phase) := by
  -- each fact for the transfer of the step, and for the others as before
  refine ⟨fun j handle s due hj => ?_, fun j handle s due hj => ?_, fun j st hst => ?_, hdisk,
    fun hj => ?_⟩
  · by_cases hja : j = a
    · rw [hja] at hj ⊢
      rw [advance_phase_self] at hj
      exact howns handle s due hj
    · rw [advance_phase_of_ne _ hja] at hj
      exact (h.owns j handle s due hj).of_grows hgrows
  · by_cases hja : (j : ι) = a
    · have hname := j.2
      rw [hja] at hj hname ⊢
      rw [advance_phase_self] at hj
      exact htask hname handle s due hj
    · rw [advance_phase_of_ne _ hja] at hj
      obtain ⟨hold, hbooks, hprov⟩ := h.task j handle s due hj
      rw [j.out_eq] at hold
      exact ⟨j.out_eq ▸ hlinked handle hold, hbooks, hprov⟩
  · by_cases hja : (j : ι) = a
    · have hname := j.2
      rw [hja] at hst hname ⊢
      rw [advance_phase_self] at hst
      exact hshape hname st hst
    · rw [advance_phase_of_ne _ hja] at hst
      exact h.shape j st hst
  · refine houtput hj (h.output fun j => ?_)
    by_cases hja : (j : ι) = a
    · have hno := hj j
      have hname := j.2
      rw [hja] at hno hname ⊢
      rw [advance_phase_self] at hno
      exact hfailed hname hno
    · rw [← advance_phase_of_ne w hja fs phase]
      exact hj j

/-- **A step of a transfer of another name** that leaves the files of this one alone. -/
theorem Inv.of_foreign (h : Inv C K d t i w) (hname : (t a).filename ≠ (t i).filename)
    (hgrows : w.fs.Grows fs)
    (howns : ∀ handle s due, phase = .receiving handle s due → fs.Owns ((t a).out d) handle)
    (hlinked : ∀ n, w.fs.Linked ((t i).out d) n → fs.Linked ((t i).out d) n)
    (hout : fs.read ((t i).out d) = w.fs.read ((t i).out d))
    (hresume : fs.read ((t i).resumeAt d) = w.fs.read ((t i).resumeAt d)) :
    Inv C K d t i (w.advance a fs phase) := by
  have hne : ∀ j : Rivals t i, (j : ι) ≠ a := by
    rintro j rfl
    exact hname j.2
  refine h.advance hgrows howns hlinked (fun heq => absurd heq hname)
    (fun heq => absurd heq hname) (fun node hnode => h.disk node (hresume ▸ hnode))
    (fun heq => absurd heq hname) fun _ hold => ?_
  refine hold.of_advance hout (fun j hj => ?_) fun j st hst => ?_
  · rwa [advance_phase_of_ne _ (hne j)] at hj
  · rcases holds_advance hst with ⟨heq, -⟩ | ⟨-, hrecord⟩ | ⟨hsaved, hfor⟩
    · exact absurd heq (hne j)
    · exact Or.inl hrecord
    · exact Or.inr ⟨hresume ▸ hsaved, hfor⟩

end

end ServeTasks

end Updown
