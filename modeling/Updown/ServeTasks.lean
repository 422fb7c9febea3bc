import Updown.Engine.Paths
import Updown.Lib.FileSystem
import Updown.Send

set_option autoImplicit false

/-! # The transfers of one endpoint

`run_serve` starts a task for each transfer, and all the tasks write to one output directory.
`ServeTasks` is their joint state: the files, and where each `receive_file` is. The steps that touch
files are one step each: loading the resume state, opening the file and setting its length, writing
a block, saving the resume state or removing its file. Between two of them any step of another
transfer can come.
-/

namespace Updown

open FilePath Transition

/-! ## Files -/

/-- What a file was last written as: an output file or a resume file. -/
inductive Node where
  | bytes (content : Bytes)
  | resume (content : ResumeFile)
  deriving DecidableEq

/-- Reading a resume file as an output file, and the other way (`bincode`). -/
structure ResumeCodec where
  serialize : ResumeFile → Bytes
  deserialize : Bytes → ResumeFile

def Node.toBytes (K : ResumeCodec) : Node → Bytes
  | .bytes content => content
  | .resume content => K.serialize content

def Node.toResume (K : ResumeCodec) : Node → ResumeFile
  | .bytes content => K.deserialize content
  | .resume content => content

/-- Files are where their paths lead to. -/
abbrev Files := FileSystem (List Name) Node

/-- The output directory, and the working directory it may be relative to. -/
structure OutputDir where
  cwd : List Name
  output : String

/-! ## Transfers -/

/-- A transfer, with what its sender sends. -/
structure Served where
  filename : String
  engine : SendEngine
  file : SourceFile
  params : RecvParams
  skip : List ℕ
  rngSend : ℕ → Vector UInt8 4
  doneAt : UInt64
  rngRecv : ℕ → Vector UInt8 4

namespace Served

/-- The datagrams of the sender. -/
def sent (C : Crates) (t : Served) : List Bytes :=
  (sendNegotiated C t.engine t.file t.params.sharedKey t.params.sessionId t.skip t.rngSend
    t.doneAt).1

/-- Where the output file is. -/
def out (d : OutputDir) (t : Served) : List Name := resolve d.cwd (outputPath d.output t.filename)

/-- Where its resume file is. -/
def resumeAt (d : OutputDir) (t : Served) : List Name :=
  resolve d.cwd (resumePath (outputPath d.output t.filename))

/-- The endpoint accepts the transfer: the name is the file name of the sender's file, and the
numbers are those of its request. -/
structure Accepted (C : Crates) (t : Served) : Prop where
  isName : IsName t.filename.toList
  negotiated : ∃ (sessionId : UInt32) (sharedKey : Vector UInt8 KEY_LEN) (rateMbps : ℕ)
    (req : TransferRequest),
    negotiateRequest C t.filename t.file t.engine.blockSize sessionId = .ok req ∧
    req.recvParams sharedKey rateMbps = some t.params

end Served

/-! ## Steps -/

/-- Where a `receive_file` is. -/
inductive ReceivePhase (Q : RaptorQ) where
  /-- Before `ResumeState::load`. -/
  | loading
  /-- Before the output file is opened. -/
  | opening (loaded : Option ResumeState)
  /-- The output file is open. `due` is a resume state to be saved, or a resume file to be
  removed, next. -/
  | receiving (handle : ℕ) (state : RecvFile Q) (due : Option SaveOutcome)

structure ServeTasks (Q : RaptorQ) (ι : Type) where
  fs : Files
  phase : ι → ReceivePhase Q

inductive ServeEvent (ι : Type) where
  | load (i : ι)
  | openFile (i : ι) (now : ℕ)
  | recv (i : ι) (e : RecvEvent)
  /-- `resume.save` or `ResumeState::cleanup`. -/
  | save (i : ι)

/-- The events of the writer. -/
def RecvEvent.ofWriter : RecvEvent → Bool
  | .take _ | .writeFails _ | .channelEnd | .finish _ | .ioFails => true
  | _ => false

/-- The events that write to the output file. -/
def RecvEvent.writes : RecvEvent → Bool
  | .take _ | .writeFails _ => true
  | _ => false

/-- The save or cleanup that an event leads to. -/
def RecvEvent.due {Q : RaptorQ} (e : RecvEvent) (s s' : RecvFile Q) : Option SaveOutcome :=
  match e with
  | .take save =>
      if s'.blocksWritten = s.blocksWritten + 1 ∧ s'.blocksSinceSave = 0 then some save else none
  | .finish save => if s'.writer.finished then some save else none
  | _ => none

namespace ServeTasks

variable {Q : RaptorQ} {ι : Type}

/-- The content of the output file, as the event meets it: the hash at the end is taken of the file
that has the name then. -/
def content (K : ResumeCodec) (fs : Files) (handle : ℕ) (out : List Name) :
    RecvEvent → Option Bytes
  | .finish _ => (fs.read out).map (Node.toBytes K)
  | _ => (fs.get handle).map (Node.toBytes K)

/-- Save the resume state, or remove its file when the transfer has ended complete. -/
def saveResume (fs : Files) (resumeAt : List Name) (s : RecvFile Q) (save : SaveOutcome) : Files :=
  if s.writer.finished && s.resume.isTransferComplete then fs.remove resumeAt
  else
    match save with
    | .written => fs.put resumeAt (.resume (.saved s.resume))
    | .failed => fs
    | .torn => fs.put resumeAt (.resume .corrupt)

variable [DecidableEq ι]

/-- Transfer `i` goes on to a phase. -/
def advance (w : ServeTasks Q ι) (i : ι) (fs : Files) (phase : ReceivePhase Q) : ServeTasks Q ι :=
  { fs := fs, phase := Function.update w.phase i phase }

@[simp] theorem advance_fs (w : ServeTasks Q ι) (i : ι) (fs : Files) (phase : ReceivePhase Q) :
    (w.advance i fs phase).fs = fs := rfl

@[simp] theorem advance_phase_self (w : ServeTasks Q ι) (i : ι) (fs : Files)
    (phase : ReceivePhase Q) : (w.advance i fs phase).phase i = phase :=
  Function.update_self _ _ _

theorem advance_phase_of_ne (w : ServeTasks Q ι) {i j : ι} (h : j ≠ i) (fs : Files)
    (phase : ReceivePhase Q) : (w.advance i fs phase).phase j = w.phase j :=
  Function.update_of_ne h _ _

/-- One step of one of the transfers; `none` when it is not possible. -/
def step (C : Crates) (K : ResumeCodec) (d : OutputDir) (t : ι → Served)
    (w : ServeTasks C.raptorq ι) : ServeEvent ι → Option (ServeTasks C.raptorq ι)
  | .load i =>
      match w.phase i with
      | .loading =>
          let p := (t i).params
          let r := ResumeState.load ((w.fs.read ((t i).resumeAt d)).map (Node.toResume K))
            p.fileSize p.blockSize p.totalBlocks
          some (w.advance i (if r.2.isNone then w.fs.remove ((t i).resumeAt d) else w.fs)
            (.opening r.1))
      | _ => none
  | .openFile i now =>
      match w.phase i with
      | .opening loaded =>
          let o := w.fs.openAt ((t i).out d) (.bytes [])
          let s := RecvFile.start C.raptorq (t i).params (t i).rngRecv now
            { out := (o.1.get o.2).map (Node.toBytes K), resume := loaded.map .saved }
          some (w.advance i (o.1.write o.2 (.bytes s.file)) (.receiving o.2 s none))
      | _ => none
  | .recv i e =>
      match w.phase i with
      | .receiving handle s due =>
          if due.isSome && e.ofWriter then none
          else
            match content K w.fs handle ((t i).out d) e with
            | none => none
            | some bytes =>
                (RecvFile.step C (t i).params { s with file := bytes } e).map fun s' =>
                  w.advance i (if e.writes then w.fs.write handle (.bytes s'.file) else w.fs)
                    (.receiving handle s' ((e.due s s').or due))
      | _ => none
  | .save i =>
      match w.phase i with
      | .receiving handle s (some save) =>
          some (w.advance i (saveResume w.fs ((t i).resumeAt d) s save) (.receiving handle s none))
      | _ => none

/-- No task has begun. -/
def start (Q : RaptorQ) (fs : Files) : ServeTasks Q ι := { fs := fs, phase := fun _ => .loading }

/-- Each transfer is sent datagrams of its sender, and any that it does not open. -/
def Honest (C : Crates) (t : ι → Served) (_ : ServeTasks C.raptorq ι) : ServeEvent ι → Prop
  | .recv i e => ∀ s, Network C (t i).params ((t i).sent C) s e
  | _ => True

/-- A transfer has returned, and has all its blocks. -/
def Finished (w : ServeTasks Q ι) (i : ι) : Prop :=
  ∃ handle s, w.phase i = .receiving handle s none ∧ s.writer.finished = true ∧
    s.resume.isTransferComplete = true

/-! ## What a step can do -/

variable {C : Crates} {K : ResumeCodec} {d : OutputDir} {t : ι → Served}

/-- The steps of the tasks. -/
inductive StepCases (C : Crates) (K : ResumeCodec) (d : OutputDir) (t : ι → Served)
    (w : ServeTasks C.raptorq ι) : ServeEvent ι → ServeTasks C.raptorq ι → Prop
  | load (i : ι) (loaded : Option ResumeState) (left : Option ResumeFile) (fs : Files)
      (hphase : w.phase i = .loading)
      (hload : ResumeState.load ((w.fs.read ((t i).resumeAt d)).map (Node.toResume K))
        (t i).params.fileSize (t i).params.blockSize (t i).params.totalBlocks = (loaded, left))
      (hfs : fs = w.fs.remove ((t i).resumeAt d) ∨ fs = w.fs) :
      StepCases C K d t w (.load i) (w.advance i fs (.opening loaded))
  | openFile (i : ι) (now : ℕ) (loaded : Option ResumeState) (fs : Files) (handle : ℕ)
      (s : RecvFile C.raptorq) (hphase : w.phase i = .opening loaded)
      (hopen : w.fs.openAt ((t i).out d) (.bytes []) = (fs, handle))
      (hs : s = RecvFile.start C.raptorq (t i).params (t i).rngRecv now
        { out := some (((w.fs.read ((t i).out d)).getD (.bytes [])).toBytes K)
          resume := loaded.map .saved }) :
      StepCases C K d t w (.openFile i now)
        (w.advance i (fs.write handle (.bytes s.file)) (.receiving handle s none))
  | recv (i : ι) (e : RecvEvent) (handle : ℕ) (s s' : RecvFile C.raptorq)
      (due due' : Option SaveOutcome) (bytes : Bytes)
      (hphase : w.phase i = .receiving handle s due)
      (hcontent : content K w.fs handle ((t i).out d) e = some bytes)
      (hstep : RecvFile.step C (t i).params { s with file := bytes } e = some s') :
      StepCases C K d t w (.recv i e)
        (w.advance i (if e.writes then w.fs.write handle (.bytes s'.file) else w.fs)
          (.receiving handle s' due'))
  | save (i : ι) (handle : ℕ) (s : RecvFile C.raptorq) (save : SaveOutcome)
      (hphase : w.phase i = .receiving handle s (some save)) :
      StepCases C K d t w (.save i)
        (w.advance i (saveResume w.fs ((t i).resumeAt d) s save) (.receiving handle s none))

/-- **Inversion of a step.** -/
theorem step_cases {w w' : ServeTasks C.raptorq ι} {e : ServeEvent ι}
    (h : step C K d t w e = some w') : StepCases C K d t w e w' := by
  cases e with
  | load i =>
      simp only [step] at h
      split at h
      · next hphase =>
          obtain rfl := Option.some.inj h
          refine .load i _ _ _ hphase rfl ?_
          split
          · exact Or.inl rfl
          · exact Or.inr rfl
      · cases h
  | openFile i now =>
      simp only [step] at h
      split at h
      · next loaded hphase =>
          obtain rfl := Option.some.inj h
          refine .openFile i now loaded _ _ _ hphase rfl ?_
          have hlinked := FileSystem.linked_openAt w.fs ((t i).out d) (.bytes [])
          rw [← hlinked.read_eq, FileSystem.read_openAt_self]
          rfl
      · cases h
  | recv i e =>
      simp only [step] at h
      split at h
      · next handle s due hphase =>
          split at h
          · cases h
          · split at h
            · cases h
            · next bytes hcontent =>
                obtain ⟨s', hs, rfl⟩ := Option.map_eq_some_iff.mp h
                exact .recv i e handle s s' due _ bytes hphase hcontent hs
      · cases h
  | save i =>
      simp only [step] at h
      split at h
      · next handle s save hphase =>
          obtain rfl := Option.some.inj h
          exact .save i handle s save hphase
      · cases h

/-! ## Saving -/

section

variable {fs : Files} {l l' : List Name} {n : ℕ}

/-- Saving touches the resume file only. -/
theorem read_saveResume_of_ne (fs : Files) (hl : l' ≠ l) (s : RecvFile Q) (save : SaveOutcome) :
    (saveResume fs l s save).read l' = fs.read l' := by
  unfold saveResume
  split
  · exact FileSystem.read_remove_of_ne fs hl
  · cases save with
    | written => exact FileSystem.read_put_of_ne fs hl _
    | failed => rfl
    | torn => exact FileSystem.read_put_of_ne fs hl _

theorem linked_saveResume (h : fs.Linked l' n) (hl : l' ≠ l) (s : RecvFile Q)
    (save : SaveOutcome) : (saveResume fs l s save).Linked l' n := by
  unfold saveResume
  split
  · exact h.remove hl.symm
  · cases save with
    | written => exact h.put hl.symm _
    | failed => exact h
    | torn => exact h.put hl.symm _

theorem grows_saveResume (fs : Files) (l : List Name) (s : RecvFile Q) (save : SaveOutcome) :
    fs.Grows (saveResume fs l s save) := by
  unfold saveResume
  split
  · exact FileSystem.grows_remove fs l
  · cases save with
    | written => exact FileSystem.grows_put fs l _
    | failed => exact FileSystem.Grows.refl fs
    | torn => exact FileSystem.grows_put fs l _

/-- What is in the resume file then. -/
theorem read_saveResume_self (fs : Files) (l : List Name) (s : RecvFile Q) (save : SaveOutcome) :
    (saveResume fs l s save).read l = none ∨ (saveResume fs l s save).read l = fs.read l ∨
      (saveResume fs l s save).read l = some (.resume .corrupt) ∨
      (saveResume fs l s save).read l = some (.resume (.saved s.resume)) := by
  unfold saveResume
  split
  · exact Or.inl (FileSystem.read_remove_self fs l)
  · cases save with
    | written => exact Or.inr (Or.inr (Or.inr (FileSystem.read_put_self fs l _)))
    | failed => exact Or.inr (Or.inl rfl)
    | torn => exact Or.inr (Or.inr (Or.inl (FileSystem.read_put_self fs l _)))

end

end ServeTasks

end Updown
