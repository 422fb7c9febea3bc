import Updown.Engine.History

set_option autoImplicit false

/-! # Where the bytes of an output file come from

Whatever the network does to a transfer and wherever it stops, a write in the middle of a block
included, every byte of the output file is the one found at the start or the one the source has in
its place (`mixed_onDisk_of_reaches`). So no history of a path puts a byte into its file that none of
the texts sent or edited into it has in this place (`OutputPath.bytes_traced`).
-/

namespace Updown

open Transition

namespace RecvFile

variable {C : Crates} {p : RecvParams} {S : Bytes}

/-- The bytes of `new` are those of `old` or of `S`, each in its place. -/
def Mixed (S old new : Bytes) : Prop := ∀ j : ℕ, new[j]? = old[j]? ∨ new[j]? = S[j]?

theorem mixed_refl (S file : Bytes) : Mixed S file file := fun _ => Or.inl rfl

theorem Mixed.trans {old mid new : Bytes} (h : Mixed S old mid) (h' : Mixed S mid new) :
    Mixed S old new := by
  intro j
  rcases h' j with hmid | hS
  · rw [hmid]
    exact h j
  · exact Or.inr hS

/-- Writing the beginning of a block of `S` in its place. -/
theorem mixed_patch {b id m : ℕ} {file : Bytes} (hoff : id * b ≤ file.length) :
    Mixed S file (Blocks.patch 0 file (id * b) ((Blocks.block b S id).take m)) := by
  intro j
  rw [Blocks.getElem?_patch_of_le hoff]
  split
  · next hj =>
      refine Or.inr ?_
      have hlen := hj.2
      rw [List.length_take, Blocks.length_block] at hlen
      rw [List.getElem?_take, if_pos (by omega), Blocks.getElem?_block, if_pos (by omega)]
      congr 1
      omega
  · exact Or.inl rfl

/-- **A step writes bytes of the source only**, when the blocks on the channel are the source's. -/
theorem mixed_step {s s' : RecvFile C.raptorq} {e : RecvEvent} (hrec : s.Recorded p)
    (hfits : p.Fits) (hblocks : ∀ block ∈ s.channel, block.blockId < p.totalBlocks ∧
      block.data = Blocks.block p.blockSize S block.blockId)
    (hstep : RecvFile.step C p s e = some s') : Mixed S s.file s'.file := by
  have hoff : ∀ id < p.totalBlocks, id * p.blockSize ≤ s.file.length := by
    intro id hid
    rw [hrec.length_file]
    exact (hfits.offset_lt hid).le
  cases step_cases hstep with
  | take save block rest s' hwriter hchannel htake =>
      obtain ⟨hid, hdata⟩ := hblocks block (by simp [hchannel])
      cases htake with
      | skipped | rangeFault | sliceFault => exact mixed_refl S _
      | markFault offset len fault hnew hrange hlen hmark =>
          obtain ⟨rfl, rfl⟩ := RecvParams.writeRange_eq_ok hrange
          show Mixed S s.file (Blocks.patch 0 s.file _ _)
          rw [hdata]
          exact mixed_patch (hoff _ hid)
      | wrote offset len resume hnew hrange hlen hmark =>
          obtain ⟨rfl, rfl⟩ := RecvParams.writeRange_eq_ok hrange
          show Mixed S s.file (Blocks.patch 0 s.file _ _)
          rw [hdata]
          exact mixed_patch (hoff _ hid)
  | writeFails n block rest s' hwriter hchannel hnew hfail =>
      obtain ⟨hid, hdata⟩ := hblocks block (by simp [hchannel])
      cases hfail with
      | rangeFault | sliceFault => exact mixed_refl S _
      | partly offset len hrange hlen =>
          obtain ⟨rfl, rfl⟩ := RecvParams.writeRange_eq_ok hrange
          show Mixed S s.file (Blocks.patch 0 s.file _ _)
          rw [hdata, List.take_take]
          exact mixed_patch (hoff _ hid)
  | _ => exact mixed_refl S _

/-- **The bytes of the output file**, in every state reached by packets of the source. -/
theorem mixed_of_reaches (hC : C.Correct) (hS : p.For S) {rng : ℕ → Vector UInt8 4} {now : ℕ}
    {disk : Disk} (hdisk : disk.Sound) {P : RecvFile C.raptorq → RecvEvent → Prop}
    {s : RecvFile C.raptorq}
    (hP : ∀ s e, P s e → Arrivals C p (GenuineOn C p S fun _ => True) s e)
    (h : Reaches (RecvFile.step C p) P (start C.raptorq p rng now disk) s) :
    Mixed S (start C.raptorq p rng now disk).file s.file := by
  refine h.invariant_along (I := fun u => Mixed S (start C.raptorq p rng now disk).file u.file)
    (mixed_refl S _) fun u e u' hu hmixed _ hs => hmixed.trans ?_
  refine mixed_step (recorded_of_reaches hS.fits (fun _ _ hq => hq.1) hdisk hP hu) hS.fits
    (fun block hblock => ?_) hs
  obtain ⟨hid, hdata⟩ := data_eq_of_reaches hC (sizedOn_of_for hS fun _ => True) hP hu
    ((bookkeeping_of_reaches hu).mem_decodedBlocks hblock)
  exact ⟨hid, hdata trivial⟩

/-- **And while a write is under way**: what it has not reached is as it was before. -/
theorem mixed_onDisk_of_reaches (hC : C.Correct) (hS : p.For S) {rng : ℕ → Vector UInt8 4}
    {now : ℕ} {disk : Disk} (hdisk : disk.Sound) {P : RecvFile C.raptorq → RecvEvent → Prop}
    {d : DeferredRecv C.raptorq}
    (hP : ∀ s e, P s e → Arrivals C p (GenuineOn C p S fun _ => True) s e)
    (h : Reaches (DeferredRecv.step C p) (DeferredRecv.Along P)
      (DeferredRecv.start C.raptorq p rng now disk) d) :
    Mixed S (start C.raptorq p rng now disk).file d.onDisk := by
  cases hu : d.unfinished with
  | none =>
      rw [DeferredRecv.onDisk_of_none hu]
      exact mixed_of_reaches hC hS hdisk hP (DeferredRecv.reaches_recv h)
  | some u =>
      obtain ⟨-, s, hissued, hreach⟩ := DeferredRecv.exists_issued_of_reaches h hu
      obtain ⟨block, hblock, hid, -, len, -, -, hchunk⟩ := hissued.exists_block
      obtain ⟨e, -, hbefore⟩ := hissued
      have hplace := DeferredRecv.inPlace_of_reaches hS.fits (fun _ _ hq => hq.1) hdisk hP h hu
      obtain ⟨-, hdata⟩ := data_eq_of_reaches hC (sizedOn_of_for hS fun _ => True) hP hreach
        ((bookkeeping_of_reaches hreach).mem_decodedBlocks hblock)
      have hoff : u.blockId * p.blockSize ≤ u.before.length := by
        rw [hplace.length_before]
        exact (hS.fits.offset_lt hplace.blockId_lt).le
      have hmixed : Mixed S (start C.raptorq p rng now disk).file u.before :=
        hbefore ▸ mixed_of_reaches hC hS hdisk hP hreach
      refine hmixed.trans ?_
      rw [DeferredRecv.onDisk_of_some hu, Unfinished.file, hplace.offset_eq, hchunk, hdata trivial,
        List.take_take, hid]
      exact mixed_patch hoff

end RecvFile

namespace OutputPath

variable {C : Crates} {b n : ℕ} {T : Set Bytes} {o o₀ o' : OutputPath}

/-- Every byte of the file at the path is one that a text of `T` has in its place. -/
def TracedTo (T : Set Bytes) (n : ℕ) (o : OutputPath) : Prop :=
  ∀ (j : ℕ) (byte : UInt8), (sized n o.disk.out)[j]? = some byte →
    ∃ text ∈ T, text[j]? = some byte

/-- What is edited into the file and what is sent to it are texts of `T`; senders send raw. -/
def Within (C : Crates) (T : Set Bytes) (n : ℕ) : PathEvent → Prop
  | .edit out => sized n out ∈ T
  | .transfer t => t.engine.SendsRaw C t.file.bytes ∧ t.file.bytes ∈ T

/-- **A transfer, stopped anywhere, keeps the bytes traced.** -/
theorem tracedTo_transfer (hC : C.Correct) (hb : 1 ≤ b) (hsound : o.disk.Sound)
    (h : TracedTo T n o) {t : PathTransfer} (hvalid : t.Valid C b n o.disk)
    (hwithin : Within C T n (.transfer t)) {d : DeferredRecv C.raptorq}
    (hrun : t.run C o.disk = some d) :
    d.disk.Sound ∧ TracedTo T n ⟨d.disk, t.file.bytes⟩ := by
  obtain ⟨hraw, hfile⟩ := hwithin
  obtain ⟨hmatch, rfl, rfl, hnet⟩ := hvalid
  have hfor := hmatch.for hb
  have hreach : Reaches (DeferredRecv.step C t.params) _ (t.start C o.disk) d :=
    Reaches.of_runAll hrun hnet
  have hP : ∀ u ev, Network C t.params (t.sent C) u ev →
      RecvFile.Arrivals C t.params (RecvFile.GenuineOn C t.params t.file.bytes fun _ => True) u
        ev :=
    arrivals_of_network hC hmatch hraw
  have hlen := DeferredRecv.length_onDisk hfor.fits (fun _ _ hq => hq.1) hsound hP hreach
  have hmixed := RecvFile.mixed_onDisk_of_reaches hC hfor hsound hP hreach
  refine ⟨RecvFile.sound_of_reaches hfor.fits (fun _ _ hq => hq.1) hsound hP
    (DeferredRecv.reaches_recv hreach), ?_⟩
  have hsized : sized t.file.bytes.length d.disk.out = d.onDisk := by
    rw [sized, ← hmatch.fileSize_eq, ← hlen]
    exact Blocks.resize_length_self 0 d.onDisk
  have hstart : (t.start C o.disk).recv.file = sized t.file.bytes.length o.disk.out := by
    rw [sized, ← hmatch.fileSize_eq]
    rfl
  intro j byte hbyte
  rw [hsized] at hbyte
  rcases hmixed j with hold | hnew
  · exact h j byte (hstart ▸ hold.symm.trans hbyte)
  · exact ⟨t.file.bytes, hfile, hnew.symm.trans hbyte⟩

/-- **No byte out of nowhere.** Take any history of a path: transfers of files of `n` bytes, each
stopped at any point and under any network, resumed or not, of all blocks or as a delta, and edits
in between. If the file at the beginning, every edited version and every source are texts of `T`,
then every byte of the file is one that a text of `T` has in this very place. -/
theorem bytes_traced (hC : C.Correct) (hb : 1 ≤ b) (hsound : o₀.disk.Sound)
    (hfirst : sized n o₀.disk.out ∈ T)
    (hist : Reaches (step C) (fun o e => o.Allowed C b n e ∧ Within C T n e) o₀ o) :
    TracedTo T n o := by
  refine (hist.invariant (I := fun o => o.disk.Sound ∧ TracedTo T n o)
    ⟨hsound, fun j byte hbyte => ⟨_, hfirst, hbyte⟩⟩ ?_).2
  rintro o e o' ⟨hsound, htraced⟩ ⟨hallowed, hwithin⟩ hs
  cases e with
  | edit out =>
      obtain rfl := Option.some.inj hs
      exact ⟨hsound, fun j byte hbyte => ⟨_, hwithin, hbyte⟩⟩
  | transfer t =>
      obtain ⟨d, hrun, rfl⟩ := Option.map_eq_some_iff.mp hs
      exact tracedTo_transfer hC hb hsound htraced hallowed hwithin hrun

/-- A transfer stopped in its middle leaves bytes of the source and of the file as it was. -/
theorem bytes_traced_half :
    TracedTo {sized 5 none, Small.file.bytes} 5 Small.half := by
  have hraw : Small.interrupted.engine.SendsRaw PlainCrates.plainCrates
      Small.interrupted.file.bytes := SendEngine.sendsRaw_of_off rfl
  have hist : Reaches (step PlainCrates.plainCrates)
      (fun o e => o.Allowed PlainCrates.plainCrates 4 5 e ∧
        Within PlainCrates.plainCrates {sized 5 none, Small.file.bytes} 5 e)
      ⟨⟨none, none⟩, []⟩ Small.half :=
    Reaches.single (e := .transfer Small.interrupted)
      ⟨Small.interrupted_valid, hraw, Or.inr rfl⟩ Small.step_interrupted
  exact bytes_traced PlainCrates.plainCrates_correct (by decide) (fun _ hst => by cases hst)
    (Or.inl rfl) hist

end OutputPath

end Updown
