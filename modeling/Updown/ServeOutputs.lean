import Updown.ServeRivals

set_option autoImplicit false

/-! # What concurrent transfers leave in the output directory

Each step of a transfer keeps the invariant of every name: loading and saving pass marks on to
rivals, opening sets a length, and writing a block decides what is disputed. `output_not_mixed` is
the result for the file of one name, `outputs_not_mixed` for all.
-/

namespace Updown

open FilePath Transition

namespace ServeTasks

variable {ι : Type} [DecidableEq ι] {C : Crates} {K : ResumeCodec} {d : OutputDir}
  {t : ι → Served} {i a : ι} {w w' : ServeTasks C.raptorq ι}

section

variable (ht : ∀ i, (t i).Accepted C) (hapart : Apart C t i)

include ht hapart

omit [DecidableEq ι]

/-- The output file of the name is nobody's resume file. -/
theorem out_ne_resumeAt (a : ι) : (t i).out d ≠ (t a).resumeAt d :=
  Served.out_ne_resumeAt (ht i) (ht a) (hapart.names a).1

/-- The resume file of the name is nobody's output file. -/
theorem resumeAt_ne_out (a : ι) : (t i).resumeAt d ≠ (t a).out d :=
  (Served.out_ne_resumeAt (ht a) (ht i) (hapart.names a).2).symm

end

/-- A task that receives has the handle it is given. -/
theorem owns_of_receiving {fs : Files} {l : List Name} {handle : ℕ} (h : fs.Owns l handle)
    {s : RecvFile C.raptorq} {u : Option SaveOutcome} (handle' : ℕ) (s' : RecvFile C.raptorq)
    (u' : Option SaveOutcome)
    (hphase : (.receiving handle s u : ReceivePhase C.raptorq) = .receiving handle' s' u') :
    fs.Owns l handle' := by
  cases hphase
  exact h

section

variable (ht : ∀ i, (t i).Accepted C) (hapart : Apart C t i)

include ht hapart

/-- **Loading.** A state that is loaded was held before. -/
theorem Inv.load (h : Inv C K d t i w) {loaded : Option ResumeState} {left : Option ResumeFile}
    {fs : Files} (hphase : w.phase a = .loading)
    (hload : ResumeState.load ((w.fs.read ((t a).resumeAt d)).map (Node.toResume K))
      (t a).params.fileSize (t a).params.blockSize (t a).params.totalBlocks = (loaded, left))
    (hfs : fs = w.fs.remove ((t a).resumeAt d) ∨ fs = w.fs) :
    Inv C K d t i (w.advance a fs (.opening loaded)) := by
  have hgrows : w.fs.Grows fs := by
    rcases hfs with rfl | rfl
    · exact FileSystem.grows_remove _ _
    · exact FileSystem.Grows.refl _
  have hlinked : ∀ n, w.fs.Linked ((t i).out d) n → fs.Linked ((t i).out d) n := by
    intro n hn
    rcases hfs with rfl | rfl
    · exact hn.remove (out_ne_resumeAt ht hapart a).symm
    · exact hn
  have hread : ∀ l, l ≠ (t a).resumeAt d → fs.read l = w.fs.read l := by
    intro l hl
    rcases hfs with rfl | rfl
    · exact FileSystem.read_remove_of_ne _ hl
    · rfl
  have hout := hread _ (out_ne_resumeAt ht hapart a)
  by_cases hname : (t a).filename = (t i).filename
  swap
  · exact h.of_foreign hname hgrows (fun _ _ _ hj => by cases hj) hlinked hout
      (hread _ fun heq => hname ((Served.resumeAt_eq_iff (ht i) (ht a)).mp heq).symm)
  have hsame : (t a).resumeAt d = (t i).resumeAt d :=
    (Served.resumeAt_eq_iff (ht a) (ht i)).mpr hname
  have hresume : ∀ node, fs.read ((t i).resumeAt d) = some node →
      w.fs.read ((t i).resumeAt d) = some node := by
    intro node hnode
    rcases hfs with rfl | rfl
    · rw [hsame, FileSystem.read_remove_self] at hnode
      cases hnode
    · exact hnode
  -- what is loaded is in the resume file, and is for the transfer
  have hloaded : ∀ st, loaded = some st →
      (w.fs.read ((t i).resumeAt d)).map (Node.toResume K) = some (.saved st) ∧
        st.IsFor (t a).params := by
    rintro st rfl
    obtain ⟨hfile, hf, hb, htotal⟩ := ResumeState.load_eq_some (congrArg Prod.fst hload)
    exact ⟨hsame ▸ hfile, hf, hb, htotal⟩
  refine h.advance hgrows (fun _ _ _ hj => by cases hj) hlinked (fun _ _ _ _ hj => by cases hj)
    (fun _ st hst => ?_) (fun node hnode => h.disk node (hresume node hnode))
    (fun _ _ => by rw [hphase]; rfl) fun _ hold => ?_
  · obtain ⟨hfile, hfor⟩ := hloaded st hst
    obtain ⟨node, hnode, hsaved⟩ := Option.map_eq_some_iff.mp hfile
    obtain ⟨r, rfl, hwf⟩ := h.disk node hnode
    exact ⟨hwf st hsaved, hfor⟩
  · refine hold.of_advance hout (fun j => opened_of_advance fun _ => by rw [hphase]; rfl)
      fun j st hst => ?_
    rcases holds_advance hst with ⟨hja, hrecord⟩ | ⟨-, hrecord⟩ | ⟨hsaved, hfor⟩
    · obtain ⟨hfile, hfor⟩ := hloaded st hrecord
      exact Or.inr ⟨hfile, hja.symm ▸ hfor⟩
    · exact Or.inl hrecord
    · obtain ⟨node, hnode, hres⟩ := Option.map_eq_some_iff.mp hsaved
      exact Or.inr ⟨Option.map_eq_some_iff.mpr ⟨node, hresume node hnode, hres⟩, hfor⟩

/-- The state that is saved passes to the rivals that have its numbers. -/
theorem Output.saved (h : Output K d t i w) {fs : Files} {handle : ℕ} {s : RecvFile C.raptorq}
    {due due' : Option SaveOutcome} (hname : (t a).filename = (t i).filename)
    (hphase : w.phase a = .receiving handle s due) (hopen : w.fs.read ((t i).out d) ≠ none)
    (hfor : s.resume.IsFor (t a).params)
    (hread : fs.read ((t i).out d) = w.fs.read ((t i).out d))
    (hdisk : ∀ st, (fs.read ((t i).resumeAt d)).map (Node.toResume K) = some (.saved st) →
      st = s.resume ∨
        (w.fs.read ((t i).resumeAt d)).map (Node.toResume K) = some (.saved st)) :
    Output K d t i (w.advance a fs (.receiving handle s due')) := by
  let saver : Rivals t i := ⟨a, hname⟩
  have hrecord : (w.phase saver).record = some s.resume := congrArg ReceivePhase.record hphase
  have hopened : (w.phase saver).opened = true := congrArg ReceivePhase.opened hphase
  have hunopened : ∀ j : Rivals t i,
      ((w.advance a fs (.receiving handle s due')).phase j).opened = false →
      (w.phase j).opened = false :=
    fun j => opened_of_advance fun hclosed => by cases hclosed
  have hholds : ∀ (j : Rivals t i) st,
      Holds K d t i (w.advance a fs (.receiving handle s due')) j st →
      Holds K d t i w j st ∨ (st = s.resume ∧ st.IsFor (t j).params) := by
    intro j st hst
    rcases holds_advance hst with ⟨hja, hnew⟩ | ⟨-, hold⟩ | ⟨hsaved, hform⟩
    · refine Or.inl (Or.inl ?_)
      rw [hja, hphase]
      exact hnew
    · exact Or.inl (Or.inl hold)
    · rcases hdisk st hsaved with rfl | hold
      · exact Or.inr ⟨rfl, hform⟩
      · exact Or.inl (Or.inr ⟨hold, hform⟩)
  -- a rival that the state is for has the saver's size and block size
  have hsize : ∀ j : Rivals t i, s.resume.IsFor (t j).params →
      (versions t i saver).length = (versions t i j).length ∧
        blockSizes t i saver = blockSizes t i j := by
    intro j hform
    have hsaver := hapart.matches ht saver
    have hrival := hapart.matches ht j
    refine ⟨?_, ?_⟩
    · calc (versions t i saver).length = s.resume.fileSize :=
            (hfor.fileSize_eq.trans hsaver.fileSize_eq).symm
        _ = (versions t i j).length := hform.fileSize_eq.trans hrival.fileSize_eq
    · calc blockSizes t i saver = s.resume.blockSize :=
            (hfor.blockSize_eq.trans hsaver.blockSize_eq).symm
        _ = blockSizes t i j := hform.blockSize_eq.trans hrival.blockSize_eq
  refine ⟨fun j hj hwhy st hst => ?_, fun node hnode => ?_⟩
  · rw [advance_fs, hread] at hwhy
    rcases hholds j st hst with hold | ⟨rfl, hform⟩
    · exact h.early j (hunopened j hj) hwhy st hold
    · -- of versions of two lengths, the saver has that of `j` and so is `j`
      obtain ⟨m, hlen⟩ := hwhy.resolve_left hopen
      rcases (hapart.mergeable.prefixes m j hlen).2 saver with rfl | rfl
      · exact hlen (hsize j hform).1
      · rw [hunopened saver hj] at hopened
        cases hopened
  · rw [advance_fs, hread] at hnode
    obtain ⟨f, rfl, hsized, hright⟩ := h.file node hnode
    refine ⟨f, rfl, hsized, fun j st hst k hk hmark => ?_⟩
    rcases hholds j st hst with hold | ⟨rfl, hform⟩
    · exact hright j st hold k hk hmark
    · obtain ⟨hlen, hblock⟩ := hsize j hform
      exact (hright saver _ (Or.inl hrecord) k (hlen ▸ hk) (hblock ▸ hmark)).of_agreed

/-- **Saving**, or removing the resume file. -/
theorem Inv.save (h : Inv C K d t i w) {handle : ℕ} {s : RecvFile C.raptorq} {save : SaveOutcome}
    (hphase : w.phase a = .receiving handle s (some save)) :
    Inv C K d t i (w.advance a (saveResume w.fs ((t a).resumeAt d) s save)
      (.receiving handle s none)) := by
  have hgrows := grows_saveResume w.fs ((t a).resumeAt d) s save
  have hne := out_ne_resumeAt (d := d) ht hapart a
  have hout : (saveResume w.fs ((t a).resumeAt d) s save).read ((t i).out d)
      = w.fs.read ((t i).out d) := read_saveResume_of_ne w.fs hne s save
  have hlinked : ∀ n, w.fs.Linked ((t i).out d) n →
      (saveResume w.fs ((t a).resumeAt d) s save).Linked ((t i).out d) n :=
    fun n hn => linked_saveResume hn hne s save
  have howns := owns_of_receiving (s := s) (u := none)
    ((h.owns a handle s _ hphase).of_grows hgrows)
  by_cases hname : (t a).filename = (t i).filename
  swap
  · refine h.of_foreign hname hgrows howns hlinked hout (read_saveResume_of_ne w.fs ?_ s save)
    exact fun heq => hname ((Served.resumeAt_eq_iff (ht i) (ht a)).mp heq).symm
  let saver : Rivals t i := ⟨a, hname⟩
  obtain ⟨hopen, hbooks, hprov⟩ := h.task saver handle s _ hphase
  obtain ⟨hwf, hfor⟩ := h.shape saver s.resume (congrArg ReceivePhase.record hphase)
  rw [Rivals.out_eq saver] at hopen
  -- what the resume file holds now: nothing, what it held, junk, or the state
  have hself := read_saveResume_self w.fs ((t a).resumeAt d) s save
  rw [show (t a).resumeAt d = (t i).resumeAt d from Rivals.resumeAt_eq saver] at *
  refine h.advance hgrows howns hlinked ?_ ?_ (fun node hnode => ?_) (fun _ hno => ?_)
    fun _ hold => ?_
  · rintro - handle' s' due' hj
    cases hj
    refine ⟨?_, hbooks, hprov⟩
    rw [show (t a).out d = (t i).out d from Rivals.out_eq saver]
    exact hlinked _ hopen
  · rintro - st hst
    obtain rfl := Option.some.inj hst
    exact ⟨hwf, hfor⟩
  · rcases hself with hnone | hkept | hnew | hnew
    · rw [hnone] at hnode
      cases hnode
    · exact h.disk node (hkept ▸ hnode)
    · rw [hnew] at hnode
      obtain rfl := Option.some.inj hnode
      exact ⟨_, rfl, fun st hst => by cases hst⟩
    · rw [hnew] at hnode
      obtain rfl := Option.some.inj hnode
      refine ⟨_, rfl, fun st hst => ?_⟩
      obtain rfl := ResumeFile.saved.inj hst
      exact hwf
  · rw [hphase]
    exact hno
  · obtain ⟨x, hx⟩ := hopen.exists_read
    refine Output.saved ht hapart hold hname hphase (by rw [hx]; exact Option.some_ne_none x) hfor
      hout fun st hst => ?_
    rcases hself with hnone | hkept | hnew | hnew
    · rw [hnone] at hst
      cases hst
    · rw [hkept] at hst
      exact Or.inr hst
    · rw [hnew] at hst
      cases hst
    · rw [hnew] at hst
      exact Or.inl (ResumeFile.saved.inj (Option.some.inj hst)).symm

omit ht in
/-- **Writing a block of the source** to the file of the name. -/
theorem Output.wrote (h : Output K d t i w) {f : Bytes} {id handle : ℕ} {hash : Hash}
    {s s' : RecvFile C.raptorq} {due due' : Option SaveOutcome} {fs : Files}
    (hname : (t a).filename = (t i).filename) (hphase : w.phase a = .receiving handle s due)
    (hmark : s.resume.markComplete id hash = .ok s'.resume)
    (hid : id * (t a).engine.blockSize < (t a).file.bytes.length)
    (hold : w.fs.read ((t i).out d) = some (.bytes f))
    (hnew : fs.read ((t i).out d) = some (.bytes (Blocks.patch 0 f
      (id * (t a).engine.blockSize) (Blocks.block (t a).engine.blockSize (t a).file.bytes id))))
    (hresume : fs.read ((t i).resumeAt d) = w.fs.read ((t i).resumeAt d)) :
    Output K d t i (w.advance a fs (.receiving handle s' due')) := by
  have hmerge := hapart.mergeable
  let writer : Rivals t i := ⟨a, hname⟩
  have hkept : ∀ (j : Rivals t i) st, ((j : ι) ≠ a ∧ (w.phase j).record = some st) ∨
      ((fs.read ((t i).resumeAt d)).map (Node.toResume K) = some (.saved st) ∧
        st.IsFor (t j).params) → Holds K d t i w j st := by
    rintro j st (⟨-, hrecord⟩ | ⟨hsaved, hfor⟩)
    · exact Or.inl hrecord
    · exact Or.inr ⟨hresume ▸ hsaved, hfor⟩
  refine ⟨h.early_of_written rfl hnew hresume, fun node hnode => ?_⟩
  rw [advance_fs, hnew] at hnode
  obtain rfl := Option.some.inj hnode
  obtain ⟨f', hf', hsized, hright⟩ := h.file _ hold
  obtain rfl := Node.bytes.inj hf'
  refine ⟨_, rfl, hmerge.sized_write (i := writer) hsized hid, fun j st hst k hk hcomplete => ?_⟩
  rcases holds_advance hst with ⟨hja, hrecord⟩ | hother
  · obtain rfl : j = writer := Subtype.ext hja
    obtain rfl := Option.some.inj hrecord
    -- the block that was written, and those that were marked before
    rcases ResumeState.isComplete_of_markComplete hmark hcomplete with hblock | hmarked
    · exact hmerge.right_write (i := writer) hsized hid ⟨hk, hblock⟩
    · refine hmerge.right_of_write (i := writer) hsized hid (hright writer s.resume ?_ k hk hmarked)
      exact Or.inl (congrArg ReceivePhase.record hphase)
  · exact hmerge.right_of_write (i := writer) hsized hid
      (hright j st (hkept j st hother) k hk hcomplete)

omit ht in
/-- **A step of `receive_file`** on the file of the name: a block that is written is the source's. -/
theorem Output.received (h : Output K d t i w) {e : RecvEvent} {handle : ℕ}
    {s s' : RecvFile C.raptorq} {due due' : Option SaveOutcome} {f : Bytes} {fs : Files}
    (hname : (t a).filename = (t i).filename) (hphase : w.phase a = .receiving handle s due)
    (hmatches : (t a).params.Matches (t a).engine (t a).file)
    (hfor : (t a).params.For (t a).file.bytes)
    (hblocks : ∀ block ∈ s.channel, block.blockId < (t a).params.totalBlocks ∧
      block.data = Blocks.block (t a).params.blockSize (t a).file.bytes block.blockId)
    (hwrite : RecvFile.WriteCases C (t a).params { s with file := f } e s')
    (hworks : s'.writer.hasFailed = false)
    (hold : w.fs.read ((t i).out d) = some (.bytes f))
    (hnew : e.writes = true → fs.read ((t i).out d) = some (.bytes s'.file))
    (hkept : e.writes = false → fs = w.fs)
    (hresume : fs.read ((t i).resumeAt d) = w.fs.read ((t i).resumeAt d)) :
    Output K d t i (w.advance a fs (.receiving handle s' due')) := by
  have hsize : (t a).params.blockSize = (t a).engine.blockSize := hmatches.blockSize_eq
  cases hwrite with
  -- a writer that has failed is excluded by `hworks`
  | failed hsame hfailed =>
      rw [hworks] at hfailed
      cases hfailed
  | kept hsame hfile =>
      refine h.of_advance ?_ (fun j => opened_of_advance fun hclosed => by cases hclosed)
        fun j st hst => ?_
      · cases hw : e.writes with
        | true => rw [hnew hw, hold, hfile]
        | false => rw [hkept hw]
      · rcases holds_advance hst with ⟨hja, hrecord⟩ | ⟨-, hrecord⟩ | ⟨hsaved, hform⟩
        · refine Or.inl ?_
          rw [hja, hphase, ← hrecord]
          exact congrArg some hsame.symm
        · exact Or.inl hrecord
        · exact Or.inr ⟨hresume ▸ hsaved, hform⟩
  -- one block is written and marked: it is the block of the source
  | wrote block offset len hwrites hblock hrange hlen hfile hmark =>
      obtain ⟨hid, hdata⟩ := hblocks block hblock
      obtain ⟨rfl, rfl⟩ := RecvParams.writeRange_eq_ok hrange
      have hchunk : block.data.take ((t a).params.blockLen block.blockId)
          = Blocks.block (t a).engine.blockSize (t a).file.bytes block.blockId := by
        rw [hfor.blockLen hid, hdata, List.take_length, hsize]
      refine Output.wrote hapart h hname hphase hmark ?_ hold ?_ hresume
      · have hoff := hfor.fits.offset_lt hid
        rwa [hfor.fileSize_eq, hsize] at hoff
      · rw [hnew hwrites, hfile, hchunk, hsize]

/-- **A step of `receive_file`.** -/
theorem Inv.recv (hC : C.Correct) (h : Inv C K d t i w) {e : RecvEvent} {handle : ℕ}
    {s s' : RecvFile C.raptorq} {due due' : Option SaveOutcome} {bytes : Bytes}
    (hphase : w.phase a = .receiving handle s due)
    (hcontent : content K w.fs handle ((t a).out d) e = some bytes)
    (hhonest : Honest C t w (.recv a e))
    (hstep : RecvFile.step C (t a).params { s with file := bytes } e = some s') :
    Inv C K d t i (w.advance a (if e.writes then w.fs.write handle (.bytes s'.file) else w.fs)
      (.receiving handle s' due')) := by
  have hgrows := FileSystem.grows_write_if w.fs e.writes handle (.bytes s'.file)
  have hkeep : ∀ l n, w.fs.Linked l n →
      (if e.writes then w.fs.write handle (.bytes s'.file) else w.fs).Linked l n :=
    fun _ _ hn => hn.write_if _ _ _
  have howns := h.owns a handle s _ hphase
  have howns' := owns_of_receiving (s := s') (u := due') (howns.of_grows hgrows)
  have hread : ∀ l, l ≠ (t a).out d →
      (if e.writes then w.fs.write handle (.bytes s'.file) else w.fs).read l = w.fs.read l :=
    fun _ hl => howns.read_write_if_of_ne hl _ _
  have hresume := hread _ (resumeAt_ne_out (d := d) ht hapart a)
  -- a task for another name does not touch this output
  by_cases hname : (t a).filename = (t i).filename
  swap
  · exact h.of_foreign hname hgrows howns' (fun n hn => hkeep _ n hn)
      (hread _ fun heq => hname ((Served.out_eq_iff (ht i) (ht a)).mp heq).symm) hresume
  let actor : Rivals t i := ⟨a, hname⟩
  have htask := h.task actor handle s _ hphase
  have hlinked := htask.linked
  obtain ⟨hwf, hfor⟩ := h.shape actor s.resume (congrArg ReceivePhase.record hphase)
  have hmatches : (t a).params.Matches (t a).engine (t a).file := hapart.matches ht actor
  have hsource : (t a).params.For (t a).file.bytes := hapart.for ht actor
  have harrivals := arrivals_of_network hC hmatches (hapart.sendsRaw actor)
    { s with file := bytes } e (by
      have hnet := hhonest { s with file := bytes }
      rwa [Served.sent, sendNegotiated_eq] at hnet)
  have hwrite := RecvFile.write_cases hstep
  refine h.advance hgrows howns' (fun n hn => hkeep _ n hn) ?_ ?_
    (fun node hnode => h.disk node (hresume ▸ hnode)) (fun _ hno => ?_) fun hno hold => ?_
  · rintro - handle' u due'' hj
    cases hj
    exact (htask.withFile bytes).step (hkeep _ handle hlinked) harrivals hstep
  · rintro - st hst
    obtain rfl := Option.some.inj hst
    exact hwrite.shape hwf hfor
  · rw [hphase]
    have hworked : ({ s with file := bytes } : RecvFile C.raptorq).writer.hasFailed = false :=
      RecvFile.hasFailed_of_step hstep hno
    exact hworked
  · -- the content the step works on is that of the output file of the name
    have hout : (t a).out d = (t i).out d := Rivals.out_eq actor
    obtain ⟨node, hnode, hbytes⟩ := htask.exists_read hcontent
    rw [show (t actor).out d = (t i).out d from hout] at hnode
    obtain ⟨f, rfl, -, -⟩ := hold.file node hnode
    obtain rfl : f = bytes := hbytes
    have hworks := hno actor
    rw [show (actor : ι) = a from rfl, advance_phase_self] at hworks
    refine hold.received hapart hname hphase hmatches hsource
      (fun block hblock => htask.block_eq hC hsource hblock) hwrite
      hworks hnode (fun hwrites => ?_) (fun hwrites => ?_) hresume
    · rw [if_pos hwrites, ← hout]
      exact FileSystem.read_write_self hlinked _
    · rw [hwrites]
      rfl

/-- **Opening** the file of the name. The length that is set is that of a version, and what a rival
has written stays right. -/
theorem Output.opened (hinv : Inv C K d t i w) (h : Output K d t i w) {now : ℕ}
    {loaded : Option ResumeState} {fs : Files} {handle : ℕ} {s : RecvFile C.raptorq}
    (hname : (t a).filename = (t i).filename) (hphase : w.phase a = .opening loaded)
    (hs : s = RecvFile.start C.raptorq (t a).params (t a).rngRecv now
      { out := some (((w.fs.read ((t i).out d)).getD (.bytes [])).toBytes K)
        resume := loaded.map .saved })
    (hself : fs.read ((t i).out d) = some (.bytes s.file))
    (hresume : fs.read ((t i).resumeAt d) = w.fs.read ((t i).resumeAt d)) :
    Output K d t i (w.advance a fs (.receiving handle s none)) := by
  let opener : Rivals t i := ⟨a, hname⟩
  have hsize : (t a).params.fileSize = (t a).file.bytes.length :=
    (hapart.matches ht opener).fileSize_eq
  have hunopened : (w.phase opener).opened = false := congrArg ReceivePhase.opened hphase
  -- a state with a mark in it was held before
  have hholds : ∀ (j : Rivals t i) st id, st.isComplete id = true →
      Holds K d t i (w.advance a fs (.receiving handle s none)) j st → Holds K d t i w j st := by
    intro j st id hid hst
    rcases holds_advance hst with ⟨hja, hrecord⟩ | ⟨-, hrecord⟩ | ⟨hsaved, hform⟩
    · refine Or.inl ?_
      obtain rfl := Option.some.inj hrecord
      rw [hja, hphase, hs]
      rw [hs] at hid
      exact RecvFile.loaded_of_isComplete hid
    · exact Or.inl hrecord
    · exact Or.inr ⟨hresume ▸ hsaved, hform⟩
  have hfile : s.file = Blocks.resize 0 (versions t i opener).length
      (((w.fs.read ((t i).out d)).getD (.bytes [])).toBytes K) := by
    rw [hs, RecvFile.start, hsize]
    rfl
  refine ⟨h.early_of_written rfl hself hresume, fun node hnode => ?_⟩
  rw [advance_fs, hself] at hnode
  obtain rfl := Option.some.inj hnode
  refine ⟨s.file, rfl, ?_, fun j st hst k hk hcomplete => ?_⟩
  · rw [hfile]
    exact Versions.sized_resize _ _ _ _
  have hst' := hholds j st _ hcomplete hst
  cases hnode : w.fs.read ((t i).out d) with
  | none =>
      -- nobody has opened a file that is not there
      refine absurd hst' (h.early j ?_ (Or.inl hnode) st)
      cases hj : w.phase j with
      | loading | opening => rfl
      | receiving handle' u due =>
          obtain ⟨x, hx⟩ := (hinv.task j handle' u due hj).linked.exists_read
          rw [j.out_eq, hnode] at hx
          cases hx
  | some node =>
      obtain ⟨f, rfl, hsized, hright⟩ := h.file node hnode
      rw [hfile, hnode]
      refine hapart.mergeable.right_of_resize hsized hk (fun m hlen => ?_)
        (hright j st hst' k hk hcomplete)
      -- a version of another length than all keeps the opener from holding a state
      rintro rfl
      exact h.early opener hunopened (Or.inr ⟨m, hlen⟩) st hst'

/-- **Opening.** -/
theorem Inv.openFile (h : Inv C K d t i w) {now : ℕ} {loaded : Option ResumeState}
    {fs : Files} {handle : ℕ} {s : RecvFile C.raptorq} (hphase : w.phase a = .opening loaded)
    (hopen : w.fs.openAt ((t a).out d) (.bytes []) = (fs, handle))
    (hs : s = RecvFile.start C.raptorq (t a).params (t a).rngRecv now
      { out := some (((w.fs.read ((t a).out d)).getD (.bytes [])).toBytes K)
        resume := loaded.map .saved }) :
    Inv C K d t i (w.advance a (fs.write handle (.bytes s.file)) (.receiving handle s none)) := by
  have hlinked := FileSystem.linked_openWrite hopen (.bytes s.file)
  have hgrows := FileSystem.grows_openWrite hopen (.bytes s.file)
  have hkeep : ∀ n, w.fs.Linked ((t i).out d) n →
      (fs.write handle (.bytes s.file)).Linked ((t i).out d) n :=
    fun n hn => hn.openWrite hopen _
  have hread : ∀ l, l ≠ (t a).out d →
      (fs.write handle (.bytes s.file)).read l = w.fs.read l :=
    fun l hl => FileSystem.read_openWrite_of_ne hopen hl _
  have howns := owns_of_receiving (s := s) (u := none) hlinked.owns
  have hresume := hread _ (resumeAt_ne_out (d := d) ht hapart a)
  by_cases hname : (t a).filename = (t i).filename
  swap
  · exact h.of_foreign hname hgrows howns hkeep
      (hread _ fun heq => hname ((Served.out_eq_iff (ht i) (ht a)).mp heq).symm) hresume
  let opener : Rivals t i := ⟨a, hname⟩
  have hout : (t a).out d = (t i).out d := Rivals.out_eq opener
  -- the state in memory is the one that was loaded, or a new one
  have hheld : ∀ st, loaded = some st → st.WellFormed := by
    intro st hst
    exact (h.shape opener st ((congrArg ReceivePhase.record hphase).trans hst)).1
  have hsound : Disk.Sound
      { out := some (((w.fs.read ((t a).out d)).getD (.bytes [])).toBytes K)
        resume := loaded.map .saved } := by
    intro st hst
    obtain ⟨st', hst', heq⟩ := Option.map_eq_some_iff.mp hst
    obtain rfl := ResumeFile.saved.inj heq
    exact hheld st' hst'
  have hrec := RecvFile.recorded_start (p := (t a).params) C.raptorq (t a).rngRecv now hsound
  rw [← hs] at hrec
  refine h.advance hgrows howns hkeep ?_ ?_ (fun node hnode => h.disk node (hresume ▸ hnode))
    (fun _ _ => by rw [hphase]; rfl) fun _ hold => ?_
  · rintro - handle' u due hj
    cases hj
    refine ⟨hlinked, ?_, ?_⟩
    · rw [hs]
      exact RecvFile.bookkeeping_start _ _ _ _
    · rw [hs]
      exact RecvFile.provenance_start _ _ _
  · rintro - st hst
    obtain rfl := Option.some.inj hst
    exact ⟨hrec.wellFormed, hrec.fileSize_eq, hrec.blockSize_eq, hrec.totalBlocks_eq⟩
  · have hself := FileSystem.read_openWrite_self hopen (.bytes s.file)
    rw [hout] at hs hself
    exact hold.opened ht hapart h hname hphase hs hself hresume

/-- **Every step keeps the invariant.** -/
theorem Inv.step (hC : C.Correct) (h : Inv C K d t i w) {e : ServeEvent ι}
    (hhonest : Honest C t w e) (hstep : ServeTasks.step C K d t w e = some w') :
    Inv C K d t i w' := by
  cases step_cases hstep with
  | load a loaded left fs hphase hload hfs => exact h.load ht hapart hphase hload hfs
  | openFile a now loaded fs handle s hphase hopen hs =>
      exact h.openFile ht hapart hphase hopen hs
  | recv a e handle s s' due due' bytes hphase hcontent hs =>
      exact h.recv ht hapart hC hphase hcontent hhonest hs
  | save a handle s save hphase => exact h.save ht hapart hphase

/-- **The invariant holds in every state reached.** -/
theorem inv_of_reaches (hC : C.Correct) {fs : Files} (hout : fs.read ((t i).out d) = none)
    (hresume : fs.read ((t i).resumeAt d) = none)
    (hrun : Reaches (step C K d t) (Honest C t) (start C.raptorq fs) w) : Inv C K d t i w :=
  hrun.invariant (inv_start hout hresume) fun _ _ _ hinv he hs => hinv.step ht hapart hC he hs

omit [DecidableEq ι] in
/-- When all the transfers of the name have ended complete, the file is one of their sources. -/
theorem Inv.exists_eq (h : Inv C K d t i w) (hfinished : ∀ j : Rivals t i, Finished w j) :
    ∃ j : Rivals t i, w.fs.read ((t i).out d) = some (.bytes (t j).file.bytes) := by
  have hgood : ∀ j : Rivals t i, (w.phase j).hasFailed = false := by
    intro j
    obtain ⟨handle, s, hphase, hdone, -⟩ := hfinished j
    obtain ⟨result, hresult⟩ := WriterTask.exists_of_finished hdone
    rw [hphase]
    show s.writer.hasFailed = false
    rw [hresult]
    rfl
  have hold := h.output hgood
  obtain ⟨handle, s, hphase, -⟩ := hfinished ⟨i, rfl⟩
  obtain ⟨node, hnode⟩ := (h.task ⟨i, rfl⟩ handle s none hphase).linked.exists_read
  obtain ⟨f, rfl, hsized, hright⟩ := hold.file node hnode
  have : Nonempty (Rivals t i) := ⟨⟨i, rfl⟩⟩
  obtain ⟨j, rfl⟩ := Versions.exists_eq_of_right hsized fun j k hk => by
    -- all blocks of transfer `j` are marked
    obtain ⟨handle', u, hphase', -, hcomplete⟩ := hfinished j
    obtain ⟨hwf, hfor⟩ := h.shape j u.resume (by rw [hphase']; rfl)
    have hsource := hapart.for ht j
    have hblock := (hapart.matches ht j).blockSize_eq
    refine hright j u.resume (Or.inl (by rw [hphase']; rfl)) k hk ?_
    refine hwf.isTransferComplete_iff.mp hcomplete _ ?_
    rw [hfor.totalBlocks_eq, hsource.totalBlocks_eq, hblock,
      Blocks.lt_count_iff (hblock ▸ hsource.blockSize_pos)]
    exact lt_of_le_of_lt (Nat.div_mul_le_self k _) hk
  exact ⟨j, hnode⟩

end

/-- **The output file of one name**: whatever the order of the steps of all transfers, when those of
the name have ended complete, it is one of their sources. -/
theorem output_not_mixed (hC : C.Correct) (ht : ∀ i, (t i).Accepted C) (hapart : Apart C t i)
    {fs : Files} (hout : fs.read ((t i).out d) = none)
    (hresume : fs.read ((t i).resumeAt d) = none)
    (hrun : Reaches (step C K d t) (Honest C t) (start C.raptorq fs) w)
    (hfinished : ∀ j : Rivals t i, Finished w j) :
    ∃ j : Rivals t i, w.fs.read ((t i).out d) = some (.bytes (t j).file.bytes) :=
  (inv_of_reaches ht hapart hC hout hresume hrun).exists_eq ht hapart hfinished

/-- **Concurrent transfers do not mix**: when transfers that are apart have all ended complete, each
output path holds one of the sources sent to it. -/
theorem outputs_not_mixed (hC : C.Correct) (ht : ∀ i, (t i).Accepted C)
    (hapart : ∀ i, Apart C t i) {fs : Files} (hout : ∀ i, fs.read ((t i).out d) = none)
    (hresume : ∀ i, fs.read ((t i).resumeAt d) = none)
    (hrun : Reaches (step C K d t) (Honest C t) (start C.raptorq fs) w)
    (hfinished : ∀ i, Finished w i) (i : ι) :
    ∃ j, (t j).out d = (t i).out d ∧
      w.fs.read ((t i).out d) = some (.bytes (t j).file.bytes) := by
  obtain ⟨j, hj⟩ := output_not_mixed hC ht (hapart i) (hout i) (hresume i) hrun
    fun j => hfinished j
  exact ⟨j, j.out_eq, hj⟩

end ServeTasks

namespace Small

/-- A sender of a file `a.bin` of five bytes. -/
def served (file : SourceFile) (sessionId : UInt32) (key : UInt8) : Served :=
  { filename := "a.bin", engine := engine, file := file
    params := { requestParams with
      sessionId := sessionId
      sharedKey := (Vector.replicate KEY_LEN key).toList
      sharedKey_length := by simp }
    skip := [], rngSend := rng, doneAt := 0, rngRecv := rng }

/-- Two senders of that name. -/
def twins (second : SourceFile) : Bool → Served
  | false => served file 9 7
  | true => served second 10 8

/-- A file that differs from `file` in both blocks. -/
def rewrittenFile : SourceFile := ⟨[6, 7, 8, 9, 10], by decide⟩

/-- A file that differs from `file` in the last block. -/
def editedFile : SourceFile := ⟨[1, 2, 3, 4, 6], by decide⟩

def outputDir : OutputDir := ⟨[['h']], "out"⟩

def codec : ResumeCodec := ⟨fun _ => [], fun _ => .corrupt⟩

/-- A block arrives, is decoded and written. -/
def blockEvents (second : SourceFile) (i : Bool) (n : ℕ) : List (ServeEvent Bool) :=
  [.recv i (.datagram clock (((twins second i).sent PlainCrates.plainCrates).getD n [])),
    .recv i .send, .recv i (.take .written)]

def endEvents (i : Bool) : List (ServeEvent Bool) :=
  [.recv i .exitAll, .recv i (.finish .written), .save i]

/-- Both open the file; then the second writes all of it between the two blocks of the first. -/
def twinEvents (second : SourceFile) : List (ServeEvent Bool) :=
  [.load false, .load true, .openFile false 0, .openFile true 0] ++ blockEvents second false 0 ++
    blockEvents second true 0 ++ blockEvents second true 1 ++ blockEvents second false 1 ++
    endEvents false ++ endEvents true

section

variable {ι : Type} {t : ι → Served}

/-- Each datagram is its sender's. -/
def sentCheck (t : ι → Served) :
    ServeTasks PlainCrates.plainCrates.raptorq ι → ServeEvent ι → Bool
  | _, .recv i (.datagram _ data) =>
      ((t i).sent PlainCrates.plainCrates).any fun d => decide (d = data)
  | _, _ => true

theorem honest_of_sentCheck (w : ServeTasks PlainCrates.plainCrates.raptorq ι) (e : ServeEvent ι)
    (h : sentCheck t w e = true) : ServeTasks.Honest PlainCrates.plainCrates t w e := by
  cases e with
  | recv i e =>
      rintro s now data rfl
      obtain ⟨d, hd, heq⟩ := List.any_eq_true.mp h
      exact Or.inl (of_decide_eq_true heq ▸ hd)
  | _ => trivial

def hasEnded (w : ServeTasks PlainCrates.plainCrates.raptorq ι) (i : ι) : Bool :=
  match w.phase i with
  | .receiving _ s none => s.writer.finished && s.resume.isTransferComplete
  | _ => false

theorem finished_of_hasEnded {w : ServeTasks PlainCrates.plainCrates.raptorq ι} {i : ι}
    (h : hasEnded w i = true) : w.Finished i := by
  unfold hasEnded at h
  split at h
  · next handle s hphase =>
      simp only [Bool.and_eq_true] at h
      exact ⟨handle, s, hphase, h.1, h.2⟩
  · cases h

end

theorem rewrittenFile_accepted (i : Bool) :
    (twins rewrittenFile i).Accepted PlainCrates.plainCrates := by
  cases i <;> exact ⟨⟨by decide, by decide⟩, _, Vector.replicate KEY_LEN _, 1000, _, rfl, rfl⟩

theorem editedFile_accepted (i : Bool) :
    (twins editedFile i).Accepted PlainCrates.plainCrates := by
  cases i <;> exact ⟨⟨by decide, by decide⟩, _, Vector.replicate KEY_LEN _, 1000, _, rfl, rfl⟩

/-- **Two files of one name are mixed**: both transfers end complete, and the output file has the
first block of one source and the last block of the other. -/
theorem twins_mixed :
    (∀ i, (twins rewrittenFile i).Accepted PlainCrates.plainCrates) ∧
    ∃ w, Reaches (ServeTasks.step PlainCrates.plainCrates codec outputDir (twins rewrittenFile))
        (ServeTasks.Honest PlainCrates.plainCrates (twins rewrittenFile))
        (ServeTasks.start PlainCrates.plainCrates.raptorq (FileSystem.empty _ _)) w ∧
      (∀ i, w.Finished i) ∧
      ∀ i j, w.fs.read ((twins rewrittenFile i).out outputDir)
        ≠ some (.bytes (twins rewrittenFile j).file.bytes) := by
  obtain ⟨w, hw, hcheck⟩ := exists_of_runAll
    (guarded (sentCheck (twins rewrittenFile))
      (ServeTasks.step PlainCrates.plainCrates codec outputDir (twins rewrittenFile)))
    (ServeTasks.start PlainCrates.plainCrates.raptorq (FileSystem.empty _ _))
    (twinEvents rewrittenFile)
    (fun w => hasEnded w false && hasEnded w true &&
      decide (w.fs.read ((twins rewrittenFile false).out outputDir) = some (.bytes [6, 7, 8, 9, 5])))
    (by decide +kernel)
  simp only [Bool.and_eq_true, decide_eq_true_eq] at hcheck
  obtain ⟨⟨hfirst, hsecond⟩, hread⟩ := hcheck
  refine ⟨rewrittenFile_accepted, w, Reaches.of_guarded _ honest_of_sentCheck hw, ?_, ?_⟩
  · intro i
    cases i with
    | false => exact finished_of_hasEnded hfirst
    | true => exact finished_of_hasEnded hsecond
  · intro i j
    have hsame : (twins rewrittenFile i).out outputDir =
        (twins rewrittenFile false).out outputDir := by
      cases i <;> rfl
    rw [hsame, hread]
    cases j <;> decide

/-- The two sources differ in the last byte only. -/
theorem not_disputed_twins (i : Bool) {k : ℕ} (hk : k < 4) :
    ¬ Versions.Disputed (versions (twins editedFile) i) k := by
  rintro ⟨⟨a, ha⟩, ⟨b, hb⟩, hne⟩
  refine hne ?_
  show (twins editedFile a).file.bytes[k]? = (twins editedFile b).file.bytes[k]?
  interval_cases k <;> cases a <;> cases b <;> rfl

theorem twins_apart (i : Bool) : Apart PlainCrates.plainCrates (twins editedFile) i where
  names := by
    intro j
    cases i <;> cases j <;> decide
  mergeable := by
    have hlen : ∀ a : Bool, (twins editedFile a).file.bytes.length = 5 := by
      intro a
      cases a <;> rfl
    have hsize : ∀ m, blockSizes (twins editedFile) i m = 4 := by
      rintro ⟨a, ha⟩
      cases a <;> rfl
    refine ⟨fun m => by rw [hsize]; decide, ?_, ?_⟩
    · rintro ⟨a, ha⟩
      refine ⟨1, fun k hk hd => ?_⟩
      have hk' : k < (twins editedFile a).file.bytes.length := hk
      rw [hlen] at hk'
      rw [hsize]
      by_contra hne
      exact not_disputed_twins i (by omega) hd
    · rintro ⟨a, ha⟩ ⟨b, hb⟩ hne
      exact absurd ((hlen a).trans (hlen b).symm) hne
  blockSize_lt := by
    rintro ⟨a, ha⟩
    show (twins editedFile a).engine.blockSize < 2 ^ 32
    clear ha
    cases a <;> decide
  count_lt := by
    rintro ⟨a, ha⟩
    show Blocks.count (twins editedFile a).file.bytes.length (twins editedFile a).engine.blockSize
      < 2 ^ 32
    clear ha
    cases a <;> decide
  sendsRaw := by
    rintro ⟨a, ha⟩
    cases a <;> exact SendEngine.sendsRaw_of_off rfl

/-- Two files of one name that differ in their last block: the one that is written last is there. -/
theorem outputs_not_mixed_twins :
    ∃ w : ServeTasks PlainCrates.plainCrates.raptorq Bool,
      Reaches (ServeTasks.step PlainCrates.plainCrates codec outputDir (twins editedFile))
        (ServeTasks.Honest PlainCrates.plainCrates (twins editedFile))
        (ServeTasks.start PlainCrates.plainCrates.raptorq (FileSystem.empty _ _)) w ∧
      ∃ j, (twins editedFile j).out outputDir = (twins editedFile false).out outputDir ∧
        w.fs.read ((twins editedFile false).out outputDir)
          = some (.bytes (twins editedFile j).file.bytes) := by
  obtain ⟨w, hw, hcheck⟩ := exists_of_runAll
    (guarded (sentCheck (twins editedFile))
      (ServeTasks.step PlainCrates.plainCrates codec outputDir (twins editedFile)))
    (ServeTasks.start PlainCrates.plainCrates.raptorq (FileSystem.empty _ _))
    (twinEvents editedFile) (fun w => hasEnded w false && hasEnded w true)
    (by decide +kernel)
  rw [Bool.and_eq_true] at hcheck
  have hrun := Reaches.of_guarded _ honest_of_sentCheck hw
  refine ⟨w, hrun, ?_⟩
  refine ServeTasks.outputs_not_mixed PlainCrates.plainCrates_correct editedFile_accepted
    twins_apart (fun _ => FileSystem.read_empty _) (fun _ => FileSystem.read_empty _) hrun
    (fun i => ?_) false
  cases i with
  | false => exact finished_of_hasEnded hcheck.1
  | true => exact finished_of_hasEnded hcheck.2

end Small

end Updown
