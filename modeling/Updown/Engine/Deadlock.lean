import Updown.Engine.RecvSafety

set_option autoImplicit false

/-! # The receive task and the writer

The two tasks of `receive_file` count completion differently: the writer starts at the number of
blocks the resume state has marked, the receive task starts at none and decodes marked blocks
again. `Deadlocked` is a state in which the writer has left its loop and waits for the receive
task, which waits for room on the channel. `no_deadlock_iff` says which resume states can lead
there, well formed or not: the writer needs blocks it can count to the end, and 65 others.
-/

namespace Updown.RecvFile

open Transition

variable {C : Crates} {p : RecvParams} {rng : ℕ → Vector UInt8 4} {now : ℕ} {disk : Disk}
  {s : RecvFile C.raptorq}

/-- The writer awaits the receive task, which is blocked on a full channel. -/
structure Deadlocked {Q : RaptorQ} (p : RecvParams) (s : RecvFile Q) : Prop where
  awaiting : s.writer = .awaiting
  written : p.totalBlocks ≤ s.blocksWritten
  sending : ∃ block, s.task = .sending block
  full : CHANNEL_CAPACITY ≤ s.channel.length

/-- No step of the two tasks is possible in a deadlock. -/
theorem Deadlocked.step_eq_none (h : s.Deadlocked p) {e : RecvEvent}
    (hio : e ≠ .ioFails) : RecvFile.step C p s e = none := by
  obtain ⟨hawait, -, ⟨block, htask⟩, hfull⟩ := h
  have hroom : ¬ s.channel.length < CHANNEL_CAPACITY := Nat.not_lt.mpr hfull
  cases e with
  | ioFails => exact absurd rfl hio
  | _ => simp [step, hawait, htask, hroom, WriterTask.channelOpen]

/-! ## What the writer has counted -/

/-- The writer's count and bitmap since the state `s₀`: it has counted some of the blocks it has
taken, which were not marked in `s₀` and could be, and it leaves its loop only when it has counted
one or the receive task has ended. -/
structure CountedSince {Q : RaptorQ} (s₀ s : RecvFile Q) : Prop where
  bitmap_length : s.resume.completedBlocks.length = s₀.resume.completedBlocks.length
  hashes_length : s.resume.blockHashes.length = s₀.resume.blockHashes.length
  marks : ∀ id, s₀.resume.isComplete id = true → s.resume.isComplete id = true
  counted : ∃ (taken : List ReceivedBlock) (ids : List ℕ), s.log.delivered = taken ++ s.channel ∧
    ids.Sublist (taken.map (·.blockId)) ∧ s.blocksWritten = s₀.blocksWritten + ids.length ∧
    ∀ id ∈ ids, s₀.resume.Recordable id
  count_lt : s.blocksWritten < 2 ^ 32
  awaiting : s.writer = .awaiting → s.task.ended = true ∨ s₀.blocksWritten < s.blocksWritten

theorem countedSince_start (Q : RaptorQ) (rng : ℕ → Vector UInt8 4) (now : ℕ) (disk : Disk) :
    CountedSince (start Q p rng now disk) (start Q p rng now disk) where
  bitmap_length := rfl
  hashes_length := rfl
  marks := fun _ h => h
  counted := ⟨[], [], rfl, List.Sublist.slnil, rfl, by simp⟩
  count_lt := Nat.mod_lt _ (by norm_num)
  awaiting := by intro hw; cases hw

/-- A step of the receive task alone keeps the count. -/
theorem CountedSince.of_eq {Q : RaptorQ} {s₀ s s' : RecvFile Q} (h : CountedSince s₀ s)
    (hresume : s'.resume = s.resume) (hwritten : s'.blocksWritten = s.blocksWritten)
    (htaken : ∀ taken, s.log.delivered = taken ++ s.channel →
      s'.log.delivered = taken ++ s'.channel)
    (hawait : s'.writer = .awaiting →
      s'.task.ended = true ∨ s.writer = .awaiting ∧ s.task.ended = false) :
    CountedSince s₀ s' := by
  obtain ⟨taken, ids, heq, hids, hcount⟩ := h.counted
  refine ⟨hresume ▸ h.bitmap_length, hresume ▸ h.hashes_length, hresume ▸ h.marks,
    ⟨taken, ids, htaken taken heq, hids, hwritten ▸ hcount⟩, hwritten ▸ h.count_lt, fun hw => ?_⟩
  rw [hwritten]
  rcases hawait hw with hend | ⟨hw', hend⟩
  · exact Or.inl hend
  · refine Or.inr ((h.awaiting hw').resolve_left ?_)
    rw [hend]
    exact Bool.false_ne_true

/-- A block that is taken and not counted. -/
theorem CountedSince.uncounted {Q : RaptorQ} {s₀ s s' : RecvFile Q} {block : ReceivedBlock}
    (h : CountedSince s₀ s) (hchannel : s.channel = block :: s'.channel)
    (hresume : s'.resume = s.resume) (hwritten : s'.blocksWritten = s.blocksWritten)
    (hdelivered : s'.log.delivered = s.log.delivered) (hwriter : s'.writer ≠ .awaiting) :
    CountedSince s₀ s' := by
  obtain ⟨taken, ids, heq, hids, hcount, hnew⟩ := h.counted
  refine ⟨hresume ▸ h.bitmap_length, hresume ▸ h.hashes_length, hresume ▸ h.marks,
    ⟨taken ++ [block], ids, ?_, ?_, hwritten ▸ hcount, hnew⟩, hwritten ▸ h.count_lt,
    fun hw => absurd hw hwriter⟩
  · rw [hdelivered, heq, hchannel, List.append_assoc, List.singleton_append]
  · rw [List.map_append]
    exact hids.trans (List.sublist_append_left _ _)

/-- The writer takes a block. -/
theorem CountedSince.take {save : SaveOutcome} {s₀ s s' : RecvFile C.raptorq}
    {block : ReceivedBlock} {rest : List ReceivedBlock} (h : CountedSince s₀ s)
    (hwriter : s.writer = .looping) (hchannel : s.channel = block :: rest)
    (htake : TakeCases C p save { s with channel := rest } block s') : CountedSince s₀ s' := by
  cases htake with
  | skipped => exact h.uncounted hchannel rfl rfl rfl (by rw [hwriter]; simp)
  | rangeFault | sliceFault | markFault => exact h.uncounted hchannel rfl rfl rfl (by simp)
  | wrote offset len resume hnew hrange hlen hmark hcount =>
      obtain ⟨taken, ids, heq, hids, hwritten, hids₀⟩ := h.counted
      obtain ⟨-, -, -, hbits, hhashes⟩ := ResumeState.markComplete_frame hmark
      refine ⟨hbits.trans h.bitmap_length, hhashes.trans h.hashes_length, fun id hid => ?_,
        ⟨taken ++ [block], ids ++ [block.blockId], ?_, ?_, ?_, ?_⟩, hcount, fun _ => Or.inr ?_⟩
      · rw [recordBlock_resume, ResumeState.isComplete_markComplete_iff hmark]
        simp [h.marks id hid]
      · show s.log.delivered = taken ++ [block] ++ rest
        rw [heq, hchannel, List.append_assoc, List.singleton_append]
      · rw [List.map_append]
        exact hids.append (List.Sublist.refl _)
      · show s.blocksWritten + 1 = _
        rw [hwritten, List.length_append, List.length_singleton, Nat.add_assoc]
      · refine List.forall_mem_append.mpr ⟨hids₀, List.forall_mem_singleton.mpr ⟨?_, ?_⟩⟩
        · -- it is not marked now, so it was not marked then
          by_contra hmarked
          have := h.marks _ (by simpa using hmarked)
          rw [show s.resume.isComplete block.blockId = false from hnew] at this
          cases this
        · rw [← h.bitmap_length, ← h.hashes_length]
          exact ResumeState.lt_hashes_of_markComplete hmark
      · show s₀.blocksWritten < s.blocksWritten + 1
        omega

/-- **Every step keeps the count.** -/
theorem CountedSince.step {s₀ s s' : RecvFile C.raptorq} {e : RecvEvent}
    (h : CountedSince s₀ s) (hstep : RecvFile.step C p s e = some s') : CountedSince s₀ s' := by
  cases step_cases hstep with
  | datagram now data r res htask =>
      exact h.of_eq rfl rfl (fun _ ht => ht) fun hw => Or.inr ⟨hw, by rw [htask]; rfl⟩
  | recvError => exact h
  | idleTimeout | exitAll | sendFailed =>
      exact h.of_eq rfl rfl (fun _ ht => ht) fun _ => Or.inl rfl
  | send block htask =>
      refine h.of_eq rfl rfl (fun taken ht => ?_) fun hw => Or.inr ⟨hw, by rw [htask]; rfl⟩
      simp only [pushBlock, ht, List.append_assoc]
  | take save block rest s' hwriter hchannel htake => exact h.take hwriter hchannel htake
  | writeFails n block rest s' hwriter hchannel hnew hfail =>
      cases hfail with
      | rangeFault | sliceFault | partly => exact h.uncounted hchannel rfl rfl rfl (by simp)
  | channelEnd hwriter hchannel hended =>
      exact h.of_eq rfl rfl (fun _ ht => ht) fun _ => Or.inl hended
  | finish | joinFails | ioFails =>
      exact h.of_eq rfl rfl (fun _ ht => ht) fun hw => by cases hw

theorem countedSince_of_reaches {P : RecvFile C.raptorq → RecvEvent → Prop}
    (h : Reaches (RecvFile.step C p) P (start C.raptorq p rng now disk) s) :
    CountedSince (start C.raptorq p rng now disk) s :=
  h.invariant (countedSince_start _ rng now disk) fun _ _ _ hu _ hs => hu.step hs

/-! ## The blocks a deadlock takes -/

/-- The blocks the writer has to count before it leaves its loop: one at least. -/
def blocksToCount (p : RecvParams) (resume : ResumeState) : ℕ :=
  max 1 (p.totalBlocks - resume.completedCount)

/-- Besides the blocks the writer counts there are 65 others, for the channel and one in hand, and
its count does not overflow. -/
structure BlocksLeft (p : RecvParams) (resume : ResumeState) : Prop where
  count_lt : resume.completedCount + 1 < 2 ^ 32
  others : blocksToCount p resume + (CHANNEL_CAPACITY + 1) ≤ p.totalBlocks

/-- And as many blocks can be counted. -/
structure CanDeadlock (p : RecvParams) (resume : ResumeState) : Prop where
  left : BlocksLeft p resume
  recordable : blocksToCount p resume ≤ (resume.recordableIds p.totalBlocks).length

/-- **A deadlock takes that many blocks**, and of the counted ones some list is among those the
writer has taken. -/
theorem Deadlocked.blocksLeft {P : RecvFile C.raptorq → RecvEvent → Prop} (h : s.Deadlocked p)
    (hrun : Reaches (RecvFile.step C p) P (start C.raptorq p rng now disk) s) :
    BlocksLeft p (start C.raptorq p rng now disk).resume ∧
    ∃ ids : List ℕ, ids.Nodup ∧
      blocksToCount p (start C.raptorq p rng now disk).resume ≤ ids.length ∧
      ∀ id ∈ ids, (start C.raptorq p rng now disk).resume.Recordable id ∧
        ∃ block ∈ s.decodedBlocks, block.blockId = id := by
  obtain ⟨hawait, hwritten, ⟨block, htask⟩, hfull⟩ := h
  have hbook := bookkeeping_of_reaches hrun
  have hsince := countedSince_of_reaches hrun
  obtain ⟨taken, ids, htaken, hids, hcount, hnew⟩ := hsince.counted
  have hstart : (start C.raptorq p rng now disk).blocksWritten
      = (start C.raptorq p rng now disk).resume.completedCount := rfl
  have hgrown : (start C.raptorq p rng now disk).blocksWritten < s.blocksWritten := by
    refine (hsince.awaiting hawait).resolve_left ?_
    rw [htask]
    exact Bool.false_ne_true
  have hlt := hsince.count_lt
  have hle : blocksToCount p (start C.raptorq p rng now disk).resume ≤ ids.length := by
    unfold blocksToCount
    omega
  have htakenLen := hids.length_le
  rw [List.length_map] at htakenLen
  -- the blocks taken, those on the channel and the one in hand are all different
  have hblocks : taken.length + s.channel.length + 1 ≤ p.totalBlocks := by
    obtain ⟨lost, hcomp, -⟩ := hbook.completed
    have hlen := hbook.length_le
    rw [hcomp, decodedBlocks, htask, htaken] at hlen
    simp only [RecvTask.inHand, List.map_append, List.length_append, List.length_map,
      List.length_singleton] at hlen
    omega
  have hnodup : (taken.map (·.blockId)).Nodup := by
    have h := hbook.nodup_delivered
    rw [htaken, List.map_append] at h
    exact h.of_append_left
  refine ⟨⟨by omega, by omega⟩, ids, hids.nodup hnodup, hle, fun id hid => ⟨hnew id hid, ?_⟩⟩
  obtain ⟨taken', hmem, hblock⟩ := List.mem_map.mp (hids.subset hid)
  exact ⟨taken', by simp [decodedBlocks, htaken, hmem], hblock⟩

/-- With block ids in range the counted ones are blocks of the transfer. -/
theorem Deadlocked.canDeadlock (h : s.Deadlocked p)
    (hrun : Reaches (RecvFile.step C p) (IdsBelow C p) (start C.raptorq p rng now disk) s) :
    CanDeadlock p (start C.raptorq p rng now disk).resume := by
  obtain ⟨hleft, ids, hnodup, hle, hids⟩ := h.blocksLeft hrun
  refine ⟨hleft, hle.trans (hnodup.subperm fun id hid => ?_).length_le⟩
  obtain ⟨hrecordable, block, hblock, rfl⟩ := hids id hid
  obtain ⟨-, hlt⟩ :=
    ((provenance_of_reaches arrivals_of_idsBelow hrun).blocks block hblock).exists_packet
  exact ResumeState.mem_recordableIds.mpr ⟨hlt, hrecordable⟩

/-! ## The way there -/

theorem permits_idsBelow : Permits (IdsBelow C p) where
  send := by intro s now data h; cases h
  take := by intro s save now data h; cases h

/-- With the writer out of its loop, 65 blocks that are supplied block the receive task. -/
theorem exists_deadlocked_of_awaiting (hC : C.Correct) (hfits : p.Fits)
    (hbook : s.Bookkeeping p) (hidle : s.Idle) (hwriter : s.writer = .awaiting)
    (hwritten : p.totalBlocks ≤ s.blocksWritten) (hchannel : s.channel = []) {data : ℕ → Bytes}
    {ids : List ℕ} {last : ℕ} (hlen : ids.length = CHANNEL_CAPACITY)
    (hsup : Supplied C p (IdsBelow C p) data (ids ++ [last]))
    (hunseen : ∀ id ∈ ids ++ [last], id ∉ s.receiver.completedBlocks)
    (hroom : s.receiver.completedBlocks.length + (ids.length + 1) ≤ p.totalBlocks) :
    ∃ s', Reaches (RecvFile.step C p) (IdsBelow C p) s s' ∧ s'.Deadlocked p := by
  have hnodup := List.nodup_append.mp hsup.nodup
  have hids : Supplied C p (IdsBelow C p) data ids :=
    ⟨hnodup.1, fun id hid => hsup.lt id (by simp [hid]), fun id hid => hsup.length id (by simp [hid]),
      fun id hid => hsup.small id (by simp [hid]), fun id hid => hsup.supply id (by simp [hid])⟩
  -- the channel fills
  obtain ⟨s₁, hreach₁, hidle₁, hlen₁, hcomp₁, hwritten₁, hwriter₁⟩ :=
    exists_queued_list hC hfits permits_idsBelow hbook hidle (by rw [hwriter]; rfl)
      (by rw [hchannel, List.length_nil]; omega) hids (fun id hid => hunseen id (by simp [hid]))
      (by omega)
  have hbook₁ : s₁.Bookkeeping p := hreach₁.invariant hbook fun _ _ _ h _ hs => h.step hs
  -- one more block is decoded, and there is no room for it
  have hnew : last ∉ s₁.receiver.completedBlocks := by
    rw [hcomp₁, List.mem_append]
    rintro (hmem | hmem)
    · exact hunseen last (by simp) hmem
    · exact hnodup.2.2 last hmem last (by simp) rfl
  have hroom₁ : s₁.receiver.completedBlocks.length < p.totalBlocks := by
    rw [hcomp₁, List.length_append]
    omega
  obtain ⟨s₂, block, hreach₂, hdec, -⟩ := exists_decoded hC hfits hbook₁ hidle₁
    (hsup.lt last (by simp)) hnew hroom₁ (hsup.length last (by simp)) (hsup.small last (by simp))
    (hsup.supply last (by simp))
  refine ⟨s₂, hreach₁.trans hreach₂, ?_, ?_, ⟨block, hdec.task⟩, ?_⟩
  · rw [hdec.same.writer, hwriter₁, hwriter]
  · rw [hdec.same.blocksWritten, hwritten₁]
    exact hwritten
  · rw [hdec.same.channel, hlen₁, hlen]
    omega

/-- A long list starts with `n` elements and one more. -/
theorem exists_prefix {α : Type*} {l : List α} {n : ℕ} (h : n + 1 ≤ l.length) :
    ∃ ids last rest, l = (ids ++ [last]) ++ rest ∧ ids.length = n := by
  refine ⟨l.take n, l[n], l.drop (n + 1), ?_, by rw [List.length_take]; omega⟩
  rw [List.take_append_getElem, List.take_append_drop]

theorem le_length_filter_notMem (first : List ℕ) (n : ℕ) :
    n ≤ first.length + ((List.range n).filter fun id => id ∉ first).length := by
  have hsplit := List.length_eq_length_filter_add (l := List.range n) (· ∈ first)
  have hinFirst : ((List.range n).filter (· ∈ first)).length ≤ first.length :=
    ((List.nodup_range.filter _).subperm fun id hid => by
      simpa using (List.mem_filter.mp hid).2).length_le
  have hsame : (List.range n).filter (fun id => !decide (id ∈ first))
      = (List.range n).filter fun id => id ∉ first := by simp
  rw [List.length_range, hsame] at hsplit
  omega

/-- Of the `n` blocks without the first ones, `k` and one more are left. -/
theorem exists_others {first : List ℕ} {k n : ℕ} (h : first.length + (k + 1) ≤ n) :
    ∃ (ids : List ℕ) (last : ℕ), ids.length = k ∧ (ids ++ [last]).Nodup ∧
      ∀ id ∈ ids ++ [last], id < n ∧ id ∉ first := by
  have hle := le_length_filter_notMem first n
  obtain ⟨ids, last, rest, hids, hlen⟩ :=
    exists_prefix (l := (List.range n).filter fun id => id ∉ first) (n := k) (by omega)
  have hnodup : ((List.range n).filter fun id => id ∉ first).Nodup := List.nodup_range.filter _
  rw [hids] at hnodup
  refine ⟨ids, last, hlen, (List.nodup_append.mp hnodup).1, fun id hid => ?_⟩
  have hmem : id ∈ (List.range n).filter fun id => id ∉ first :=
    hids ▸ List.mem_append_left _ hid
  simpa using hmem

/-- **So many blocks are enough for a deadlock**: the writer counts to its end, and nobody takes the
others, which are decoded all the same. -/
theorem exists_deadlocked (hC : C.Correct) (rng : ℕ → Vector UInt8 4) (now : ℕ) (disk : Disk)
    (hb : 1 ≤ p.blockSize) (hblock : p.blockSize < 2 ^ 32)
    (htotal : p.totalBlocks = Blocks.count p.fileSize p.blockSize)
    (hcan : CanDeadlock p (start C.raptorq p rng now disk).resume) :
    ∃ s, Reaches (RecvFile.step C p) (IdsBelow C p) (start C.raptorq p rng now disk) s ∧
      s.Deadlocked p := by
  obtain ⟨⟨hcount, hothers⟩, hrecordable⟩ := hcan
  -- any source will do
  have hfor : p.For (List.replicate p.fileSize 0) := ⟨hb, by simp, by simp [htotal]⟩
  have hsupply : ∀ id < p.totalBlocks, Supply C p (IdsBelow C p) id
      (Blocks.block p.blockSize (List.replicate p.fileSize 0) id) := by
    intro id hid
    have hbound := p.totalBlocks_lt
    refine supply_of_peer hC (by omega) fun q d _ hopens _ _ _ _ he id' plain hopens' => ?_
    cases he
    obtain ⟨rfl, -⟩ := Prod.mk.inj (Option.some.inj (hopens.symm.trans hopens'))
    exact hid
  have hsupplied : ∀ {ids : List ℕ}, ids.Nodup → (∀ id ∈ ids, id < p.totalBlocks) →
      Supplied C p (IdsBelow C p) (Blocks.block p.blockSize (List.replicate p.fileSize 0)) ids :=
    fun hnodup hlt => supplied_of_for hfor hblock hnodup hlt fun id hid => hsupply id (hlt id hid)
  have hwritten₀ : (start C.raptorq p rng now disk).blocksWritten
      = (start C.raptorq p rng now disk).resume.completedCount := rfl
  have hbook₀ := bookkeeping_start (p := p) C.raptorq rng now disk
  generalize hs₀ : start C.raptorq p rng now disk = s₀ at *
  have hidle₀ : s₀.Idle := hs₀ ▸ idle_start _ _ _ _
  have hcomp₀ : s₀.receiver.completedBlocks = [] := hs₀ ▸ rfl
  -- the first blocks are counted, and the writer leaves its loop
  set k := blocksToCount p s₀.resume with hk
  have hkpos : 1 ≤ k := le_max_left _ _
  have hkle : p.totalBlocks - s₀.resume.completedCount ≤ k := le_max_right _ _
  have hkone : k = 1 ∨ k = p.totalBlocks - s₀.resume.completedCount := by
    rw [hk, blocksToCount]
    omega
  obtain ⟨first, hfirst, hfirstLen⟩ : ∃ first : List ℕ,
      first.Sublist (s₀.resume.recordableIds p.totalBlocks) ∧
      first.length = k :=
    ⟨_, List.take_sublist k _, by rw [List.length_take, min_eq_left hrecordable]⟩
  have hfirstMem : ∀ id ∈ first, id < p.totalBlocks ∧ s₀.resume.Recordable id :=
    fun id hid => ResumeState.mem_recordableIds.mp (hfirst.subset hid)
  have hfirstNodup : first.Nodup := hfirst.nodup (s₀.resume.nodup_recordableIds _)
  have hbound := p.totalBlocks_lt
  obtain ⟨s₁, hreach₁, hw⟩ := exists_written_list hC hfor.fits permits_idsBelow hbook₀ hidle₀
    (hs₀ ▸ rfl) (hs₀ ▸ rfl) (hsupplied hfirstNodup fun id hid => (hfirstMem id hid).1)
    (fun id hid => ⟨by simp [hcomp₀], (hfirstMem id hid).2.unmarked, (hfirstMem id hid).2.hash⟩)
    (by rw [hcomp₀, List.length_nil]; omega) (by omega) (by omega)
  have hbook₁ : s₁.Bookkeeping p := hreach₁.invariant hbook₀ fun _ _ _ h _ hs => h.step hs
  have hwritten₁ : p.totalBlocks ≤ s₁.blocksWritten := by
    rw [hw.blocksWritten]
    omega
  have hwriter₁ : s₁.writer = .awaiting := by
    rw [hw.writer, if_neg (by rintro rfl; simp at hfirstLen; omega), writerAfter,
      if_pos hwritten₁]
  have hcomp₁ : s₁.receiver.completedBlocks = first := by
    rw [hw.completed, hcomp₀, List.nil_append]
  -- 65 of the others follow
  obtain ⟨ids, last, hlen, hnodup, hmem⟩ :
      ∃ (ids : List ℕ) (last : ℕ), ids.length = CHANNEL_CAPACITY ∧ (ids ++ [last]).Nodup ∧
        ∀ id ∈ ids ++ [last], id < p.totalBlocks ∧ id ∉ first :=
    exists_others (hfirstLen ▸ hothers)
  have hroom : s₁.receiver.completedBlocks.length + (ids.length + 1) ≤ p.totalBlocks := by
    rw [hcomp₁, hlen, hfirstLen]
    exact hothers
  obtain ⟨s₂, hreach₂, hdead⟩ := exists_deadlocked_of_awaiting hC hfor.fits hbook₁ hw.idle hwriter₁
    hwritten₁ hw.channel hlen (hsupplied hnodup fun id hid => (hmem id hid).1)
    (fun id hid => by rw [hcomp₁]; exact (hmem id hid).2) hroom
  exact ⟨s₂, hreach₁.trans hreach₂, hdead⟩

/-- **Which transfers cannot deadlock**: whatever arrives, those that do not have blocks enough; and,
when block ids are in range, exactly those that do not have enough of either kind. -/
theorem no_deadlock_iff (hC : C.Correct) (p : RecvParams) (rng : ℕ → Vector UInt8 4) (now : ℕ)
    (disk : Disk) :
    (¬ BlocksLeft p (start C.raptorq p rng now disk).resume →
      ∀ s, Reaches (RecvFile.step C p) (fun _ _ => True) (start C.raptorq p rng now disk) s →
        ¬ s.Deadlocked p) ∧
    (1 ≤ p.blockSize → p.blockSize < 2 ^ 32 →
      p.totalBlocks = Blocks.count p.fileSize p.blockSize →
      ((∀ s, Reaches (RecvFile.step C p) (IdsBelow C p) (start C.raptorq p rng now disk) s →
          ¬ s.Deadlocked p) ↔
        ¬ CanDeadlock p (start C.raptorq p rng now disk).resume)) := by
  refine ⟨fun hfew s hrun hdead => hfew (hdead.blocksLeft hrun).1, fun hb hblock htotal => ?_⟩
  constructor
  · intro hnone hcan
    obtain ⟨s, hrun, hdead⟩ := exists_deadlocked hC rng now disk hb hblock htotal hcan
    exact hnone s hrun hdead
  · exact fun hcannot s hrun hdead => hcannot (hdead.canDeadlock hrun)

/-- With one entry of bitmap and hashes for each block: more than 64 blocks are marked, and one is
not. -/
theorem canDeadlock_iff_of_wellFormed {resume : ResumeState} (h : resume.WellFormed)
    (htotal : resume.totalBlocks = p.totalBlocks) :
    CanDeadlock p resume ↔
      CHANNEL_CAPACITY < resume.completedCount ∧ resume.completedCount < p.totalBlocks := by
  have hlen : (resume.recordableIds p.totalBlocks).length + resume.completedCount
      = p.totalBlocks := by
    rw [← htotal, h.recordableIds_eq, Nat.add_comm, h.length_incompleteBlocks]
  have hcap : CHANNEL_CAPACITY = 64 := rfl
  have hbound := p.totalBlocks_lt
  constructor
  · rintro ⟨⟨hcount, hothers⟩, hrecordable⟩
    unfold blocksToCount at hothers hrecordable
    omega
  · rintro ⟨hmany, hlt⟩
    refine ⟨⟨?_, ?_⟩, ?_⟩ <;> (try unfold blocksToCount) <;> omega

/-- A file of 66 blocks of one byte. -/
def manyBlocks : RecvParams :=
  { Small.params with
    blockSize := 1, fileSize := 66, totalBlocks := 66, blockSize_lt := by decide,
    fileSize_lt := by decide, totalBlocks_lt := by decide }

/-- All blocks but the first are marked. -/
def manyMarked : ResumeState :=
  { ResumeState.new 9 66 1 66 with completedBlocks := false :: List.replicate 65 true }

theorem manyMarked_canDeadlock : CanDeadlock manyBlocks manyMarked :=
  ⟨⟨by decide, by decide⟩, by decide⟩

theorem no_deadlock_iff_many :
    ¬ ∀ s, Reaches (RecvFile.step PlainCrates.plainCrates manyBlocks)
        (IdsBelow PlainCrates.plainCrates manyBlocks)
        (start _ manyBlocks Small.rng 0 ⟨none, some (.saved manyMarked)⟩) s →
      ¬ s.Deadlocked manyBlocks := by
  rw [(no_deadlock_iff PlainCrates.plainCrates_correct manyBlocks Small.rng 0
    ⟨none, some (.saved manyMarked)⟩).2 (by decide) (by decide) (by decide)]
  exact not_not.mpr manyMarked_canDeadlock

/-- 65 of 66 blocks are marked, and the peer sends all 66. -/
theorem manyMarked_deadlocks :
    ∃ s, Reaches (RecvFile.step PlainCrates.plainCrates manyBlocks)
        (IdsBelow PlainCrates.plainCrates manyBlocks)
        (start _ manyBlocks Small.rng 0 ⟨none, some (.saved manyMarked)⟩) s ∧
      s.writer = .awaiting ∧ manyBlocks.totalBlocks ≤ s.blocksWritten ∧
      (∃ block, s.task = .sending block) ∧ CHANNEL_CAPACITY ≤ s.channel.length := by
  obtain ⟨s, hrun, hdead⟩ := exists_deadlocked (p := manyBlocks) PlainCrates.plainCrates_correct
    Small.rng 0 ⟨none, some (.saved manyMarked)⟩ (by decide) (by decide) (by decide)
    manyMarked_canDeadlock
  exact ⟨s, hrun, hdead.awaiting, hdead.written, hdead.sending, hdead.full⟩

end Updown.RecvFile
