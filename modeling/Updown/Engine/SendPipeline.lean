import Updown.Engine.Transfer
import Updown.Lib.Pipeline

set_option autoImplicit false

/-! # The send pipeline

`send_file_inner` (`engine/send.rs`) reads and compresses in a task of its own, and the groups go
through a channel of two to the loop that sends them. `Engine/Send.lean` reads the whole file and
sends then; here are the two tasks as they run side by side. In every interleaving the datagrams and
the result are those of `sendFileInner` (`interleaving_invisible`), and every interleaving comes
to a result (`pipeline_returns`).
-/

namespace Updown.SendEngine

open Transition Pipeline

/-- A group of blocks on its way from the reader to the send loop. -/
abbrev Group := List (ℕ × Bytes)

/-- The capacity of the channel of groups. -/
def GROUP_CAPACITY : ℕ := 2

/-- Where the reader is: the first block of the next group, and the file cursor. -/
structure ReaderPos where
  bid : ℕ
  cursor : ℕ

/-- What the send loop has come to: its sender, what is on the wire, and the totals. -/
structure SendLoop where
  sender : UdpSender
  sent : List Bytes
  bytes : ℕ
  packets : ℕ

/-- A round of the reader's loop. -/
def readRound (C : Crates) (e : SendEngine) (S : Bytes) (skip : List ℕ) (totalBlocks : ℕ)
    (r : ReaderPos) : Produced ReaderPos Group (Except CallFailure Unit) :=
  if r.bid < totalBlocks then
    let depth := e.interleaveDepth % 2 ^ 32
    if 2 ^ 32 ≤ r.bid + depth then .stop (.error (.panic .overflow))
    else
      let groupEnd := min (r.bid + depth) totalBlocks
      match readGroup C e S skip (List.range' r.bid (groupEnd - r.bid)) r.cursor with
      | .error f => .stop (.error f)
      | .ok (group, cursor) =>
          if group.isEmpty then .work ⟨groupEnd, cursor⟩ else .emit group ⟨groupEnd, cursor⟩
  else .stop (.ok ())

/-- A round of the send loop. -/
def sendGroup (C : Crates) (l : SendLoop) (group : Group) : SendLoop × Option String :=
  match l.sender.sendBlocksInterleaved C group with
  | (s, pkts, .ok stats) =>
      ({ sender := s, sent := l.sent ++ pkts, bytes := l.bytes + stats.bytesSent,
         packets := l.packets + stats.packetsSent }, none)
  | (s, pkts, .error msg) => ({ l with sender := s, sent := l.sent ++ pkts }, some msg)

/-- The two tasks. A reader whose group nobody takes leaves its loop. -/
def tasks (C : Crates) (e : SendEngine) (S : Bytes) (skip : List ℕ) (totalBlocks : ℕ) :
    Stages ReaderPos Group (Except CallFailure Unit) SendLoop String :=
  { produce := readRound C e S skip totalBlocks, closed := .ok (), consume := sendGroup C }

/-- The reader before its loop: the buffers are allocated first. -/
def readerStart (e : SendEngine) : Producer ReaderPos Group (Except CallFailure Unit) :=
  if ISIZE_MAX < e.blockSize ∨ ISIZE_MAX < e.interleaveDepth * VEC_SIZE then
    .stopped (.error (.panic .capacityOverflow))
  else .running ⟨0, 0⟩

/-- What is on the wire when `send_file_inner` returns, and what it returns: the reader is joined
once the channel is closed, and the "done" signal follows. -/
def returned (C : Crates) (file : SourceFile) (doneAt : UInt64) :
    Outcome (Except CallFailure Unit) SendLoop String →
      List Bytes × Except CallFailure SendResult
  | .failed l msg => (l.sent, .error (.error msg))
  | .ended l (.error .hang) => (l.sent, .error .hang)
  | .ended l (.error (.error msg)) => (l.sent, .error (.error msg))
  | .ended l (.error (.panic _)) => (l.sent, .error (.error "task panicked"))
  | .ended l (.ok ()) =>
      (l.sent ++ (l.sender.sendDone doneAt).2, .ok
        { fileSize := file.bytes.length, totalBytesSent := l.bytes,
          totalPacketsSent := l.packets, fileHash := C.blake3 file.bytes })

variable {C : Crates} {e : SendEngine} {S : Bytes} {skip : List ℕ} {T : ℕ}

/-! ## One group after the other -/

/-- All groups are sent, up to a failure. -/
def drain (C : Crates) : SendLoop → List Group → Except CallFailure Unit →
    Outcome (Except CallFailure Unit) SendLoop String
  | l, [], r => .ended l r
  | l, group :: groups, r =>
      match sendGroup C l group with
      | (l, none) => drain C l groups r
      | (l, some msg) => .failed l msg

/-- Sending the groups one by one puts the datagrams of `sendGroups` on the wire. -/
theorem drain_eq (groups : List Group) (r : Except CallFailure Unit) : ∀ l : SendLoop,
    (∀ bytes packets, (sendGroups C l.sender groups l.bytes l.packets).2.2 = .ok (bytes, packets) →
      drain C l groups r = .ended
        { sender := (sendGroups C l.sender groups l.bytes l.packets).1,
          sent := l.sent ++ (sendGroups C l.sender groups l.bytes l.packets).2.1,
          bytes := bytes, packets := packets } r) ∧
    (∀ msg, (sendGroups C l.sender groups l.bytes l.packets).2.2 = .error msg →
      ∃ l' : SendLoop, drain C l groups r = .failed l' msg ∧
        l'.sent = l.sent ++ (sendGroups C l.sender groups l.bytes l.packets).2.1) := by
  induction groups with
  | nil =>
      intro l
      refine ⟨fun bytes packets h => ?_, fun msg h => by cases h⟩
      obtain ⟨rfl, rfl⟩ := Prod.mk.inj (Except.ok.inj h)
      simp only [drain, sendGroups, List.append_nil]
  | cons group groups ih =>
      intro l
      rw [sendGroups, drain, sendGroup]
      cases hsend : l.sender.sendBlocksInterleaved C group with
      | mk s out =>
          obtain ⟨pkts, result⟩ := out
          cases result with
          | error msg =>
              refine ⟨fun bytes packets h => (by cases h), fun msg' h => ?_⟩
              obtain rfl := Except.error.inj h
              exact ⟨_, rfl, rfl⟩
          | ok stats =>
              obtain ⟨hok, herror⟩ := ih
                { sender := s, sent := l.sent ++ pkts, bytes := l.bytes + stats.bytesSent,
                  packets := l.packets + stats.packetsSent }
              dsimp only at hok herror ⊢
              simp only [← List.append_assoc]
              exact ⟨hok, herror⟩

/-- The two tasks from a position of the reader, one group at a time. -/
def Sequential (C : Crates) (e : SendEngine) (S : Bytes) (skip : List ℕ) (T : ℕ)
    (p : Producer ReaderPos Group (Except CallFailure Unit)) (l : SendLoop)
    (o : Outcome (Except CallFailure Unit) SendLoop String) : Prop :=
  match p with
  | .running r => ∀ fuel, T ≤ r.bid + fuel →
      o = drain C l (readLoop C e S skip T fuel r.bid r.cursor).1
        (readLoop C e S skip T fuel r.bid r.cursor).2
  | .sending group r => ∀ fuel, T ≤ r.bid + fuel →
      o = drain C l (group :: (readLoop C e S skip T fuel r.bid r.cursor).1)
        (readLoop C e S skip T fuel r.bid r.cursor).2
  | .stopped result => o = drain C l [] result

/-- A round of the reader is a round of `readLoop`. -/
theorem Sequential.produce {r : ReaderPos} {l : SendLoop}
    {o : Outcome (Except CallFailure Unit) SendLoop String}
    (h : Sequential C e S skip T ((tasks C e S skip T).next r) l o) :
    Sequential C e S skip T (.running r) l o := by
  intro fuel hfuel
  unfold Stages.next tasks readRound at h
  dsimp only at h
  by_cases hbid : r.bid < T
  · rw [if_pos hbid] at h
    obtain ⟨fuel, rfl⟩ : ∃ n, fuel = n + 1 := ⟨fuel - 1, by omega⟩
    by_cases hdepth : e.interleaveDepth % 2 ^ 32 = 0
    · -- a round that reads nothing leaves the reader where it is
      have hrange : List.range' r.bid (min r.bid T - r.bid) = [] := by
        rw [show min r.bid T - r.bid = 0 by omega]
        rfl
      rw [hdepth, Nat.add_zero, hrange] at h
      by_cases hover : 2 ^ 32 ≤ r.bid
      · rw [if_pos hover] at h
        rw [readLoop, if_pos hbid, hdepth]
        dsimp only
        rw [Nat.add_zero, if_pos hover]
        exact h
      · rw [if_neg hover, show min r.bid T = r.bid by omega] at h
        exact h (fuel + 1) hfuel
    · rw [readLoop, if_pos hbid]
      dsimp only
      by_cases hover : 2 ^ 32 ≤ r.bid + e.interleaveDepth % 2 ^ 32
      · rw [if_pos hover] at h ⊢
        exact h
      · rw [if_neg hover] at h ⊢
        -- a group is read: the rest follows from the next round, with one unit less of fuel
        cases hgroup : readGroup C e S skip
            (List.range' r.bid (min (r.bid + e.interleaveDepth % 2 ^ 32) T - r.bid)) r.cursor with
        | error f =>
            rw [hgroup] at h
            exact h
        | ok res =>
            obtain ⟨group, cursor⟩ := res
            rw [hgroup] at h
            dsimp only at h ⊢
            by_cases hempty : group.isEmpty = true
            · rw [if_pos hempty] at h ⊢
              exact h fuel (by dsimp only; omega)
            · rw [if_neg hempty] at h ⊢
              exact h fuel (by dsimp only; omega)
  · rw [if_neg hbid] at h
    -- behind the last block the loop ends whatever fuel is left
    have hstop : readLoop C e S skip T fuel r.bid r.cursor = ([], .ok ()) := by
      cases fuel with
      | zero => rw [readLoop, if_neg hbid]
      | succ fuel => rw [readLoop, if_neg hbid]
    rw [hstop]
    exact h

/-- **The tasks without channel are `readLoop` and the send loop.** -/
theorem sequential_of_runs {p : Producer ReaderPos Group (Except CallFailure Unit)} {l : SendLoop}
    {o : Outcome (Except CallFailure Unit) SendLoop String}
    (h : (tasks C e S skip T).Runs p l o) : Sequential C e S skip T p l o := by
  induction h with
  | stopped r l => rfl
  | produce _ ih => exact ih.produce
  | @consume group r l l' o htake _ ih =>
      intro fuel hfuel
      unfold Stages.take tasks at htake
      dsimp only at htake
      rw [drain]
      split at htake
      · next l₁ heq =>
          obtain rfl := Consumer.running.inj htake
          rw [heq]
          exact ih fuel hfuel
      · cases htake
  | @fail group r l l' msg htake =>
      intro fuel hfuel
      unfold Stages.take tasks at htake
      dsimp only at htake
      rw [drain]
      split at htake
      · cases htake
      · next l₁ msg₁ heq =>
          obtain ⟨rfl, rfl⟩ := Consumer.failed.inj htake
          rw [heq]

/-! ## The scheduling is invisible -/

/-- The send loop before the first group. -/
def loopStart (e : SendEngine) (sharedKey : Bytes) (sessionId : UInt32)
    (rng : ℕ → Vector UInt8 4) : SendLoop :=
  { sender := e.initialSender sharedKey sessionId rng, sent := [], bytes := 0, packets := 0 }

/-- A run of the two tasks, from the spawn of the reader. -/
def PipelineRun (C : Crates) (e : SendEngine) (S : Bytes) (skip : List ℕ) (T : ℕ) (l : SendLoop)
    (s : State ReaderPos Group (Except CallFailure Unit) SendLoop String) : Prop :=
  Reaches ((tasks C e S skip T).step GROUP_CAPACITY) (fun _ _ => True)
    (Stages.start e.readerStart l) s

theorem eq_drain_of_runs {l : SendLoop} {o : Outcome (Except CallFailure Unit) SendLoop String}
    (h : (tasks C e S skip T).Runs e.readerStart l o) :
    o = drain C l (reader C e S skip T).1 (reader C e S skip T).2 := by
  have hseq := sequential_of_runs h
  unfold readerStart at hseq
  unfold reader
  split at hseq
  · next hsize =>
      rw [if_pos hsize]
      exact hseq
  · next hsize =>
      rw [if_neg hsize]
      exact hseq T (by dsimp only; omega)

/-- What the call returns after the groups of the reader. -/
theorem returned_drain {file : SourceFile} {sharedKey : Bytes} {sessionId : UInt32}
    {rng : ℕ → Vector UInt8 4} {doneAt : UInt64}
    (hT : countBlocks file.bytes.length e.blockSize = .ok T) (hskip : skip.dedup.length ≤ T) :
    returned C file doneAt (drain C (e.loopStart sharedKey sessionId rng)
        (reader C e file.bytes skip T).1 (reader C e file.bytes skip T).2)
      = e.sendFileInner C file sharedKey sessionId skip rng doneAt := by
  obtain ⟨hok, herror⟩ := drain_eq (C := C) (reader C e file.bytes skip T).1
    (reader C e file.bytes skip T).2 (e.loopStart sharedKey sessionId rng)
  unfold loopStart at hok herror ⊢
  dsimp only at hok herror
  unfold sendFileInner
  rw [hT]
  dsimp only
  rw [if_neg (by omega)]
  cases hsent : (sendGroups C (e.initialSender sharedKey sessionId rng)
      (reader C e file.bytes skip T).1 0 0).2.2 with
  | error msg =>
      obtain ⟨l', hdrain, hl'⟩ := herror msg hsent
      rw [hdrain]
      simp only [returned, hl', List.nil_append]
  | ok sums =>
      obtain ⟨bytes, packets⟩ := sums
      rw [hok bytes packets hsent]
      cases (reader C e file.bytes skip T).2 with
      | ok u => simp only [returned, List.nil_append]
      | error f => cases f <;> simp only [returned, List.nil_append]

section

variable {file : SourceFile} {sharedKey : Bytes} {sessionId : UInt32} {rng : ℕ → Vector UInt8 4}
  {doneAt : UInt64} {s : State ReaderPos Group (Except CallFailure Unit) SendLoop String}

/-- **In every interleaving of reader and send loop**, at most two groups wait between them, and the
call that returns has put on the wire, and returns, what reading first and sending then would. -/
theorem interleaving_invisible (hT : countBlocks file.bytes.length e.blockSize = .ok T)
    (hskip : skip.dedup.length ≤ T)
    (hrun : PipelineRun C e file.bytes skip T (e.loopStart sharedKey sessionId rng) s) :
    s.channel.length ≤ GROUP_CAPACITY ∧
      ∀ o, s.outcome = some o → returned C file doneAt o
        = e.sendFileInner C file sharedKey sessionId skip rng doneAt := by
  refine ⟨Stages.length_channel_le hrun (Nat.zero_le _), fun o ho => ?_⟩
  rw [eq_drain_of_runs (Stages.runs_of_reaches hrun ho)]
  exact returned_drain hT hskip

/-- A round of the reader that does not end its loop gets to the end of the group. -/
theorem readRound_advances {r r' : ReaderPos}
    (h : readRound C e S skip T r = .work r' ∨
      ∃ group, readRound C e S skip T r = .emit group r') :
    r.bid < T ∧ r'.bid = min (r.bid + e.interleaveDepth % 2 ^ 32) T := by
  unfold readRound at h
  dsimp only at h
  split at h
  · next hbid =>
      refine ⟨hbid, ?_⟩
      split at h
      · rcases h with h | ⟨group, h⟩ <;> cases h
      · split at h
        · rcases h with h | ⟨group, h⟩ <;> cases h
        · split at h
          · rcases h with h | ⟨group, h⟩ <;> cases h
            rfl
          · rcases h with h | ⟨group, h⟩ <;> cases h
            rfl
  · rcases h with h | ⟨group, h⟩ <;> cases h

/-- A run of the tasks goes on to an outcome. -/
theorem PipelineRun.inevitable {l : SendLoop} (hdepth : e.interleaveDepth % 2 ^ 32 ≠ 0)
    (hrun : PipelineRun C e S skip T l s) :
    Inevitable ((tasks C e S skip T).step GROUP_CAPACITY) (fun _ _ => True)
      (fun s => s.outcome.isSome) s := by
  refine Stages.inevitable_outcome (by decide) (fun r => T - r.bid) (fun r r' h => ?_)
    (Stages.closed_of_reaches hrun)
  obtain ⟨hbid, hnext⟩ := readRound_advances h
  omega

/-- The send loop only adds to the wire. -/
theorem sent_prefix_sendGroup (l : SendLoop) (group : Group) :
    l.sent <+: (sendGroup C l group).1.sent := by
  unfold sendGroup
  split
  · exact List.prefix_append _ _
  · exact List.prefix_append _ _

/-- Only the "done" signal follows what the send loop has sent. -/
theorem prefix_returned (o : Outcome (Except CallFailure Unit) SendLoop String) :
    o.state.sent <+: (returned C file doneAt o).1 := by
  cases o with
  | failed l msg => exact List.prefix_refl _
  | ended l r =>
      cases r with
      | ok u => exact List.prefix_append _ _
      | error f => cases f <;> exact List.prefix_refl _

/-- **Every interleaving comes to a result**, unless the interleave depth is zero as a `u32`:
nothing is ever blocked for good, and what is on the wire at any time is the beginning of what
reading first and sending then would send. -/
theorem pipeline_returns (hdepth : e.interleaveDepth % 2 ^ 32 ≠ 0)
    (hT : countBlocks file.bytes.length e.blockSize = .ok T) (hskip : skip.dedup.length ≤ T)
    (hrun : PipelineRun C e file.bytes skip T (e.loopStart sharedKey sessionId rng) s) :
    Inevitable ((tasks C e file.bytes skip T).step GROUP_CAPACITY) (fun _ _ => True)
      (fun s => s.outcome.isSome) s ∧
    s.consumer.state.sent <+: (e.sendFileInner C file sharedKey sessionId skip rng doneAt).1 := by
  have hends := hrun.inevitable hdepth
  refine ⟨hends, ?_⟩
  -- the run goes on to an outcome, which is that of the sequential program
  obtain ⟨t, ht, ho⟩ := hends.exists_reaches
  obtain ⟨o, ho⟩ := Option.isSome_iff_exists.mp ho
  have hruns := Stages.runs_of_reaches (hrun.trans ht) ho
  have hprefix : s.consumer.state.sent <+: o.state.sent :=
    Stages.grows_of_reaches (R := fun l l' : SendLoop => l.sent <+: l'.sent)
      (fun l => List.prefix_refl l.sent) (fun _ _ _ => List.IsPrefix.trans)
      sent_prefix_sendGroup hrun hruns
  rw [← returned_drain hT hskip, ← eq_drain_of_runs hruns]
  exact hprefix.trans (prefix_returned o)

end

/-! ## An interleaving -/

namespace Ahead

/-- One group for each block of a file of two. -/
def engine : SendEngine := Small.engine.withInterleave 1

def startLoop : SendLoop := engine.loopStart Small.params.sharedKey 9 Small.rng

/-- The reader is done before the first group is sent. -/
theorem exists_run : ∃ s o, PipelineRun PlainCrates.plainCrates engine Small.file.bytes [] 2
    startLoop s ∧ s.outcome = some o := by
  obtain ⟨s, hs, ho⟩ := exists_of_runAll
    ((tasks PlainCrates.plainCrates engine Small.file.bytes [] 2).step GROUP_CAPACITY)
    (Stages.start engine.readerStart startLoop)
    [.produce, .send, .produce, .send, .produce, .receive, .receive, .close]
    (fun s => s.outcome.isSome) (by decide +kernel)
  obtain ⟨o, ho⟩ := Option.isSome_iff_exists.mp ho
  exact ⟨s, o, Reaches.of_runAll hs (allowedAlong_of_forall fun _ _ _ => trivial), ho⟩

theorem interleaving_invisible_ahead :
    ∃ o, returned PlainCrates.plainCrates Small.file 0 o
      = engine.sendFileInner PlainCrates.plainCrates Small.file Small.params.sharedKey 9 []
          Small.rng 0 := by
  obtain ⟨s, o, hrun, ho⟩ := exists_run
  exact ⟨o, (interleaving_invisible (by decide) (by decide) hrun).2 o ho⟩

theorem pipeline_returns_ahead :
    Inevitable ((tasks PlainCrates.plainCrates engine Small.file.bytes [] 2).step GROUP_CAPACITY)
      (fun _ _ => True) (fun s => s.outcome.isSome) (Stages.start engine.readerStart startLoop) ∧
    startLoop.sent <+: (engine.sendFileInner PlainCrates.plainCrates Small.file
      Small.params.sharedKey 9 [] Small.rng 0).1 :=
  pipeline_returns (by decide) (by decide) (by decide) (Reaches.refl _)

end Ahead

end Updown.SendEngine
