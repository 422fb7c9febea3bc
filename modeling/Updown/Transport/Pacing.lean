import Updown.Lib.Pacer
import Updown.Transport.Blast

set_option autoImplicit false

/-! # Pacing a transfer

The rate of a transfer: the groups of blocks are blasted one after the other, and each call of
`send_blocks_interleaved` (`transport/sender.rs`) paces itself by the bytes it has sent and the time
it has taken. What is sent after the last check of a call is not paced, and the next call begins
with a new budget; so the transfer keeps to its rate exactly if these rests are small
(`inBudget_iff`).
-/

namespace Updown

/-- The system the sender is built for. -/
inductive Platform where
  | linux
  | other
  deriving DecidableEq

namespace Platform

/-- The sleep, in nanoseconds, that is too short to be worth it. -/
def threshold : Platform → ℕ
  | linux => 10000
  | other => 5000

/-- The sends of a blast: for each, the bytes sent so far if the pace is checked after it. -/
def checks (p : Platform) (limit : ℕ) (w : WireBuf) : List (Option ℕ) :=
  match p with
  | linux => (gsoBlast limit w).sends.map BlastSend.pace
  | other => (plainBlast limit w).sends.map BlastSend.pace

def bytesSent (p : Platform) (limit : ℕ) (w : WireBuf) : ℕ :=
  match p with
  | linux => (gsoBlast limit w).bytesSent
  | other => (plainBlast limit w).bytesSent

def packetsSent (p : Platform) (limit : ℕ) (w : WireBuf) : ℕ :=
  match p with
  | linux => (gsoBlast limit w).packetsSent
  | other => (plainBlast limit w).packetsSent

end Platform

/-- `(target_bps / 8).max(1)`. -/
def targetBytesPerSec (targetBps : ℕ) : ℕ := max (targetBps / 8) 1

/-- The nanoseconds that `bytes` should take. -/
def expectedNs (rate bytes : ℕ) : ℕ := bytes * 1000000000 / rate

/-- A group as it is sent: the time since the call before returned, the packets, and how long each
send takes. -/
structure TimedGroup where
  gap : ℕ
  wire : WireBuf
  sendNs : ℕ → ℕ

/-- How long the blast of a group takes, with its sleeps. -/
def TimedGroup.blastNs (p : Platform) (limit rate : ℕ) (g : TimedGroup) : ℕ :=
  Pacer.run p.threshold 0 ((p.checks limit g.wire).mapIdx fun i check =>
    (g.sendNs i, check.map (expectedNs rate)))

/-- How far a transfer is; the time counts from the first packet. -/
structure Progress where
  bytes : ℕ
  packets : ℕ
  points : ℕ
  elapsed : ℕ

/-- A call for a group. -/
def Progress.afterGroup (p : Platform) (limit rate : ℕ) (t : Progress) (g : TimedGroup) :
    Progress :=
  { bytes := t.bytes + p.bytesSent limit g.wire
    packets := t.packets + p.packetsSent limit g.wire
    points := t.points + ((p.checks limit g.wire).filterMap id).length
    elapsed := t.elapsed + (if t.packets = 0 then 0 else g.gap) + g.blastNs p limit rate }

def Progress.start : Progress := ⟨0, 0, 0, 0⟩

/-- The groups, one after the other. -/
def transferGroups (p : Platform) (limit rate : ℕ) (groups : List TimedGroup) : Progress :=
  groups.foldl (Progress.afterGroup p limit rate) .start

/-- The length of the longest packet. -/
def longestPacket (wires : List WireBuf) : ℕ :=
  (wires.flatMap fun w => w.pktIndex.map Prod.snd).foldr max 0

/-- The bytes sent are at most those due, `batch` more, and 10 µs of sending for each check. -/
def Progress.InBudget (rate batch : ℕ) (t : Progress) : Prop :=
  t.bytes * 1000000000 ≤ rate * t.elapsed + batch * 1000000000 + rate * (10000 * t.points)

instance (rate batch : ℕ) (t : Progress) : Decidable (t.InBudget rate batch) :=
  inferInstanceAs (Decidable (_ ≤ _))

/-! ## Where the pace is checked -/

/-- How many packets of size `len` are in a row, after `count` of size `size`, with one more. -/
def inRow (count size len : ℕ) : ℕ := if count = 0 ∨ len ≠ size then 1 else count + 1

/-- On Linux: after `limit` packets in a row of one size. `count` packets of size `size` are
waiting, `bytes` is the length of all before. -/
def linuxPoints (limit : ℕ) : ℕ → ℕ → ℕ → List ℕ → List ℕ
  | _, _, _, [] => []
  | count, size, bytes, len :: lens =>
      if limit ≤ inRow count size len then
        (bytes + len) :: linuxPoints limit 0 len (bytes + len) lens
      else linuxPoints limit (inRow count size len) len (bytes + len) lens

/-- Elsewhere: after every `limit`-th packet. -/
def otherPoints (limit : ℕ) : ℕ → ℕ → List ℕ → List ℕ
  | _, _, [] => []
  | idx, bytes, len :: lens =>
      let rest := otherPoints limit (idx + 1) (bytes + len) lens
      if idx % limit = limit - 1 then (bytes + len) :: rest else rest

/-- The lengths of the packets of a group. -/
def WireBuf.lens (w : WireBuf) : List ℕ := w.pktIndex.map Prod.snd

/-- The bytes of a group up to each check of the pace. -/
def pacePoints (p : Platform) (limit : ℕ) (w : WireBuf) : List ℕ :=
  match p with
  | .linux => linuxPoints limit 0 0 0 w.lens
  | .other => otherPoints limit 0 0 w.lens

namespace GsoState

/-- The length of the packets so far. -/
def total (s : GsoState) : ℕ := s.blast.bytesSent + s.superBuf.length

/-- The checks so far. -/
def points (s : GsoState) : List ℕ := s.blast.sends.filterMap BlastSend.pace

/-- A batch without packets is empty. -/
def Cleared (s : GsoState) : Prop := s.batchCount = 0 → s.superBuf = []

theorem beforePacket_eq (s : GsoState) (len : ℕ) :
    (s.beforePacket len).total = s.total ∧ (s.beforePacket len).points = s.points ∧
      (s.beforePacket len).pktSize = len ∧ (s.beforePacket len).batchCount
        = if s.batchCount = 0 ∨ len ≠ s.pktSize then 0 else s.batchCount := by
  unfold beforePacket
  by_cases hempty : s.batchCount = 0
  · have hneg : ¬ (len ≠ len ∧ 0 < s.batchCount) := fun h => h.1 rfl
    rw [if_pos hempty]
    dsimp only
    rw [if_neg hneg, if_pos (Or.inl hempty)]
    exact ⟨rfl, rfl, rfl, hempty⟩
  · rw [if_neg hempty]
    by_cases hsize : len = s.pktSize
    · rw [if_neg (by simp [hsize]), if_neg (by simp [hsize, hempty])]
      exact ⟨rfl, rfl, hsize.symm, rfl⟩
    · rw [if_pos ⟨hsize, by omega⟩, if_pos (Or.inr hsize)]
      refine ⟨?_, ?_, rfl, rfl⟩
      · simp [total, flush]
      · simp [points, flush]

/-- **What a packet does** to the counts of the batching loop. -/
theorem step_eq (limit : ℕ) {wireBuf : Bytes} (s : GsoState) {e : ℕ × ℕ}
    (hrange : e.1 + e.2 ≤ wireBuf.length) :
    (s.step limit wireBuf e).total = s.total + e.2 ∧ (s.step limit wireBuf e).Cleared ∧
      (s.step limit wireBuf e).pktSize = e.2 ∧
      if limit ≤ inRow s.batchCount s.pktSize e.2 then
        (s.step limit wireBuf e).points = s.points ++ [s.total + e.2] ∧
          (s.step limit wireBuf e).batchCount = 0
      else
        (s.step limit wireBuf e).points = s.points ∧
          (s.step limit wireBuf e).batchCount = inRow s.batchCount s.pktSize e.2 := by
  obtain ⟨htotal, hpoints, hsize, hcount⟩ := s.beforePacket_eq e.2
  have hlen : ((wireBuf.drop e.1).take e.2).length = e.2 := Blocks.length_slice hrange
  have hnew : (s.beforePacket e.2).batchCount + 1 = inRow s.batchCount s.pktSize e.2 := by
    rw [hcount, inRow]
    split <;> rfl
  rw [← htotal, ← hpoints, ← hnew]
  unfold step
  dsimp only
  by_cases hfull : limit ≤ (s.beforePacket e.2).batchCount + 1
  · simp only [if_pos hfull]
    refine ⟨?_, fun _ => rfl, hsize, ?_, rfl⟩
    · simp [total, flush, hlen]
      omega
    · simp [points, total, flush, hlen]
      omega
  · simp only [if_neg hfull]
    refine ⟨?_, fun h => by simp at h, hsize, rfl, trivial⟩
    simp [total, hlen]
    omega

/-- **Where the batching loop checks the pace.** -/
theorem foldl_eq (limit : ℕ) (wireBuf : Bytes) (es : List (ℕ × ℕ)) :
    ∀ {s : GsoState}, s.Cleared → (∀ e ∈ es, e.1 + e.2 ≤ wireBuf.length) →
      let s' := es.foldl (step limit wireBuf) s
      s'.total = s.total + (es.map Prod.snd).sum ∧ s'.Cleared ∧
        s'.points
          = s.points ++ linuxPoints limit s.batchCount s.pktSize s.total (es.map Prod.snd) := by
  induction es with
  | nil =>
      intro s hs _
      simp [linuxPoints, hs]
  | cons e es ih =>
      intro s hs hes
      obtain ⟨htotal, hcleared, hsize, hcase⟩ :=
        step_eq limit s (hes e List.mem_cons_self)
      obtain ⟨htotal', hcleared', hpoints'⟩ :=
        ih hcleared fun e' he' => hes e' (List.mem_cons_of_mem e he')
      refine ⟨?_, hcleared', ?_⟩
      · rw [List.foldl_cons, htotal', htotal, List.map_cons, List.sum_cons, Nat.add_assoc]
      · rw [List.foldl_cons, hpoints', htotal, hsize, List.map_cons, linuxPoints]
        by_cases hfull : limit ≤ inRow s.batchCount s.pktSize e.2
        · rw [if_pos hfull] at hcase ⊢
          rw [hcase.1, hcase.2, List.append_assoc, List.singleton_append]
        · rw [if_neg hfull] at hcase ⊢
          rw [hcase.1, hcase.2]

end GsoState

theorem gsoBlast_points (limit : ℕ) {w : WireBuf} (hw : w.InRange) :
    (gsoBlast limit w).sends.filterMap BlastSend.pace = linuxPoints limit 0 0 0 w.lens ∧
      (gsoBlast limit w).bytesSent = w.lens.sum := by
  obtain ⟨htotal, hcleared, hpoints⟩ := GsoState.foldl_eq limit w.bytes w.pktIndex
    (s := .start) (fun _ => rfl) hw
  have hpoints' : (w.pktIndex.foldl (GsoState.step limit w.bytes) .start).points
      = linuxPoints limit 0 0 0 w.lens := hpoints
  have htotal' : (w.pktIndex.foldl (GsoState.step limit w.bytes) .start).total = w.lens.sum := by
    rw [htotal]
    exact Nat.zero_add _
  unfold gsoBlast
  dsimp only
  split
  · refine ⟨?_, htotal'⟩
    rw [← hpoints']
    simp [GsoState.flush, GsoState.points]
  · next hempty =>
      refine ⟨hpoints', ?_⟩
      rw [← htotal', GsoState.total, hcleared (by omega)]
      rfl

theorem plainLoop_points (limit : ℕ) (wireBuf : Bytes) (es : List (ℕ × ℕ)) :
    ∀ (s : Blast Bytes) (idx : ℕ), (∀ e ∈ es, e.1 + e.2 ≤ wireBuf.length) →
      (plainLoop limit wireBuf s idx es).sends.filterMap BlastSend.pace
        = s.sends.filterMap BlastSend.pace
          ++ otherPoints limit idx s.bytesSent (es.map Prod.snd) ∧
      (plainLoop limit wireBuf s idx es).bytesSent = s.bytesSent + (es.map Prod.snd).sum := by
  induction es with
  | nil =>
      intro s idx _
      simp [plainLoop, otherPoints]
  | cons e es ih =>
      intro s idx hes
      have hlen : ((wireBuf.drop e.1).take e.2).length = e.2 :=
        Blocks.length_slice (hes e List.mem_cons_self)
      obtain ⟨hpoints, hbytes⟩ := ih (plainStep limit wireBuf s idx e) (idx + 1)
        fun e' he' => hes e' (List.mem_cons_of_mem e he')
      have hsent : (plainStep limit wireBuf s idx e).bytesSent = s.bytesSent + e.2 := by
        simp only [plainStep, hlen]
      refine ⟨?_, ?_⟩
      · rw [plainLoop, hpoints, hsent, List.map_cons, otherPoints]
        simp only [plainStep, hlen, List.filterMap_append, List.append_assoc]
        split <;> simp
      · rw [plainLoop, hbytes, hsent, List.map_cons, List.sum_cons, Nat.add_assoc]

/-- **The checks of a blast depend on the lengths of the packets alone**, and it sends them all. -/
theorem Platform.checks_eq (p : Platform) (limit : ℕ) {w : WireBuf} (hw : w.InRange) :
    (p.checks limit w).filterMap id = pacePoints p limit w ∧ p.bytesSent limit w = w.lens.sum := by
  cases p with
  | linux =>
      obtain ⟨hpoints, hbytes⟩ := gsoBlast_points limit hw
      refine ⟨?_, hbytes⟩
      rw [checks, List.filterMap_map]
      exact hpoints
  | other =>
      obtain ⟨hpoints, hbytes⟩ := plainLoop_points limit w.bytes w.pktIndex ⟨[], 0, 0⟩ 0 hw
      refine ⟨?_, hbytes.trans (Nat.zero_add _)⟩
      rw [checks, List.filterMap_map]
      exact hpoints

/-! ## The least time of a transfer -/

/-- The least time the blast of a group can take. -/
def leastNs (p : Platform) (limit rate : ℕ) (w : WireBuf) : ℕ :=
  Pacer.earliest p.threshold 0 ((pacePoints p limit w).map fun bytes =>
    some (expectedNs rate bytes))

variable {p : Platform} {limit : ℕ}

theorem Platform.threshold_lt (p : Platform) : p.threshold < 2 ^ 64 := by
  cases p <;> decide

theorem earliest_checks (rate : ℕ) {w : WireBuf} (hw : w.InRange) :
    Pacer.earliest p.threshold 0 ((p.checks limit w).map (Option.map (expectedNs rate)))
      = leastNs p limit rate w := by
  have hpoints : ((p.checks limit w).map (Option.map (expectedNs rate))).filterMap id
      = (pacePoints p limit w).map (expectedNs rate) := by
    rw [← (p.checks_eq limit hw).1, List.filterMap_map, List.map_filterMap]
    rfl
  rw [Pacer.earliest_filterMap, hpoints, List.map_map]
  rfl

theorem map_snd_mapIdx (f : ℕ → ℕ) (rate : ℕ) (checks : List (Option ℕ)) :
    (checks.mapIdx fun i check => (f i, check.map (expectedNs rate))).map Prod.snd
      = checks.map (Option.map (expectedNs rate)) := by
  apply List.ext_getElem?
  intro i
  simp [Function.comp_def]

theorem leastNs_le_blastNs (rate : ℕ) {g : TimedGroup} (hw : g.wire.InRange) :
    leastNs p limit rate g.wire ≤ g.blastNs p limit rate := by
  rw [← earliest_checks rate hw, ← map_snd_mapIdx g.sendNs]
  exact Pacer.earliest_le_run p.threshold_lt _ 0

theorem exists_blastNs_eq (p : Platform) (limit rate : ℕ) {w : WireBuf} (hw : w.InRange) :
    ∃ sendNs, TimedGroup.blastNs p limit rate ⟨0, w, sendNs⟩ = leastNs p limit rate w := by
  obtain ⟨steps, hsteps, hrun⟩ := Pacer.exists_run_eq_earliest p.threshold_lt
    ((p.checks limit w).map (Option.map (expectedNs rate))) 0
  refine ⟨fun i => (steps.getD i (0, none)).1, ?_⟩
  rw [TimedGroup.blastNs, ← earliest_checks rate hw, ← hrun]
  congr 1
  apply List.ext_getElem?
  intro i
  have hget := congrArg (fun l => l[i]?) hsteps
  simp only [List.getElem?_map] at hget
  rw [List.getElem?_mapIdx]
  cases hi : steps[i]? with
  | none =>
      rw [hi] at hget
      cases hc : (p.checks limit w)[i]? with
      | none => rfl
      | some check => simp [hc] at hget
  | some step =>
      rw [hi] at hget
      cases hc : (p.checks limit w)[i]? with
      | none => simp [hc] at hget
      | some check =>
          have hsnd : step.2 = check.map (expectedNs rate) := by simpa [hc] using hget
          simp [hi, ← hsnd]

/-- Bytes, checks and time add up over the groups. -/
theorem foldl_afterGroup (p : Platform) (limit rate : ℕ) (groups : List TimedGroup) :
    ∀ t : Progress, (∀ g ∈ groups, g.wire.InRange) →
      let t' := groups.foldl (Progress.afterGroup p limit rate) t
      t'.bytes = t.bytes + (groups.map fun g => g.wire.lens.sum).sum ∧
        t'.points = t.points + (groups.map fun g => (pacePoints p limit g.wire).length).sum ∧
        t.elapsed + (groups.map fun g => g.blastNs p limit rate).sum ≤ t'.elapsed ∧
        ((∀ g ∈ groups, g.gap = 0) →
          t'.elapsed = t.elapsed + (groups.map fun g => g.blastNs p limit rate).sum) := by
  induction groups with
  | nil =>
      intro t _
      simp
  | cons g groups ih =>
      intro t hw
      obtain ⟨hpoints, hbytes⟩ := p.checks_eq limit (hw g List.mem_cons_self)
      obtain ⟨hbytes', hpoints', hle, heq⟩ := ih (t.afterGroup p limit rate g)
        fun g' hg' => hw g' (List.mem_cons_of_mem g hg')
      have hb : (t.afterGroup p limit rate g).bytes = t.bytes + g.wire.lens.sum :=
        congrArg (t.bytes + ·) hbytes
      have hp : (t.afterGroup p limit rate g).points
          = t.points + (pacePoints p limit g.wire).length :=
        congrArg (fun l : List ℕ => t.points + l.length) hpoints
      have he : (t.afterGroup p limit rate g).elapsed
          = t.elapsed + (if t.packets = 0 then 0 else g.gap) + g.blastNs p limit rate := rfl
      simp only [List.foldl_cons, List.map_cons, List.sum_cons]
      refine ⟨?_, ?_, ?_, fun hgap => ?_⟩
      · rw [hbytes', hb, Nat.add_assoc]
      · rw [hpoints', hp, Nat.add_assoc]
      · omega
      · have hzero := hgap g List.mem_cons_self
        rw [hzero, ite_self, Nat.add_zero] at he
        rw [heq fun g' hg' => hgap g' (List.mem_cons_of_mem g hg'), he, Nat.add_assoc]

/-- **What a transfer has sent**, and how long it has taken. -/
theorem transferGroups_eq (p : Platform) (limit rate : ℕ) {groups : List TimedGroup}
    (hw : ∀ g ∈ groups, g.wire.InRange) :
    (transferGroups p limit rate groups).bytes = (groups.map fun g => g.wire.lens.sum).sum ∧
      (transferGroups p limit rate groups).points
        = (groups.map fun g => (pacePoints p limit g.wire).length).sum ∧
      (groups.map fun g => g.blastNs p limit rate).sum
        ≤ (transferGroups p limit rate groups).elapsed ∧
      ((∀ g ∈ groups, g.gap = 0) →
        (transferGroups p limit rate groups).elapsed
          = (groups.map fun g => g.blastNs p limit rate).sum) := by
  obtain ⟨hbytes, hpoints, hle, heq⟩ := foldl_afterGroup p limit rate groups .start hw
  rw [← transferGroups] at hbytes hpoints hle heq
  simp only [Progress.start, Nat.zero_add] at hbytes hpoints hle heq
  exact ⟨hbytes, hpoints, hle, heq⟩

/-- The bytes of the groups are covered by the least time they take, 10 µs for each check, and one
batch. -/
def Affordable (p : Platform) (limit rate batch : ℕ) (wires : List WireBuf) : Prop :=
  (wires.map fun w => w.lens.sum).sum * 1000000000
    ≤ (wires.map fun w =>
        rate * (leastNs p limit rate w + 10000 * (pacePoints p limit w).length)).sum
      + batch * 1000000000

instance (p : Platform) (limit rate batch : ℕ) (wires : List WireBuf) :
    Decidable (Affordable p limit rate batch wires) := inferInstanceAs (Decidable (_ ≤ _))

theorem sum_rate (rate : ℕ) (wires : List WireBuf) :
    (wires.map fun w =>
        rate * (leastNs p limit rate w + 10000 * (pacePoints p limit w).length)).sum
      = rate * (wires.map (leastNs p limit rate)).sum
        + rate * (10000 * (wires.map fun w => (pacePoints p limit w).length).sum) := by
  induction wires with
  | nil => simp
  | cons w wires ih =>
      simp only [List.map_cons, List.sum_cons, ih]
      ring

theorem inBudget_of_affordable {rate batch : ℕ} {groups : List TimedGroup}
    (hw : ∀ g ∈ groups, g.wire.InRange)
    (h : Affordable p limit rate batch (groups.map TimedGroup.wire)) :
    (transferGroups p limit rate groups).InBudget rate batch := by
  obtain ⟨hbytes, hpoints, hle, -⟩ := transferGroups_eq p limit rate hw
  have hleast : (groups.map fun g => leastNs p limit rate g.wire).sum
      ≤ (groups.map fun g => g.blastNs p limit rate).sum :=
    List.sum_le_sum fun g hg => leastNs_le_blastNs rate (hw g hg)
  rw [Affordable, sum_rate] at h
  simp only [List.map_map, Function.comp_def] at h
  have hmul := Nat.mul_le_mul_left rate (hleast.trans hle)
  rw [Progress.InBudget, hbytes, hpoints]
  omega

/-- The groups, each sent in its least time. -/
theorem exists_least (p : Platform) (limit rate : ℕ) {wires : List WireBuf}
    (hw : ∀ w ∈ wires, w.InRange) :
    ∃ groups : List TimedGroup, groups.map TimedGroup.wire = wires ∧
      (∀ g ∈ groups, g.gap = 0) ∧
      ∀ g ∈ groups, g.blastNs p limit rate = leastNs p limit rate g.wire := by
  induction wires with
  | nil => exact ⟨[], rfl, by simp, by simp⟩
  | cons w wires ih =>
      obtain ⟨groups, hwires, hgap, hleast⟩ := ih fun w' hw' => hw w' (List.mem_cons_of_mem w hw')
      obtain ⟨sendNs, hsend⟩ := exists_blastNs_eq p limit rate (hw w List.mem_cons_self)
      refine ⟨⟨0, w, sendNs⟩ :: groups, by rw [List.map_cons, hwires], ?_, ?_⟩
      · intro g hg
        rcases List.mem_cons.mp hg with rfl | hg
        · rfl
        · exact hgap g hg
      · intro g hg
        rcases List.mem_cons.mp hg with rfl | hg
        · exact hsend
        · exact hleast g hg

theorem affordable_of_inBudget {rate batch : ℕ} {groups : List TimedGroup}
    (hw : ∀ g ∈ groups, g.wire.InRange) (hgap : ∀ g ∈ groups, g.gap = 0)
    (hleast : ∀ g ∈ groups, g.blastNs p limit rate = leastNs p limit rate g.wire)
    (h : (transferGroups p limit rate groups).InBudget rate batch) :
    Affordable p limit rate batch (groups.map TimedGroup.wire) := by
  obtain ⟨hbytes, hpoints, -, heq⟩ := transferGroups_eq p limit rate hw
  have helapsed := heq hgap
  rw [List.map_congr_left hleast] at helapsed
  rw [Progress.InBudget, hbytes, hpoints, helapsed] at h
  rw [Affordable, sum_rate]
  simp only [List.map_map, Function.comp_def]
  omega

/-- **When a transfer keeps to its rate**, whatever time the sends take: exactly if the bytes of
every run of its first groups are covered by the least times of these groups. The least time of a
group is what the bytes up to its last check should take, less the threshold, unless a sleep would
not fit 64 bits. -/
theorem inBudget_iff (p : Platform) (limit targetBps : ℕ) {wires : List WireBuf}
    (hw : ∀ w ∈ wires, w.InRange) :
    ((∀ groups : List TimedGroup, groups.map TimedGroup.wire = wires → ∀ k,
        (transferGroups p limit (targetBytesPerSec targetBps) (groups.take k)).InBudget
          (targetBytesPerSec targetBps) (limit * longestPacket wires)) ↔
      ∀ k, Affordable p limit (targetBytesPerSec targetBps) (limit * longestPacket wires)
        (wires.take k)) ∧
    ∀ w ∈ wires, Pacer.Steady p.threshold 0
        ((pacePoints p limit w).map (expectedNs (targetBytesPerSec targetBps))) →
      leastNs p limit (targetBytesPerSec targetBps) w
        = ((pacePoints p limit w).map (expectedNs (targetBytesPerSec targetBps))).getLastD 0
          - p.threshold := by
  set rate := targetBytesPerSec targetBps
  refine ⟨⟨fun h k => ?_, fun h groups hwires k => ?_⟩, fun w _ hsteady => ?_⟩
  · obtain ⟨groups, hwires, hgap, hleast⟩ := exists_least p limit rate hw
    have htake : ∀ {g}, g ∈ groups.take k → g ∈ groups := List.mem_of_mem_take
    rw [← hwires] at hw
    rw [← hwires, ← List.map_take, hwires]
    exact affordable_of_inBudget (fun g hg => hw _ (List.mem_map_of_mem (htake hg)))
      (fun g hg => hgap g (htake hg)) (fun g hg => hleast g (htake hg)) (h groups hwires k)
  · have hrange : ∀ g ∈ groups.take k, g.wire.InRange := by
      intro g hg
      apply hw
      rw [← hwires]
      exact List.mem_map_of_mem (List.mem_of_mem_take hg)
    apply inBudget_of_affordable hrange
    rw [List.map_take, hwires]
    exact h k
  · have := Pacer.earliest_eq _ hsteady
    rw [Nat.zero_sub, List.map_map] at this
    exact this

/-- Without checks, sends that take no time take none together. -/
theorem blastNs_of_free (rate : ℕ) {g : TimedGroup} (hw : g.wire.InRange)
    (hpoints : pacePoints p limit g.wire = []) (hfree : ∀ i, g.sendNs i = 0) :
    g.blastNs p limit rate = 0 := by
  apply Pacer.run_of_free
  intro step hstep
  obtain ⟨i, hi, rfl⟩ := List.mem_mapIdx.mp hstep
  have hnone := (p.checks_eq limit hw).1.trans hpoints
  rw [List.filterMap_eq_nil_iff] at hnone
  have hcheck : (p.checks limit g.wire)[i] = none := hnone _ (List.getElem_mem hi)
  rw [hcheck, hfree]
  rfl

/-- Groups without a check can all be sent at once. -/
theorem not_inBudget_of_unpaced {rate batch : ℕ} {groups : List TimedGroup}
    (hw : ∀ g ∈ groups, g.wire.InRange) (hpoints : ∀ g ∈ groups, pacePoints p limit g.wire = [])
    (hfree : ∀ g ∈ groups, g.gap = 0 ∧ ∀ i, g.sendNs i = 0)
    (hbatch : batch < (groups.map fun g => g.wire.lens.sum).sum) :
    ¬ (transferGroups p limit rate groups).InBudget rate batch := by
  obtain ⟨hbytes, hcount, -, helapsed⟩ := transferGroups_eq p limit rate hw
  have hnow := helapsed fun g hg => (hfree g hg).1
  have hblast : ∀ g ∈ groups, g.blastNs p limit rate = 0 :=
    fun g hg => blastNs_of_free rate (hw g hg) (hpoints g hg) (hfree g hg).2
  have hnone : ∀ g ∈ groups, (pacePoints p limit g.wire).length = 0 := by
    intro g hg
    rw [hpoints g hg]
    rfl
  rw [List.map_congr_left hblast] at hnow
  rw [List.map_congr_left hnone] at hcount
  rw [List.map_const', List.sum_replicate, smul_zero] at hcount hnow
  rw [Progress.InBudget, hbytes, hcount, hnow]
  omega

namespace Small

/-- A group of 63 packets of 962 bytes. -/
def wire : WireBuf :=
  ⟨List.replicate (63 * 962) 0, (List.range 63).map fun i => (962 * i, 962)⟩

theorem wire_inRange : wire.InRange := by
  intro e he
  obtain ⟨i, hi, rfl⟩ := List.mem_map.mp he
  rw [List.mem_range] at hi
  rw [wire, List.length_replicate]
  dsimp only
  omega

/-- The group, if sending takes no time. -/
def instantGroup : TimedGroup := ⟨0, wire, fun _ => 0⟩

/-- **Two small groups are sent at once**, without a check of the pace. -/
theorem two_groups_not_inBudget :
    ¬ (transferGroups .linux GSO_BATCH (targetBytesPerSec 800000000)
      [instantGroup, instantGroup]).InBudget (targetBytesPerSec 800000000)
        (GSO_BATCH * longestPacket [wire, wire]) := by
  have hgroups : ∀ g ∈ [instantGroup, instantGroup], g = instantGroup := by simp
  apply not_inBudget_of_unpaced
  · intro g hg
    rw [hgroups g hg]
    exact wire_inRange
  · intro g hg
    rw [hgroups g hg]
    decide +kernel
  · intro g hg
    rw [hgroups g hg]
    exact ⟨rfl, fun _ => rfl⟩
  · decide +kernel

/-- One of them is within one batch. -/
theorem inBudget_iff_oneGroup :
    (transferGroups .linux GSO_BATCH (targetBytesPerSec 800000000) [instantGroup]).InBudget
      (targetBytesPerSec 800000000) (GSO_BATCH * longestPacket [wire]) := by
  have hrange : ∀ w ∈ [wire], w.InRange := by
    intro w hw
    rw [List.mem_singleton.mp hw]
    exact wire_inRange
  have hafford : ∀ k, Affordable .linux GSO_BATCH (targetBytesPerSec 800000000)
      (GSO_BATCH * longestPacket [wire]) ([wire].take k) := by
    intro k
    cases k with
    | zero => decide +kernel
    | succ k =>
        rw [List.take_succ_cons, List.take_nil]
        decide +kernel
  exact (inBudget_iff .linux GSO_BATCH 800000000 hrange).1.mpr hafford [instantGroup] rfl 1

end Small

end Updown
