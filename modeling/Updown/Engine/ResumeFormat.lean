import Updown.Engine.Resume
import Updown.Lib.Bincode

set_option autoImplicit false

/-! # The resume file

`ResumeState::save` writes the state with `bincode`, and `load` takes any file that decodes and
carries the three numbers of the transfer (`engine/resume.rs`). The lengths of the two vectors are
part of the file and not checked. `loaded_sound_iff` says which files give a state that the later
operations can rely on: those that `save` can have written for such a transfer.
-/

namespace Updown

open Bincode (Format)

namespace ResumeState

/-- The content of a resume file. -/
def fileOf (B : Format ResumeState) (bytes : Bytes) : ResumeFile :=
  match B.read bytes with
  | some s => .saved s
  | none => .corrupt

/-- Mark several blocks. -/
def markAll (s : ResumeState) : List (ℕ × Hash) → Except Fault ResumeState
  | [] => .ok s
  | (id, hash) :: marks => (s.markComplete id hash).bind fun s' => s'.markAll marks

/-- Bitmap and hashes have one entry for each of the `totalBlocks` blocks, and agree. -/
structure Agrees (s : ResumeState) (totalBlocks : ℕ) : Prop where
  bitmap_length : s.completedBlocks.length = totalBlocks
  hashes_length : s.blockHashes.length = totalBlocks
  marked_iff : ∀ id, s.isComplete id = true ↔ ∃ hash, s.blockHashes[id]? = some (some hash)

/-- The state can be relied on: it agrees with itself, no block id makes `mark_complete` go out of
range, and however it is marked, it counts as complete only when every block is marked. -/
structure Sound (s : ResumeState) (totalBlocks : ℕ) : Prop extends Agrees s totalBlocks where
  marks : ∀ marks, ∃ s', s.markAll marks = .ok s'
  complete : ∀ marks s', s.markAll marks = .ok s' → s'.isTransferComplete = true →
    ∀ id < totalBlocks, s'.isComplete id = true

/-- `save` can have written the file for the transfer: it begins with a state that came from a new
one by marking blocks. -/
def SavedFor (B : Format ResumeState) (bytes : Bytes) (fileSize blockSize totalBlocks : ℕ) : Prop :=
  ∃ sessionId marks s, (∀ m ∈ marks, m.2.length = 32) ∧
    (new sessionId fileSize blockSize totalBlocks).markAll marks = .ok s ∧ B.put s <+: bytes

/-! ## Marking -/

variable {s s' : ResumeState} {totalBlocks : ℕ}

theorem agrees_new (sessionId : UInt32) (fileSize blockSize totalBlocks : ℕ) :
    (new sessionId fileSize blockSize totalBlocks).Agrees totalBlocks := by
  refine ⟨List.length_replicate, List.length_replicate, fun id => ?_⟩
  rw [isComplete_new]
  constructor
  · intro h
    cases h
  · rintro ⟨hash, h⟩
    simp [new, List.getElem?_replicate] at h

/-- **A state that agrees can be marked, and still agrees.** -/
theorem Agrees.mark (h : s.Agrees totalBlocks) (id : ℕ) (hash : Hash) :
    ∃ s', s.markComplete id hash = .ok s' ∧ s'.Agrees totalBlocks := by
  by_cases hid : id < s.completedBlocks.length
  · have hhash : id < s.blockHashes.length := by rwa [h.hashes_length, ← h.bitmap_length]
    obtain ⟨s', hmark⟩ : ∃ s', s.markComplete id hash = .ok s' := by
      rw [markComplete, if_pos hid, if_pos hhash]
      exact ⟨_, rfl⟩
    obtain ⟨-, -, -, hbits, hhashes⟩ := markComplete_frame hmark
    refine ⟨s', hmark, hbits.trans h.bitmap_length, hhashes.trans h.hashes_length, fun j => ?_⟩
    rw [isComplete_markComplete hmark hid, blockHashes_markComplete hmark hid]
    by_cases hj : j = id
    · simp [hj]
    · simp only [hj, decide_false, Bool.false_or, if_false]
      exact h.marked_iff j
  · exact ⟨s, markComplete_of_ge hash (not_lt.mp hid), h⟩

theorem Agrees.markAll (h : s.Agrees totalBlocks) (marks : List (ℕ × Hash)) :
    ∃ s', s.markAll marks = .ok s' ∧ s'.Agrees totalBlocks := by
  induction marks generalizing s with
  | nil => exact ⟨s, rfl, h⟩
  | cons m marks ih =>
      obtain ⟨id, hash⟩ := m
      obtain ⟨s₁, hmark, hagrees⟩ := h.mark id hash
      obtain ⟨s', hall, hagrees'⟩ := ih hagrees
      refine ⟨s', ?_, hagrees'⟩
      rw [ResumeState.markAll, hmark]
      exact hall

theorem markAll_append (s : ResumeState) (marks marks' : List (ℕ × Hash)) :
    s.markAll (marks ++ marks') = (s.markAll marks).bind fun s' => s'.markAll marks' := by
  induction marks generalizing s with
  | nil => rfl
  | cons m marks ih =>
      obtain ⟨id, hash⟩ := m
      rw [List.cons_append, markAll, markAll]
      cases s.markComplete id hash with
      | error fault => rfl
      | ok s' => exact ih s'

/-- Marking blocks does not change the number of blocks. -/
theorem totalBlocks_markAll {marks : List (ℕ × Hash)} (h : s.markAll marks = .ok s') :
    s'.totalBlocks = s.totalBlocks := by
  induction marks generalizing s with
  | nil =>
      obtain rfl := Except.ok.inj h
      rfl
  | cons m marks ih =>
      obtain ⟨id, hash⟩ := m
      rw [markAll] at h
      cases hmark : s.markComplete id hash with
      | error fault =>
          rw [hmark] at h
          cases h
      | ok s₁ =>
          rw [hmark] at h
          obtain ⟨-, -, htotal, -, -⟩ := markComplete_frame hmark
          exact (ih h).trans htotal

/-- **A state that agrees is sound.** -/
theorem Agrees.sound (h : s.Agrees totalBlocks) (htotal : s.totalBlocks = totalBlocks)
    (hlt : totalBlocks < 2 ^ 32) : s.Sound totalBlocks := by
  refine ⟨h, fun marks => ?_, fun marks s' hmarks hcomplete id hid => ?_⟩
  · obtain ⟨s', hs', -⟩ := h.markAll marks
    exact ⟨s', hs'⟩
  · obtain ⟨t, ht, hagrees⟩ := h.markAll marks
    obtain rfl := Except.ok.inj (ht.symm.trans hmarks)
    have ht' : t.totalBlocks = totalBlocks := (totalBlocks_markAll hmarks).trans htotal
    have hwf : t.WellFormed :=
      ⟨ht' ▸ hlt, hagrees.bitmap_length.trans ht'.symm, hagrees.hashes_length.trans ht'.symm⟩
    exact hwf.isTransferComplete_iff.mp hcomplete id (ht'.symm ▸ hid)

/-! ## The states that marking leads to -/

/-- The first `n` entries of a list, and `z` for the others. -/
def upTo {α : Type} (z : α) (n : ℕ) (l : List α) : List α :=
  l.take n ++ List.replicate (l.length - n) z

theorem upTo_length {α : Type} (z : α) (l : List α) : upTo z l.length l = l := by
  simp [upTo]

theorem getElem?_upTo {α : Type} {z : α} {n : ℕ} {l : List α} (hn : n ≤ l.length) (i : ℕ) :
    (upTo z n l)[i]? = if i < n then l[i]? else if i < l.length then some z else none := by
  unfold upTo
  split
  · next hi =>
      rw [List.getElem?_append_left (by rw [List.length_take]; omega), List.getElem?_take_of_lt hi]
  · next hi =>
      have htake : (l.take n).length = n := by
        rw [List.length_take]
        omega
      rw [List.getElem?_append_right (by omega), htake, List.getElem?_replicate]
      split
      · rw [if_pos (by omega)]
      · rw [if_neg (by omega)]

/-- One more entry is set, … -/
theorem set_upTo {α : Type} {z x : α} {n : ℕ} {l : List α} (hx : l[n]? = some x) :
    (upTo z n l).set n x = upTo z (n + 1) l := by
  obtain ⟨hn, -⟩ := List.getElem?_eq_some_iff.mp hx
  have hlen : n < (upTo z n l).length := by
    simp [upTo]
    omega
  apply List.ext_getElem?
  intro i
  rw [List.getElem?_set, getElem?_upTo hn.le, getElem?_upTo hn]
  by_cases hi : n = i
  · subst hi
    rw [if_pos rfl, if_pos hlen, if_pos (Nat.lt_succ_self n), hx]
  · rw [if_neg hi]
    by_cases hlt : i < n
    · rw [if_pos hlt, if_pos (show i < n + 1 by omega)]
    · rw [if_neg hlt, if_neg (show ¬ i < n + 1 by omega)]

/-- … and nothing changes if it is the filler. -/
theorem upTo_succ {α : Type} {z : α} {n : ℕ} {l : List α} (hz : l[n]? = some z) :
    upTo z n l = upTo z (n + 1) l := by
  obtain ⟨hn, -⟩ := List.getElem?_eq_some_iff.mp hz
  have hfiller : (upTo z n l)[n]? = some z := by
    rw [getElem?_upTo hn.le, if_neg (lt_irrefl n), if_pos hn]
  obtain ⟨hlen, heq⟩ := List.getElem?_eq_some_iff.mp hfiller
  calc upTo z n l
      = (upTo z n l).set n (upTo z n l)[n] := (List.set_getElem_self hlen).symm
    _ = (upTo z n l).set n z := by rw [heq]
    _ = upTo z (n + 1) l := set_upTo hz

/-- The state that has only the first `n` blocks marked. -/
def firstMarked (s : ResumeState) (n : ℕ) : ResumeState :=
  { s with
    completedBlocks := upTo false n s.completedBlocks
    blockHashes := upTo none n s.blockHashes }

section

variable {n : ℕ} {hash : Hash} (h : s.Agrees s.totalBlocks)
include h

theorem Agrees.firstMarked_zero :
    s.firstMarked 0 = new s.sessionId s.fileSize s.blockSize s.totalBlocks := by
  simp [firstMarked, new, upTo, h.bitmap_length, h.hashes_length]

theorem Agrees.firstMarked_all : s.firstMarked s.totalBlocks = s := by
  have hbits : upTo false s.totalBlocks s.completedBlocks = s.completedBlocks := by
    rw [← h.bitmap_length, upTo_length]
  have hhashes : upTo none s.totalBlocks s.blockHashes = s.blockHashes := by
    rw [← h.hashes_length, upTo_length]
  rw [firstMarked, hbits, hhashes]

/-- A bit is set exactly where there is a hash. -/
theorem Agrees.bit_eq {o : Option Hash} (ho : s.blockHashes[n]? = some o) :
    s.completedBlocks[n]? = some o.isSome := by
  obtain ⟨hn, -⟩ := List.getElem?_eq_some_iff.mp ho
  have hbit : n < s.completedBlocks.length := by
    rw [h.bitmap_length, ← h.hashes_length]
    exact hn
  have hmarked := h.marked_iff n
  rw [isComplete, ho, List.getElem?_eq_getElem hbit] at hmarked
  rw [List.getElem?_eq_getElem hbit]
  cases o with
  | none => simpa using hmarked
  | some hash => simpa using hmarked

theorem Agrees.firstMarked_of_none (ho : s.blockHashes[n]? = some none) :
    s.firstMarked n = s.firstMarked (n + 1) := by
  have hbit : s.completedBlocks[n]? = some false := h.bit_eq ho
  rw [firstMarked, firstMarked, upTo_succ hbit, upTo_succ ho]

theorem Agrees.mark_firstMarked (ho : s.blockHashes[n]? = some (some hash)) :
    (s.firstMarked n).markComplete n hash = .ok (s.firstMarked (n + 1)) := by
  obtain ⟨hn, -⟩ := List.getElem?_eq_some_iff.mp ho
  have htrue : s.completedBlocks[n]? = some true := h.bit_eq ho
  have hbit : n < (upTo false n s.completedBlocks).length := by
    simp only [upTo, List.length_append, List.length_take, List.length_replicate, h.bitmap_length]
    rw [h.hashes_length] at hn
    omega
  have hhash : n < (upTo none n s.blockHashes).length := by
    simp only [upTo, List.length_append, List.length_take, List.length_replicate]
    omega
  simp only [firstMarked, markComplete, if_pos hbit, if_pos hhash, set_upTo htrue, set_upTo ho]

/-- **A state that agrees comes from a new one by marking.** The induction is on the number of
blocks that have been gone through. -/
theorem Agrees.exists_marks
    (hhashes : ∀ o ∈ s.blockHashes, ∀ hash, o = some hash → hash.length = 32) :
    ∃ marks : List (ℕ × Hash), (∀ m ∈ marks, m.2.length = 32) ∧
      (new s.sessionId s.fileSize s.blockSize s.totalBlocks).markAll marks = .ok s := by
  have hprefix : ∀ n ≤ s.totalBlocks, ∃ marks : List (ℕ × Hash), (∀ m ∈ marks, m.2.length = 32) ∧
      (new s.sessionId s.fileSize s.blockSize s.totalBlocks).markAll marks
        = .ok (s.firstMarked n) := by
    intro n
    induction n with
    | zero =>
        intro _
        refine ⟨[], by simp, ?_⟩
        rw [h.firstMarked_zero]
        rfl
    | succ n ih =>
        intro hn
        obtain ⟨marks, hlen, hmarks⟩ := ih (by omega)
        cases ho : s.blockHashes[n]? with
        | none =>
            have hbeyond := List.getElem?_eq_none_iff.mp ho
            rw [h.hashes_length] at hbeyond
            omega
        | some o =>
            cases o with
            | none => exact ⟨marks, hlen, by rw [hmarks, h.firstMarked_of_none ho]⟩
            | some hash =>
                refine ⟨marks ++ [(n, hash)], ?_, ?_⟩
                · have hlast := hhashes _ (List.mem_of_getElem? ho) hash rfl
                  exact List.forall_mem_append.mpr ⟨hlen, List.forall_mem_singleton.mpr hlast⟩
                · rw [markAll_append, hmarks]
                  simp only [Except.bind, ResumeState.markAll, h.mark_firstMarked ho]
  obtain ⟨marks, hlen, hmarks⟩ := hprefix s.totalBlocks le_rfl
  rw [h.firstMarked_all] at hmarks
  exact ⟨marks, hlen, hmarks⟩

end

/-! ## Loading -/

/-- The numbers fit their types, and the hashes are 32 bytes. -/
structure Storable (s : ResumeState) : Prop where
  fileSize_lt : s.fileSize < 2 ^ 64
  blockSize_lt : s.blockSize < 2 ^ 64
  totalBlocks_lt : s.totalBlocks < 2 ^ 32
  bitmap_lt : s.completedBlocks.length < 2 ^ 64
  hashes_lt : s.blockHashes.length < 2 ^ 64
  hash_length : ∀ o ∈ s.blockHashes, ∀ hash, o = some hash → hash.length = 32

theorem storable_new {fileSize blockSize totalBlocks : ℕ} (sessionId : UInt32)
    (hf : fileSize < 2 ^ 64) (hb : blockSize < 2 ^ 64) (ht : totalBlocks < 2 ^ 32) :
    (new sessionId fileSize blockSize totalBlocks).Storable := by
  refine ⟨hf, hb, ht, ?_, ?_, ?_⟩
  · simp only [new, List.length_replicate]
    omega
  · simp only [new, List.length_replicate]
    omega
  · intro o ho hash heq
    rw [(List.mem_replicate.mp ho).2] at heq
    cases heq

theorem Storable.mark (hs : s.Storable) {id : ℕ} {hash : Hash} (hlen : hash.length = 32)
    (h : s.markComplete id hash = .ok s') : s'.Storable := by
  obtain ⟨hf, hb, ht, hbits, hhashes⟩ := markComplete_frame h
  refine ⟨hf ▸ hs.fileSize_lt, hb ▸ hs.blockSize_lt, ht ▸ hs.totalBlocks_lt, hbits ▸ hs.bitmap_lt,
    hhashes ▸ hs.hashes_lt, fun o ho hash' heq => ?_⟩
  obtain ⟨j, hj⟩ := List.mem_iff_getElem?.mp ho
  by_cases hid : id < s.completedBlocks.length
  · rw [blockHashes_markComplete h hid] at hj
    split at hj
    · obtain rfl := Option.some.inj hj
      obtain rfl := Option.some.inj heq
      exact hlen
    · exact hs.hash_length o (List.mem_of_getElem? hj) hash' heq
  · rw [markComplete_of_ge hash (not_lt.mp hid)] at h
    obtain rfl := Except.ok.inj h
    exact hs.hash_length o ho hash' heq

theorem Storable.markAll (hs : s.Storable) {marks : List (ℕ × Hash)}
    (hlen : ∀ m ∈ marks, m.2.length = 32) (h : s.markAll marks = .ok s') : s'.Storable := by
  induction marks generalizing s with
  | nil =>
      obtain rfl := Except.ok.inj h
      exact hs
  | cons m marks ih =>
      obtain ⟨id, hash⟩ := m
      rw [ResumeState.markAll] at h
      cases hmark : s.markComplete id hash with
      | error fault =>
          rw [hmark] at h
          cases h
      | ok s₁ =>
          rw [hmark] at h
          exact ih (hs.mark (hlen _ List.mem_cons_self) hmark)
            (fun m hm => hlen m (List.mem_cons_of_mem _ hm)) h

/-- What is assumed of `bincode`: it represents the states whose fields are values of their types. -/
def Represents (B : Format ResumeState) : Prop := ∀ s, B.Valid s ↔ s.Storable

variable {B : Format ResumeState}

theorem fileOf_eq_saved {bytes : Bytes} : fileOf B bytes = .saved s ↔ B.read bytes = some s := by
  unfold fileOf
  split
  · next t ht => simp [ht]
  · next hnone => simp [hnone]

/-- **What is saved is loaded again** for a transfer with the same numbers. -/
theorem load_of_isPrefix (hB : Represents B) (hs : s.Storable) {bytes : Bytes}
    (h : B.put s <+: bytes) :
    (load (some (fileOf B bytes)) s.fileSize s.blockSize s.totalBlocks).1 = some s := by
  rw [fileOf_eq_saved.mpr (B.read_eq_some.mpr ⟨(hB s).mpr hs, h⟩)]
  simp [load]

/-- **A loaded state is sound exactly if `save` can have written its file.** -/
theorem loaded_sound_iff (hB : Represents B) {bytes : Bytes} {fileSize blockSize : UInt64}
    {totalBlocks : UInt32}
    (h : (load (some (fileOf B bytes)) fileSize.toNat blockSize.toNat totalBlocks.toNat).1
      = some s) :
    s.Sound totalBlocks.toNat ↔
      SavedFor B bytes fileSize.toNat blockSize.toNat totalBlocks.toNat := by
  obtain ⟨hfile, hf, hb, ht⟩ := load_eq_some h
  have hread := fileOf_eq_saved.mp (Option.some.inj hfile)
  obtain ⟨hvalid, hprefix⟩ := B.read_eq_some.mp hread
  have hstorable := (hB s).mp hvalid
  constructor
  · intro hsound
    -- a state that agrees is made from a new one, and what was read begins with its encoding
    have hagrees : s.Agrees s.totalBlocks := ht ▸ hsound.toAgrees
    obtain ⟨marks, hlen, hmarks⟩ := hagrees.exists_marks hstorable.hash_length
    rw [hf, hb, ht] at hmarks
    exact ⟨s.sessionId, marks, s, hlen, hmarks, hprefix⟩
  · rintro ⟨sessionId, marks, t, hlen, hmarks, hsaved⟩
    have hnew := storable_new sessionId fileSize.toNat_lt blockSize.toNat_lt totalBlocks.toNat_lt
    have hback := B.read_eq_some.mpr ⟨(hB t).mpr (hnew.markAll hlen hmarks), hsaved⟩
    obtain rfl := Option.some.inj (hread.symm.trans hback)
    obtain ⟨s', hs', hagrees⟩ := (agrees_new sessionId fileSize.toNat blockSize.toNat
      totalBlocks.toNat).markAll marks
    obtain rfl := Except.ok.inj (hs'.symm.trans hmarks)
    exact hagrees.sound ht totalBlocks.toNat_lt

/-! ## The layout of a state

`bincode` with its default options.
-/

def u32Format : Format UInt32 :=
  (Format.uint 4).map UInt32.ofNat UInt32.toNat (fun _ => UInt32.ofNat_toNat) fun _ h =>
    UInt32.toNat_ofNat_of_lt' h

/-- The fields in order; a `usize` is eight bytes. -/
def layout : Format ResumeState :=
  (u32Format.pair ((Format.uint 8).pair ((Format.uint 8).pair ((Format.uint 4).pair
    (Format.bool.vec.pair (Format.bytes 32).option.vec))))).map
    (fun x => ⟨x.1, x.2.1, x.2.2.1, x.2.2.2.1, x.2.2.2.2.1, x.2.2.2.2.2⟩)
    (fun s => (s.sessionId, s.fileSize, s.blockSize, s.totalBlocks, s.completedBlocks,
      s.blockHashes))
    (fun _ => rfl) (fun _ _ => rfl)

theorem represents_layout : Represents layout := by
  intro s
  have h8 : (256 : ℕ) ^ 8 = 2 ^ 64 := by norm_num
  have h4 : (256 : ℕ) ^ 4 = 2 ^ 32 := by norm_num
  have hsession : s.sessionId.toNat < 2 ^ 32 := s.sessionId.toNat_lt
  constructor
  · rintro ⟨-, hf, hb, ht, ⟨hbits, -⟩, hhashes, hall⟩
    exact ⟨h8 ▸ hf, h8 ▸ hb, h4 ▸ ht, h8 ▸ hbits, h8 ▸ hhashes, hall⟩
  · intro h
    exact ⟨hsession.trans_eq h4.symm, h.fileSize_lt.trans_eq h8.symm,
      h.blockSize_lt.trans_eq h8.symm, h.totalBlocks_lt.trans_eq h4.symm,
      ⟨h.bitmap_lt.trans_eq h8.symm, fun _ _ => trivial⟩, h.hashes_lt.trans_eq h8.symm,
      h.hash_length⟩

/-- A state for two blocks of which the second is marked. -/
def halfState : ResumeState :=
  { sessionId := 9, fileSize := 5, blockSize := 4, totalBlocks := 2,
    completedBlocks := [false, true], blockHashes := [none, some (List.replicate 32 7)] }

/-- It is loaded from the file that it is saved to, and can be relied on. -/
theorem loaded_sound_iff_half :
    (load (some (fileOf layout (layout.put halfState))) (5 : UInt64).toNat (4 : UInt64).toNat
        (2 : UInt32).toNat).1 = some halfState ∧
      halfState.Sound (2 : UInt32).toNat := by
  have hmarks : (new 9 (5 : UInt64).toNat (4 : UInt64).toNat (2 : UInt32).toNat).markAll
      [(1, List.replicate 32 7)] = .ok halfState := by
    simp [new, markAll, markComplete, halfState, Except.bind]
  have hlen : ∀ m ∈ [((1 : ℕ), (List.replicate 32 7 : Hash))], m.2.length = 32 := by
    intro m hm
    obtain rfl := List.mem_singleton.mp hm
    exact List.length_replicate
  have hnew := storable_new 9 (UInt64.toNat_lt 5) (UInt64.toNat_lt 4) (UInt32.toNat_lt 2)
  have hload :=
    load_of_isPrefix represents_layout (hnew.markAll hlen hmarks) (List.prefix_refl _)
  exact ⟨hload, (loaded_sound_iff represents_layout hload).mpr
    ⟨9, _, _, hlen, hmarks, List.prefix_refl _⟩⟩

/-- A state for one block, with an entry in the bitmap and none for the hash. -/
def shortState : ResumeState :=
  { sessionId := 9, fileSize := 4, blockSize := 4, totalBlocks := 1, completedBlocks := [false],
    blockHashes := [] }

/-- It is loaded, and marking its block is out of range. -/
theorem shortState_not_sound :
    ¬ ∀ (bytes : Bytes) (fileSize blockSize : UInt64) (totalBlocks : UInt32) (s : ResumeState),
      (load (some (fileOf layout bytes)) fileSize.toNat blockSize.toNat totalBlocks.toNat).1
        = some s →
      s.Sound totalBlocks.toNat := by
  intro h
  have hstorable : shortState.Storable := by
    refine ⟨by decide, by decide, by decide, by decide, by decide, fun o ho => ?_⟩
    cases ho
  have hload := load_of_isPrefix represents_layout hstorable (List.prefix_refl _)
  obtain ⟨s', hmark⟩ := (h _ 4 4 1 shortState hload).marks [(0, List.replicate 32 0)]
  cases hmark

end ResumeState

end Updown
