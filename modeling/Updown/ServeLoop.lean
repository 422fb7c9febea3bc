import Updown.Serve

set_option autoImplicit false

/-! # The loop of `run_serve`

`run_serve` takes one control connection after another. An error of `accept`, of the first message
or of one of the two answers leaves the function; the hashes for delta sync and everything in the
task of the transfer do not. Each transfer gets its data port from a 16-bit counter that knows
nothing of the transfers that are still active.
-/

namespace Updown

open Transition

/-! ## Clients -/

/-- A client, as one round of the loop meets it. -/
structure ControlPeer where
  /-- The handshake succeeds and the client opens its stream. -/
  connects : Bool
  /-- What `recv_msg` returns, if not an error. -/
  firstMessage : Option ControlMessage
  /-- The client is still there when `TransferAccept` is written, and `KeyExchange`. -/
  acceptSent : Bool
  keySent : Bool
  /-- The file at the output path of the request. -/
  existing : Option Bytes
  /-- The key drawn for the transfer. -/
  sharedKey : Vector UInt8 KEY_LEN

/-- How `run_serve` ends. -/
inductive ServeEnd where
  | returned
  | panicked (fault : Fault)
  deriving DecidableEq

/-- What a round answers its client, and the port counter after it. -/
structure Round where
  portCounter : UInt16
  answer : List ControlMessage
  deriving DecidableEq

/-- One round of the loop. -/
def serveRound (C : Crates) (portCounter : UInt16) (c : ControlPeer) : Except ServeEnd Round :=
  if c.connects = false then .error .returned
  else
    match c.firstMessage with
    | none => .error .returned
    | some msg =>
        match TransferRequest.ofMessage msg with
        | none => .ok ⟨portCounter, []⟩
        | some req =>
            if c.acceptSent = false then .error .returned
            else if c.keySent = false then .error .returned
            else
              match req.deltaHashes C c.existing with
              | .error fault => .error (.panicked fault)
              | .ok hashes => .ok ⟨portCounter + 1, req.replies portCounter c.sharedKey hashes⟩

/-- The loop over the clients that come: the port counter when it is back at `accept`. -/
def serveLoop (C : Crates) : UInt16 → List ControlPeer → Except ServeEnd UInt16
  | portCounter, [] => .ok portCounter
  | portCounter, c :: cs =>
      match serveRound C portCounter c with
      | .error e => .error e
      | .ok round => serveLoop C round.portCounter cs

/-- What a client is answered after the others. -/
def answerAfter (C : Crates) (portCounter : UInt16) (cs : List ControlPeer) (c : ControlPeer) :
    Except ServeEnd (List ControlMessage) :=
  match serveLoop C portCounter cs with
  | .error e => .error e
  | .ok port => (serveRound C port c).map Round.answer

/-- The client completes the handshake and its first message can be decoded; if that is a request,
the client takes both answers, and hashing the existing file does not go wrong. -/
structure ControlPeer.Harmless (C : Crates) (c : ControlPeer) : Prop where
  connects : c.connects = true
  message : ∃ msg, c.firstMessage = some msg ∧
    ∀ req, TransferRequest.ofMessage msg = some req → c.acceptSent = true ∧ c.keySent = true ∧
      ∃ hashes, req.deltaHashes C c.existing = .ok hashes

/-- The request the client opens with. -/
def ControlPeer.request (c : ControlPeer) : Option TransferRequest :=
  c.firstMessage.bind TransferRequest.ofMessage

/-- A client that makes a request and stays for the answers. -/
structure ControlPeer.Requests (C : Crates) (c : ControlPeer) (req : TransferRequest) : Prop where
  harmless : c.Harmless C
  request : c.request = some req

/-- The server survives these clients: it is back at `accept`, and a request that comes then is
answered with `TransferAccept` and `KeyExchange`, just as without the clients that made none. -/
structure Survives (C : Crates) (portCounter : UInt16) (cs : List ControlPeer) : Prop where
  running : ∃ port, serveLoop C portCounter cs = .ok port
  answers : ∀ c req, c.Requests C req → ∃ port hashes,
    answerAfter C portCounter cs c = .ok (req.replies port c.sharedKey hashes) ∧
    answerAfter C portCounter (cs.filter fun c => c.request.isSome) c
      = .ok (req.replies port c.sharedKey hashes)

variable {C : Crates}

/-- A round ends well exactly for a harmless client. -/
theorem serveRound_ok_iff (portCounter : UInt16) {c : ControlPeer} :
    (∃ round, serveRound C portCounter c = .ok round) ↔ c.Harmless C := by
  constructor
  · rintro ⟨round, h⟩
    unfold serveRound at h
    -- in the order of the `?` of `run_serve`: each one that fires ends the program
    by_cases hconnects : c.connects = false
    · rw [if_pos hconnects] at h
      cases h
    rw [if_neg hconnects] at h
    refine ⟨by simpa using hconnects, ?_⟩
    cases hmsg : c.firstMessage with
    | none =>
        rw [hmsg] at h
        cases h
    | some msg =>
        refine ⟨msg, rfl, fun req hreq => ?_⟩
        simp only [hmsg, hreq] at h
        by_cases haccept : c.acceptSent = false
        · rw [if_pos haccept] at h
          cases h
        rw [if_neg haccept] at h
        by_cases hkey : c.keySent = false
        · rw [if_pos hkey] at h
          cases h
        rw [if_neg hkey] at h
        cases hhashes : req.deltaHashes C c.existing with
        | error fault =>
            rw [hhashes] at h
            cases h
        | ok hashes => exact ⟨by simpa using haccept, by simpa using hkey, hashes, rfl⟩
  · rintro ⟨hconnects, msg, hmsg, hrequest⟩
    simp only [serveRound, hconnects, hmsg, Bool.true_eq_false, if_false]
    cases hreq : TransferRequest.ofMessage msg with
    | none => exact ⟨_, rfl⟩
    | some req =>
        obtain ⟨haccept, hkey, hashes, hhashes⟩ := hrequest req hreq
        simp only [haccept, hkey, hhashes, Bool.true_eq_false, if_false]
        exact ⟨_, rfl⟩

/-- A request is answered with the next port. -/
theorem serveRound_request {c : ControlPeer} {req : TransferRequest}
    (h : c.Requests C req) : ∃ hashes, ∀ port,
      serveRound C port c = .ok ⟨port + 1, req.replies port c.sharedKey hashes⟩ := by
  obtain ⟨msg, hmsg, hreq⟩ := Option.bind_eq_some_iff.mp h.request
  obtain ⟨msg', hmsg', hrequest⟩ := h.harmless.message
  obtain rfl := Option.some.inj (hmsg.symm.trans hmsg')
  obtain ⟨haccept, hkey, hashes, hhashes⟩ := hrequest req hreq
  refine ⟨hashes, fun port => ?_⟩
  simp only [serveRound, h.harmless.connects, hmsg, hreq, haccept, hkey, hhashes,
    Bool.true_eq_false, if_false]

/-- A client that makes no request leaves the counter as it is. -/
theorem serveRound_other {portCounter : UInt16} {c : ControlPeer} (h : c.Harmless C)
    (hother : c.request.isSome = false) :
    serveRound C portCounter c = .ok ⟨portCounter, []⟩ := by
  obtain ⟨msg, hmsg, -⟩ := h.message
  have hnone : TransferRequest.ofMessage msg = none := by
    simpa [ControlPeer.request, hmsg] using hother
  simp only [serveRound, h.connects, hmsg, hnone, Bool.true_eq_false, if_false]

/-- The loop goes on exactly as long as the clients are harmless. -/
theorem serveLoop_ok_iff {cs : List ControlPeer} :
    ∀ {portCounter : UInt16}, (∃ port, serveLoop C portCounter cs = .ok port) ↔
      ∀ c ∈ cs, c.Harmless C := by
  induction cs with
  | nil =>
      intro portCounter
      simp [serveLoop]
  | cons c cs ih =>
      intro portCounter
      rw [List.forall_mem_cons, ← serveRound_ok_iff portCounter, serveLoop]
      cases hround : serveRound C portCounter c with
      | error e => simp
      | ok round => simp [ih]

/-- Clients that make no request do not count. -/
theorem serveLoop_filter {cs : List ControlPeer} (h : ∀ c ∈ cs, c.Harmless C) :
    ∀ portCounter, serveLoop C portCounter (cs.filter fun c => c.request.isSome)
      = serveLoop C portCounter cs := by
  induction cs with
  | nil =>
      intro portCounter
      rfl
  | cons c cs ih =>
      intro portCounter
      obtain ⟨hc, hcs⟩ := List.forall_mem_cons.mp h
      cases hreq : c.request.isSome with
      | true =>
          rw [List.filter_cons, if_pos hreq, serveLoop, serveLoop]
          cases serveRound C portCounter c with
          | error e => rfl
          | ok round => exact ih hcs round.portCounter
      | false =>
          rw [List.filter_cons, if_neg (by simp [hreq]), serveLoop, serveRound_other hc hreq]
          exact ih hcs portCounter

/-- **The server survives exactly the harmless clients.** -/
theorem survives_iff (portCounter : UInt16) (cs : List ControlPeer) :
    Survives C portCounter cs ↔ ∀ c ∈ cs, c.Harmless C := by
  constructor
  · intro h
    exact serveLoop_ok_iff.mp h.running
  · intro h
    obtain ⟨port, hport⟩ := serveLoop_ok_iff.mpr h
    refine ⟨⟨port, hport⟩, fun c req hc => ?_⟩
    obtain ⟨hashes, hround⟩ := serveRound_request hc
    refine ⟨port, hashes, ?_, ?_⟩
    · rw [answerAfter, hport]
      show (serveRound C port c).map Round.answer = _
      rw [hround]
      rfl
    · rw [answerAfter, serveLoop_filter h, hport]
      show (serveRound C port c).map Round.answer = _
      rw [hround]
      rfl

/-- A client that fails the handshake. -/
def stranger : ControlPeer :=
  { connects := false, firstMessage := none, acceptSent := false, keySent := false,
    existing := none, sharedKey := Vector.replicate KEY_LEN 7 }

/-- A client that disconnects before the key. -/
def leaver : ControlPeer :=
  { stranger with
    connects := true, acceptSent := true,
    firstMessage := some (.transferRequest 9 "a.bin" 5 4 2 [] 0) }

/-- **One failed handshake ends the server**, and so does a client that leaves before its key. -/
theorem stranger_not_survived :
    serveLoop PlainCrates.plainCrates 9001 [stranger] = .error .returned ∧
    serveLoop PlainCrates.plainCrates 9001 [leaver] = .error .returned ∧
    ¬ Survives PlainCrates.plainCrates 9001 [stranger] := by
  refine ⟨rfl, rfl, fun h => ?_⟩
  obtain ⟨port, hport⟩ := h.running
  cases hport

/-! ## Data ports -/

/-- The port counter, and the ports of the transfers whose task has not ended. The log, on which no
step depends, keeps each announced port with the ports active at the time. -/
structure DataPorts where
  portCounter : UInt16
  active : List UInt16
  announced : List (UInt16 × List UInt16)

inductive PortEvent where
  /-- A transfer is accepted: `fetch_add` on the counter, and `TransferAccept`. -/
  | accepted
  /-- The task of one of the active transfers ends. -/
  | ended (i : ℕ)

namespace DataPorts

/-- `AtomicU16::new(bind.port() + 1)`. -/
def start (bind : UInt16) : Except Fault DataPorts :=
  if bind.toNat + 1 < 2 ^ 16 then .ok ⟨bind + 1, [], []⟩ else .error .overflow

def step (s : DataPorts) : PortEvent → Option DataPorts
  | .accepted =>
      some
        { portCounter := s.portCounter + 1
          active := s.active ++ [s.portCounter]
          announced := s.announced ++ [(s.portCounter, s.active)] }
  | .ended i => if i < s.active.length then some { s with active := s.active.eraseIdx i } else none

/-- The `k`-th port that is announced. -/
def portAt (bind : UInt16) (k : ℕ) : UInt16 := UInt16.ofNat (bind.toNat + 1 + k)

theorem portAt_toNat {bind : UInt16} {k : ℕ} (h : bind.toNat + 1 + k < 2 ^ 16) :
    (portAt bind k).toNat = bind.toNat + 1 + k :=
  UInt16.toNat_ofNat_of_lt' h

/-- What is announced and what is active. -/
structure Counted (bind : UInt16) (s : DataPorts) : Prop where
  portCounter : s.portCounter = portAt bind s.announced.length
  announced : ∀ k port others, s.announced[k]? = some (port, others) →
    port = portAt bind k ∧ ∀ q ∈ others, ∃ j < k, q = portAt bind j
  active : ∀ q ∈ s.active, ∃ j < s.announced.length, q = portAt bind j

theorem counted_start {bind : UInt16} {s : DataPorts} (h : start bind = .ok s) :
    s.Counted bind ∧ s.announced = [] := by
  unfold start at h
  split at h
  · obtain rfl := Except.ok.inj h
    refine ⟨⟨?_, by simp, by simp⟩, rfl⟩
    show bind + 1 = portAt bind 0
    rw [portAt, Nat.add_zero, UInt16.ofNat_add, UInt16.ofNat_toNat]
    rfl
  · cases h

/-- **Every step keeps count.** -/
theorem Counted.step {bind : UInt16} {s s' : DataPorts} {e : PortEvent} (h : s.Counted bind)
    (hs : s.step e = some s') : s'.Counted bind := by
  cases e with
  | accepted =>
      obtain rfl := Option.some.inj hs
      refine ⟨?_, fun k port others hk => ?_, fun q hq => ?_⟩
      · show s.portCounter + 1 = portAt bind (s.announced ++ [_]).length
        rw [h.portCounter, List.length_append, List.length_singleton, portAt, portAt,
          ← Nat.add_assoc, UInt16.ofNat_add _ 1]
        rfl
      -- announced before, or the one announced now
      · by_cases hlt : k < s.announced.length
        · rw [List.getElem?_append_left hlt] at hk
          exact h.announced k port others hk
        · obtain ⟨hk', heq⟩ : k = s.announced.length ∧
              (s.portCounter, s.active) = (port, others) := by
            rw [List.getElem?_append_right (by omega)] at hk
            have hle := (List.getElem?_eq_some_iff.mp hk).1
            rw [List.length_singleton] at hle
            have hzero : k - s.announced.length = 0 := by omega
            rw [hzero] at hk
            exact ⟨by omega, Option.some.inj hk⟩
          obtain ⟨rfl, rfl⟩ := Prod.mk.inj heq
          rw [hk']
          exact ⟨h.portCounter, h.active⟩
      · rw [List.length_append, List.length_singleton]
        rcases List.mem_append.mp hq with hq | hq
        · obtain ⟨j, hj, heq⟩ := h.active q hq
          exact ⟨j, by omega, heq⟩
        · rw [List.mem_singleton.mp hq]
          exact ⟨s.announced.length, by omega, h.portCounter⟩
  | ended i =>
      simp only [DataPorts.step] at hs
      split at hs
      · obtain rfl := Option.some.inj hs
        exact ⟨h.portCounter, h.announced, fun q hq => h.active q (List.mem_of_mem_eraseIdx hq)⟩
      · cases hs

theorem counted_of_reaches {bind : UInt16} {s₀ s : DataPorts} (hstart : start bind = .ok s₀)
    (hrun : Reaches DataPorts.step (fun _ _ => True) s₀ s) : s.Counted bind :=
  hrun.invariant (counted_start hstart).1 fun _ _ _ h _ hs => h.step hs

/-- Every announced port can be used, and is not in use. -/
def Usable (control : UInt16) (s : DataPorts) : Prop :=
  ∀ x ∈ s.announced, x.1 ≠ 0 ∧ x.1 ≠ control ∧ x.1 ∉ x.2

namespace Counted

variable {bind control : UInt16} {s : DataPorts}

theorem exists_announced (h : s.Counted bind) {k : ℕ} (hk : k < s.announced.length) :
    ∃ others, (portAt bind k, others) ∈ s.announced := by
  obtain ⟨⟨port, others⟩, hget⟩ : ∃ x, s.announced[k]? = some x :=
    ⟨_, List.getElem?_eq_getElem hk⟩
  rw [← (h.announced k port others hget).1]
  exact ⟨others, List.mem_of_getElem? hget⟩

/-- When the counter wraps, it comes to zero. -/
theorem lt_of_usable (h : s.Counted bind) (husable : s.Usable control) :
    bind.toNat + s.announced.length < 2 ^ 16 := by
  by_contra hwrap
  have hbind := bind.toNat_lt
  obtain ⟨others, hmem⟩ := h.exists_announced (k := 2 ^ 16 - 1 - bind.toNat) (by omega)
  refine (husable _ hmem).1 ?_
  have hzero : bind.toNat + 1 + (2 ^ 16 - 1 - bind.toNat) = 2 ^ 16 := by omega
  show portAt bind (2 ^ 16 - 1 - bind.toNat) = 0
  rw [portAt, hzero]
  rfl

/-- A counter that starts at one comes to the port the system has chosen. -/
theorem lt_control_of_usable (h : s.Counted 0) (hsystem : control ≠ 0)
    (husable : s.Usable control) : s.announced.length < control.toNat := by
  by_contra hle
  have hpos : 0 < control.toNat := by
    rw [Nat.pos_iff_ne_zero]
    intro hzero
    exact hsystem (UInt16.toNat_inj.mp hzero)
  obtain ⟨others, hmem⟩ := h.exists_announced (k := control.toNat - 1) (by omega)
  refine (husable _ hmem).2.1 ?_
  have heq : (0 : UInt16).toNat + 1 + (control.toNat - 1) = control.toNat := by
    show 0 + 1 + _ = _
    omega
  show portAt 0 (control.toNat - 1) = control
  rw [portAt, heq, UInt16.ofNat_toNat]

/-- **Until the counter wraps** the announced ports are different numbers beyond the port asked
for. -/
theorem usable (h : s.Counted bind) (hcontrol : bind ≠ 0 → control = bind)
    (hroom : bind.toNat + s.announced.length < 2 ^ 16)
    (hzero : bind = 0 → s.announced.length < control.toNat) : s.Usable control := by
  rintro ⟨port, others⟩ hx
  obtain ⟨k, hget⟩ := List.mem_iff_getElem?.mp hx
  have hk : k < s.announced.length := (List.getElem?_eq_some_iff.mp hget).1
  obtain ⟨rfl, hothers⟩ := h.announced k port others hget
  have hnat : ∀ j ≤ k, (portAt bind j).toNat = bind.toNat + 1 + j :=
    fun j hj => portAt_toNat (by omega)
  refine ⟨fun h0 => ?_, fun hctl => ?_, fun hmem => ?_⟩
  · have hport := congrArg UInt16.toNat h0
    rw [hnat k le_rfl] at hport
    exact absurd hport (by simp)
  · have hport := congrArg UInt16.toNat hctl
    rw [hnat k le_rfl] at hport
    by_cases hb : bind = 0
    · have hlt := hzero hb
      have hnil : bind.toNat = 0 := congrArg UInt16.toNat hb
      omega
    · rw [hcontrol hb] at hport
      omega
  · obtain ⟨j, hj, heq⟩ := hothers _ hmem
    have hport := congrArg UInt16.toNat heq
    rw [hnat k le_rfl, hnat j hj.le] at hport
    omega

end Counted

/-- **Data ports are usable and unshared exactly until the counter wraps.** `control` is the port
the control channel has: the one asked for or, if that is zero, one the system has chosen. -/
theorem usable_iff {bind control : UInt16} (hcontrol : bind ≠ 0 → control = bind)
    (hsystem : control ≠ 0) {s₀ s : DataPorts} (hstart : start bind = .ok s₀)
    (hrun : Reaches DataPorts.step (fun _ _ => True) s₀ s) :
    s.Usable control ↔ bind.toNat + s.announced.length < 2 ^ 16 ∧
      (bind = 0 → s.announced.length < control.toNat) := by
  have hcount := counted_of_reaches hstart hrun
  constructor
  · intro husable
    refine ⟨hcount.lt_of_usable husable, ?_⟩
    rintro rfl
    exact hcount.lt_control_of_usable hsystem husable
  · rintro ⟨hroom, hzero⟩
    exact hcount.usable hcontrol hroom hzero

/-- Two transfers from port 9000, both active. -/
def twoTransfers : DataPorts :=
  ⟨9003, [9001, 9002], [(9001, []), (9002, [9001])]⟩

theorem usable_iff_twoTransfers : twoTransfers.Usable 9000 := by
  have hstart : start 9000 = .ok ⟨9001, [], []⟩ := rfl
  have hrun : Reaches DataPorts.step (fun _ _ => True) ⟨9001, [], []⟩ twoTransfers :=
    (Reaches.single (e := .accepted) trivial rfl).snoc (e := .accepted) trivial rfl
  exact (usable_iff (fun _ => rfl) (by decide) hstart hrun).mpr ⟨by decide, by decide⟩

/-- **The counter wraps**: the second transfer of a server on port 65534 is told to send to port
zero. -/
theorem wrapped_not_usable :
    ∃ s₀ s, start 65534 = .ok s₀ ∧ Reaches DataPorts.step (fun _ _ => True) s₀ s ∧
      s.announced = [(65535, []), (0, [65535])] ∧ ¬ s.Usable 65534 := by
  refine ⟨⟨65535, [], []⟩, ⟨1, [65535, 0], [(65535, []), (0, [65535])]⟩, rfl, ?_, rfl, ?_⟩
  · exact (Reaches.single (e := .accepted) trivial rfl).snoc (e := .accepted) trivial rfl
  · intro husable
    exact (husable (0, [65535]) (by simp)).1 rfl

end DataPorts

end Updown
