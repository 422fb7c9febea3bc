import Updown.Serve

set_option autoImplicit false

/-! # Negotiating a transfer

One session between `negotiate_send` and the send engine on one side and `run_serve` with the task
it spawns on the other. Control messages arrive in order, after any delay; hashing, scheduling and
set-up take any time. The sender learns nothing of the bind: it starts when its wait for hashes
ends, and `data_follows_bind` says what that comes to.
-/

namespace Updown

open Transition

/-- What a session is about: the request, the port and key `run_serve` chooses, and the hashes of an
existing file of the same size. -/
structure SessionPlan where
  request : TransferRequest
  dataPort : UInt16
  sharedKey : Vector UInt8 KEY_LEN
  hashes : Option (List Hash)

/-- Where the sender is. -/
inductive SenderPhase where
  | connecting
  | awaitAccept
  | awaitKey (dataPort : UInt16)
  /-- At most 500 ms in `recv_msg`. -/
  | awaitHashes (dataPort : UInt16) (key : Bytes)
  /-- In the send engine. -/
  | sending (dataPort : UInt16) (key : Bytes) (receiverHashes : List Hash)
  /-- `negotiate_send` has returned an error; the fallback is another session. -/
  | failed
  deriving DecidableEq

/-- Where `run_serve` is with the request. -/
inductive ServePhase where
  | accepting
  | requested
  | accepted
  | keyed
  | answered
  /-- The task is spawned, and the loop is back at `accept`. -/
  | spawned
  deriving DecidableEq

/-- Where the spawned task is in `receive_file`. -/
inductive TaskPhase where
  | notSpawned
  | loadingResume
  | openingFile
  | sizingFile
  /-- In `UdpReceiver::new`. -/
  | binding
  | receiving
  | failed
  deriving DecidableEq

structure Session where
  sender : SenderPhase
  serve : ServePhase
  task : TaskPhase
  /-- Messages from the endpoint to the sender. -/
  inFlight : List ControlMessage
  /-- The data packets the sender has put on the network. -/
  dataSent : ℕ
  deriving DecidableEq

inductive SessionEvent where
  | connect
  | recvRequest
  | sendAccept
  | sendKey
  /-- An existing file is hashed and the hashes sent, or there is none. -/
  | sendHashes
  | spawn
  /-- The task does the next of load, open, `set_len` and bind. -/
  | taskStep
  | taskFails
  | deliver
  /-- 500 ms have passed since the key, or the control channel fails. -/
  | hashTimeout
  | senderFails
  | sendData
  deriving DecidableEq

namespace Session

def start : Session := ⟨.connecting, .accepting, .notSpawned, [], 0⟩

/-- The sender takes a message. -/
def recvMsg : SenderPhase → ControlMessage → SenderPhase
  | .awaitAccept, .transferAccept _ port => .awaitKey port
  | .awaitKey port, .keyExchange _ key =>
      if key.length = KEY_LEN then .awaitHashes port key else .failed
  | .awaitHashes port key, .deltaSyncHashes _ _ hashes => .sending port key hashes
  | .awaitHashes port key, _ => .sending port key []
  | _, _ => .failed

/-- The next step of `receive_file` up to the bind. -/
def TaskPhase.next : TaskPhase → Option TaskPhase
  | .loadingResume => some .openingFile
  | .openingFile => some .sizingFile
  | .sizingFile => some .binding
  | .binding => some .receiving
  | _ => none

/-- An error of the control channel leaves `negotiate_send`. -/
def fallible : SenderPhase → Bool
  | .awaitAccept | .awaitKey _ => true
  | _ => false

/-- The sender reads from the control channel. -/
def waits : SenderPhase → Bool
  | .awaitAccept | .awaitKey _ | .awaitHashes _ _ => true
  | _ => false

def step (plan : SessionPlan) (s : Session) : SessionEvent → Option Session
  | .connect => if s.sender = .connecting then some { s with sender := .awaitAccept } else none
  | .recvRequest =>
      if s.serve = .accepting ∧ s.sender ≠ .connecting then some { s with serve := .requested }
      else none
  | .sendAccept =>
      if s.serve = .requested then
        some { s with
          serve := .accepted
          inFlight := s.inFlight ++ [.transferAccept plan.request.sessionId plan.dataPort] }
      else none
  | .sendKey =>
      if s.serve = .accepted then
        some { s with
          serve := .keyed
          inFlight := s.inFlight ++ [.keyExchange plan.request.sessionId plan.sharedKey.toList] }
      else none
  | .sendHashes =>
      if s.serve = .keyed then
        some { s with
          serve := .answered
          inFlight := s.inFlight ++
            (plan.hashes.map fun h => .deltaSyncHashes plan.request.sessionId 0 h).toList }
      else none
  | .spawn =>
      if s.serve = .answered then some { s with serve := .spawned, task := .loadingResume }
      else none
  | .taskStep => (TaskPhase.next s.task).map fun task => { s with task := task }
  | .taskFails =>
      if (TaskPhase.next s.task).isSome then some { s with task := .failed } else none
  | .deliver =>
      match s.inFlight with
      | msg :: rest =>
          if waits s.sender then
            some { s with sender := recvMsg s.sender msg, inFlight := rest }
          else none
      | [] => none
  | .hashTimeout =>
      match s.sender with
      | .awaitHashes port key => some { s with sender := .sending port key [] }
      | _ => none
  | .senderFails =>
      if fallible s.sender then some { s with sender := .failed } else none
  | .sendData =>
      match s.sender with
      | .sending _ _ _ => some { s with dataSent := s.dataSent + 1 }
      | _ => none

/-- The event ends the sender's wait for hashes: they arrive, or the 500 ms are over. -/
def EndsWait (s : Session) (e : SessionEvent) : Prop :=
  (∃ port key, s.sender = .awaitHashes port key) ∧ (e = .deliver ∨ e = .hashTimeout)

/-- Data on the network is preceded by the bind of its socket. -/
def DataFollowsBind (s : Session) : Prop := 0 < s.dataSent → s.task = .receiving

variable {plan : SessionPlan}

/-- What a step needs and what it changes. -/
inductive StepCases (plan : SessionPlan) (s : Session) : SessionEvent → Session → Prop
  | connect (hsender : s.sender = .connecting) :
      StepCases plan s .connect { s with sender := .awaitAccept }
  | recvRequest (hserve : s.serve = .accepting) (hsender : s.sender ≠ .connecting) :
      StepCases plan s .recvRequest { s with serve := .requested }
  | sendAccept (hserve : s.serve = .requested) :
      StepCases plan s .sendAccept { s with
        serve := .accepted
        inFlight := s.inFlight ++ [.transferAccept plan.request.sessionId plan.dataPort] }
  | sendKey (hserve : s.serve = .accepted) :
      StepCases plan s .sendKey { s with
        serve := .keyed
        inFlight := s.inFlight ++ [.keyExchange plan.request.sessionId plan.sharedKey.toList] }
  | sendHashes (hserve : s.serve = .keyed) :
      StepCases plan s .sendHashes { s with
        serve := .answered
        inFlight := s.inFlight ++
          (plan.hashes.map fun h => .deltaSyncHashes plan.request.sessionId 0 h).toList }
  | spawn (hserve : s.serve = .answered) :
      StepCases plan s .spawn { s with serve := .spawned, task := .loadingResume }
  | taskStep (task : TaskPhase) (htask : TaskPhase.next s.task = some task) :
      StepCases plan s .taskStep { s with task := task }
  | taskFails (htask : TaskPhase.next s.task ≠ none) :
      StepCases plan s .taskFails { s with task := .failed }
  | deliver (msg : ControlMessage) (rest : List ControlMessage)
      (hflight : s.inFlight = msg :: rest) (hwaits : waits s.sender = true) :
      StepCases plan s .deliver { s with sender := recvMsg s.sender msg, inFlight := rest }
  | hashTimeout (port : UInt16) (key : Bytes) (hsender : s.sender = .awaitHashes port key) :
      StepCases plan s .hashTimeout { s with sender := .sending port key [] }
  | senderFails (hsender : fallible s.sender = true) :
      StepCases plan s .senderFails { s with sender := .failed }
  | sendData (hsender : ∃ port key hashes, s.sender = .sending port key hashes) :
      StepCases plan s .sendData { s with dataSent := s.dataSent + 1 }

theorem step_cases {s s' : Session} {e : SessionEvent} (hs : s.step plan e = some s') :
    StepCases plan s e s' := by
  cases e with
  | taskStep =>
      obtain ⟨task, htask, rfl⟩ := Option.map_eq_some_iff.mp hs
      exact .taskStep task htask
  | deliver =>
      simp only [step] at hs
      split at hs
      · next msg rest hflight =>
          obtain ⟨hwaits, rfl⟩ := Option.ite_some_none_eq_some.mp hs
          exact .deliver msg rest hflight hwaits
      · cases hs
  | hashTimeout =>
      simp only [step] at hs
      split at hs
      · next port key hsender =>
          obtain rfl := Option.some.inj hs
          exact .hashTimeout port key hsender
      · cases hs
  | sendData =>
      simp only [step] at hs
      split at hs
      · next port key hashes hsender =>
          obtain rfl := Option.some.inj hs
          exact .sendData ⟨port, key, hashes, hsender⟩
      · cases hs
  | connect =>
      obtain ⟨hsender, rfl⟩ := Option.ite_some_none_eq_some.mp hs
      exact .connect hsender
  | recvRequest =>
      obtain ⟨⟨hserve, hsender⟩, rfl⟩ := Option.ite_some_none_eq_some.mp hs
      exact .recvRequest hserve hsender
  | sendAccept =>
      obtain ⟨hserve, rfl⟩ := Option.ite_some_none_eq_some.mp hs
      exact .sendAccept hserve
  | sendKey =>
      obtain ⟨hserve, rfl⟩ := Option.ite_some_none_eq_some.mp hs
      exact .sendKey hserve
  | sendHashes =>
      obtain ⟨hserve, rfl⟩ := Option.ite_some_none_eq_some.mp hs
      exact .sendHashes hserve
  | spawn =>
      obtain ⟨hserve, rfl⟩ := Option.ite_some_none_eq_some.mp hs
      exact .spawn hserve
  | taskFails =>
      obtain ⟨htask, rfl⟩ := Option.ite_some_none_eq_some.mp hs
      exact .taskFails (Option.isSome_iff_ne_none.mp htask)
  | senderFails =>
      obtain ⟨hsender, rfl⟩ := Option.ite_some_none_eq_some.mp hs
      exact .senderFails hsender

/-- **What a step does to the task**: nothing, one step of its own, a failure, or its start. -/
theorem task_cases {s s' : Session} {e : SessionEvent} (hs : s.step plan e = some s') :
    (s'.task = s.task ∧ (s.serve = .spawned → s'.serve = .spawned)) ∨
    (TaskPhase.next s.task ≠ none ∧ s'.serve = s.serve ∧ s'.sender = s.sender ∧
      s'.dataSent = s.dataSent) ∨
    (s.serve = .answered ∧ s'.serve = .spawned ∧ s'.sender = s.sender ∧
      s'.dataSent = s.dataSent) := by
  cases step_cases hs with
  | taskStep task htask => exact Or.inr (Or.inl ⟨by rw [htask]; simp, rfl, rfl, rfl⟩)
  | taskFails htask => exact Or.inr (Or.inl ⟨htask, rfl, rfl, rfl⟩)
  | spawn hserve => exact Or.inr (Or.inr ⟨hserve, rfl, rfl, rfl⟩)
  -- the steps of `run_serve` before it spawns the task
  | recvRequest hserve | sendAccept hserve | sendKey hserve | sendHashes hserve =>
      refine Or.inl ⟨rfl, fun hspawned => ?_⟩
      rw [hserve] at hspawned
      cases hspawned
  | connect | senderFails | deliver | hashTimeout | sendData => exact Or.inl ⟨rfl, id⟩

/-- The sender is in its send loop. -/
def Sends (s : Session) : Prop := ∃ port key hashes, s.sender = .sending port key hashes

/-- Only from its wait for hashes does a message take the sender to its send loop. -/
theorem awaitHashes_of_recvMsg {sender : SenderPhase} {msg : ControlMessage} {port : UInt16}
    {key : Bytes} {hashes : List Hash} (h : recvMsg sender msg = .sending port key hashes) :
    ∃ port key, sender = .awaitHashes port key := by
  cases sender with
  | awaitHashes port key => exact ⟨port, key, rfl⟩
  | awaitKey port =>
      cases msg with
      | keyExchange session key =>
          simp only [recvMsg] at h
          split at h <;> cases h
      | _ =>
          simp only [recvMsg] at h
          cases h
  | awaitAccept =>
      cases msg <;> cases h
  | connecting | sending | failed =>
      simp only [recvMsg] at h
      cases h

/-- **The sender gets to its send loop by the end of its wait only**, and sends there only. -/
theorem sends_cases {s s' : Session} {e : SessionEvent} (hs : s.step plan e = some s')
    (h : s'.Sends ∨ s.dataSent < s'.dataSent) : s.Sends ∨ EndsWait s e := by
  cases step_cases hs with
  | taskStep | taskFails | spawn | recvRequest | sendAccept | sendKey | sendHashes =>
      exact Or.inl (h.resolve_right (lt_irrefl _))
  | connect | senderFails =>
      obtain ⟨port, key, hashes, hsender⟩ := h.resolve_right (lt_irrefl _)
      cases hsender
  | deliver msg rest =>
      obtain ⟨port, key, hashes, hsender⟩ := h.resolve_right (lt_irrefl _)
      exact Or.inr ⟨awaitHashes_of_recvMsg hsender, Or.inl rfl⟩
  | hashTimeout port key hsender => exact Or.inr ⟨⟨port, key, hsender⟩, Or.inr rfl⟩
  | sendData hsender => exact Or.inl hsender

/-- A task that receives goes on receiving, and is the only one of the session. -/
def Bound (s : Session) : Prop := s.task = .receiving ∧ s.serve = .spawned

theorem Bound.step {s s' : Session} {e : SessionEvent} (h : s.Bound)
    (hs : s.step plan e = some s') : s'.Bound := by
  obtain ⟨htask, hserve⟩ := h
  rcases task_cases hs with ⟨heq, hkept⟩ | ⟨hnext, -⟩ | ⟨hanswered, -⟩
  · exact ⟨heq.trans htask, hkept hserve⟩
  · rw [htask] at hnext
    exact absurd rfl hnext
  · rw [hserve] at hanswered
    cases hanswered

/-- The task exists only once it is spawned. -/
theorem spawned_of_reaches {P : Session → SessionEvent → Prop} {s : Session}
    (hrun : Reaches (Session.step plan) P start s) (h : s.task ≠ .notSpawned) :
    s.serve = .spawned := by
  refine hrun.invariant (I := fun u => u.task ≠ .notSpawned → u.serve = .spawned)
    (fun h => absurd rfl h) (fun u e u' hu _ hs htask => ?_) h
  rcases task_cases hs with ⟨heq, hkept⟩ | ⟨hnext, hserve, -⟩ | ⟨-, hspawned, -⟩
  · exact hkept (hu (heq ▸ htask))
  · rw [hserve]
    refine hu fun hnone => hnext ?_
    rw [hnone]
    rfl
  · exact hspawned

/-- **Data never precedes the bound socket exactly if the wait for the hashes outlasts the bind.** In
every run in which the sender's wait ends only once the task receives, data follows the bind; and a
wait that ends earlier is followed by a run in which it does not. -/
theorem data_follows_bind (plan : SessionPlan) :
    (∀ s, Reaches (Session.step plan) (fun u e => EndsWait u e → u.task = .receiving) start s →
      s.DataFollowsBind) ∧
    (∀ s e s', Reaches (Session.step plan) (fun _ _ => True) start s → EndsWait s e →
      s.step plan e = some s' →
      ((∀ t, Reaches (Session.step plan) (fun _ _ => True) s' t → t.DataFollowsBind) ↔
        s.task = .receiving)) := by
  constructor
  · intro s hrun
    have hinv := hrun.invariant_along
      (I := fun u => (u.Sends → u.Bound) ∧ (0 < u.dataSent → u.Bound))
      ⟨fun ⟨_, _, _, h⟩ => (by cases h), fun h => absurd h (lt_irrefl 0)⟩ ?_
    · exact fun hdata => (hinv.2 hdata).1
    intro u e u' hu hI he hs
    have hends : EndsWait u e → u.Bound := by
      intro hwait
      have htask := he hwait
      exact ⟨htask, spawned_of_reaches hu (by rw [htask]; simp)⟩
    have hstep : ∀ h : u'.Sends ∨ u.dataSent < u'.dataSent, u'.Bound := fun h =>
      (sends_cases hs h).elim (fun hsends => (hI.1 hsends).step hs)
        fun hwait => (hends hwait).step hs
    refine ⟨fun hsends => hstep (Or.inl hsends), fun hdata => ?_⟩
    by_cases hlt : u.dataSent < u'.dataSent
    · exact hstep (Or.inr hlt)
    · exact (hI.2 (by omega)).step hs
  · intro s e s' hrun hwait hs
    constructor
    · intro hfollows
      -- the sender may send at once
      obtain ⟨⟨port, key, hphase⟩, hevent⟩ := hwait
      obtain ⟨port', key', hashes, hsender, htask⟩ : ∃ port' key' hashes,
          s'.sender = .sending port' key' hashes ∧ s'.task = s.task := by
        rcases hevent with rfl | rfl
        · cases step_cases hs with
          | deliver msg rest =>
              rw [hphase]
              cases msg <;> exact ⟨_, _, _, rfl, rfl⟩
        · cases step_cases hs with
          | hashTimeout => exact ⟨_, _, _, rfl, rfl⟩
      have hsend : s'.step plan .sendData = some { s' with dataSent := s'.dataSent + 1 } := by
        simp only [step, hsender]
      have hdata := hfollows _ (Reaches.single trivial hsend) (Nat.succ_pos _)
      rw [← htask]
      exact hdata
    · intro htask t ht _
      have hbound : s.Bound := ⟨htask, spawned_of_reaches hrun (by rw [htask]; simp)⟩
      exact (ht.invariant (I := Bound) (hbound.step hs) fun u e u' hu _ hs => hu.step hs).1

/-- A session without an existing file. -/
def plainPlan : SessionPlan :=
  { request := ⟨9, "a.bin", 5, 4, 2, []⟩, dataPort := 9001,
    sharedKey := Vector.replicate KEY_LEN 7, hashes := none }

/-- **The 500 ms are over before the task is spawned**, and the sender sends. -/
theorem data_precedes_bind :
    ∃ s, Reaches (Session.step plainPlan) (fun _ _ => True) start s ∧ s.dataSent = 1 ∧
      s.task = .notSpawned ∧ ¬ s.DataFollowsBind := by
  obtain ⟨s, hs, hcheck⟩ := exists_of_runAll (Session.step plainPlan) start
    [.connect, .recvRequest, .sendAccept, .sendKey, .deliver, .deliver, .hashTimeout, .sendData]
    (fun s => decide (s.dataSent = 1) && decide (s.task = .notSpawned)) (by decide)
  simp only [Bool.and_eq_true, decide_eq_true_eq] at hcheck
  obtain ⟨hdata, htask⟩ := hcheck
  refine ⟨s, Reaches.of_runAll hs (allowedAlong_of_forall fun _ _ _ => trivial), hdata, htask, ?_⟩
  intro hfollows
  have hreceiving := hfollows (by omega)
  rw [htask] at hreceiving
  cases hreceiving

end Session

end Updown
