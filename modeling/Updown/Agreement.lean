import Updown.Negotiate

set_option autoImplicit false

/-! # Sender and endpoint agree

The endpoint of a session says its port, its key and, if it has them, its hashes, and spawns the
task. However its steps, the sender's and the deliveries mix, and whenever the sender gives up
waiting for hashes: it sends to the port and under the key of the task, and the hashes it compares
with are all of the endpoint's or none (`negotiation_agrees`).
-/

namespace Updown.Session

open Transition

section

variable (plan : SessionPlan)

def acceptMessage : ControlMessage := .transferAccept plan.request.sessionId plan.dataPort

def keyMessage : ControlMessage := .keyExchange plan.request.sessionId plan.sharedKey.toList

def hashMessages : List ControlMessage :=
  (plan.hashes.map fun h => .deltaSyncHashes plan.request.sessionId 0 h).toList

/-- Everything the endpoint has to say. -/
def script : List ControlMessage := acceptMessage plan :: keyMessage plan :: hashMessages plan

/-- What it has said so far. -/
def said : ServePhase → List ControlMessage
  | .accepting | .requested => []
  | .accepted => [acceptMessage plan]
  | .keyed => [acceptMessage plan, keyMessage plan]
  | .answered | .spawned => script plan

/-- Where the sender is, by what it has heard. -/
inductive Heard : List ControlMessage → SenderPhase → Prop
  | connecting : Heard [] .connecting
  | awaitAccept : Heard [] .awaitAccept
  | awaitKey : Heard [acceptMessage plan] (.awaitKey plan.dataPort)
  | awaitHashes : Heard [acceptMessage plan, keyMessage plan]
      (.awaitHashes plan.dataPort plan.sharedKey.toList)
  /-- It has not waited for hashes any longer. -/
  | unheard : Heard [acceptMessage plan, keyMessage plan]
      (.sending plan.dataPort plan.sharedKey.toList [])
  | hashes (h : List Hash) (hplan : plan.hashes = some h) :
      Heard (script plan) (.sending plan.dataPort plan.sharedKey.toList h)
  | failed (heard : List ControlMessage) : Heard heard .failed

end

variable {plan : SessionPlan} {s s' : Session}

theorem said_prefix (phase : ServePhase) : said plan phase <+: script plan := by
  cases phase with
  | accepting | requested => exact List.nil_prefix
  | accepted => exact ⟨keyMessage plan :: hashMessages plan, rfl⟩
  | keyed => exact ⟨hashMessages plan, rfl⟩
  | answered | spawned => exact List.prefix_rfl

/-- What the endpoint has said is what the sender has heard and what is in flight. -/
def InOrder (plan : SessionPlan) (s : Session) : Prop :=
  ∃ heard, heard ++ s.inFlight = said plan s.serve ∧ Heard plan heard s.sender

/-- The next message finds the sender ready for it. -/
theorem Heard.recvMsg {heard : List ControlMessage} {sender : SenderPhase} {msg : ControlMessage}
    {rest : List ControlMessage} (h : Heard plan heard sender) (hwaits : waits sender = true)
    (hsaid : heard ++ msg :: rest <+: script plan) :
    Heard plan (heard ++ [msg]) (Session.recvMsg sender msg) := by
  obtain ⟨later, hscript⟩ := hsaid
  cases h with
  | connecting | unheard | hashes | failed => cases hwaits
  | awaitAccept =>
      obtain ⟨rfl, -⟩ := List.cons.inj hscript
      exact .awaitKey
  | awaitKey =>
      obtain ⟨-, hscript⟩ := List.cons.inj hscript
      obtain ⟨rfl, -⟩ := List.cons.inj hscript
      have hlength : plan.sharedKey.toList.length = KEY_LEN := plan.sharedKey.length_toList
      rw [keyMessage, Session.recvMsg, if_pos hlength]
      exact .awaitHashes
  | awaitHashes =>
      obtain ⟨-, hscript⟩ := List.cons.inj hscript
      obtain ⟨-, hscript⟩ := List.cons.inj hscript
      cases hplan : plan.hashes with
      | none =>
          rw [hashMessages, hplan] at hscript
          cases hscript
      | some h =>
          rw [hashMessages, hplan] at hscript
          obtain ⟨rfl, -⟩ := List.cons.inj hscript
          have hall : [acceptMessage plan, keyMessage plan]
              ++ [.deltaSyncHashes plan.request.sessionId 0 h] = script plan := by
            rw [script, hashMessages, hplan]
            rfl
          rw [hall]
          exact .hashes h hplan

/-- **Every step keeps the order.** -/
theorem InOrder.step (h : s.InOrder plan) {e : SessionEvent} (hs : s.step plan e = some s') :
    s'.InOrder plan := by
  obtain ⟨heard, hsaid, hheard⟩ := h
  cases step_cases hs with
  | connect hsender =>
      rw [hsender] at hheard
      cases hheard with
      | connecting => exact ⟨[], hsaid, .awaitAccept⟩
  | recvRequest hserve hsender =>
      rw [hserve] at hsaid
      exact ⟨heard, hsaid, hheard⟩
  | sendAccept hserve =>
      rw [hserve] at hsaid
      exact ⟨heard, by rw [← List.append_assoc, hsaid]; rfl, hheard⟩
  | sendKey hserve =>
      rw [hserve] at hsaid
      exact ⟨heard, by rw [← List.append_assoc, hsaid]; rfl, hheard⟩
  | sendHashes hserve =>
      rw [hserve] at hsaid
      exact ⟨heard, by rw [← List.append_assoc, hsaid]; rfl, hheard⟩
  | spawn hserve =>
      rw [hserve] at hsaid
      exact ⟨heard, hsaid, hheard⟩
  | taskStep | taskFails | sendData => exact ⟨heard, hsaid, hheard⟩
  | deliver msg rest hflight hwaits =>
      rw [hflight] at hsaid
      refine ⟨heard ++ [msg], ?_, hheard.recvMsg hwaits (hsaid ▸ said_prefix s.serve)⟩
      rw [List.append_assoc]
      exact hsaid
  | hashTimeout port key hsender =>
      rw [hsender] at hheard
      cases hheard with
      | awaitHashes => exact ⟨_, hsaid, .unheard⟩
  | senderFails => exact ⟨heard, hsaid, .failed heard⟩

theorem inOrder_of_reaches {P : Session → SessionEvent → Prop}
    (hrun : Reaches (Session.step plan) P start s) : s.InOrder plan :=
  hrun.invariant ⟨[], rfl, .connecting⟩ fun _ _ _ h _ hs => h.step hs

/-- **Sender and endpoint agree.** In every interleaving of the session, however long messages take
and whoever fails: a sender in its send loop sends to the port and under the key that `run_serve`
gives its task; the hashes it compares its blocks with are all of the endpoint's, or none; and
`run_serve` has nothing left to do but to send hashes and to spawn the task. -/
theorem negotiation_agrees {P : Session → SessionEvent → Prop}
    (hrun : Reaches (Session.step plan) P start s) {port : UInt16} {key : Bytes}
    {hashes : List Hash} (hsending : s.sender = .sending port key hashes) :
    port = plan.dataPort ∧ key = plan.sharedKey.toList ∧
      (hashes = [] ∨ plan.hashes = some hashes) ∧
      (s.serve = .keyed ∨ s.serve = .answered ∨ s.serve = .spawned) := by
  obtain ⟨heard, hsaid, hheard⟩ := inOrder_of_reaches hrun
  have hlate : 2 ≤ heard.length →
      s.serve = .keyed ∨ s.serve = .answered ∨ s.serve = .spawned := by
    intro hlength
    have hle : 2 ≤ (said plan s.serve).length := by
      rw [← hsaid, List.length_append]
      omega
    cases hserve : s.serve with
    | accepting | requested | accepted =>
        rw [hserve, said] at hle
        simp at hle
    | keyed => exact Or.inl rfl
    | answered => exact Or.inr (Or.inl rfl)
    | spawned => exact Or.inr (Or.inr rfl)
  rw [hsending] at hheard
  cases hheard with
  | unheard => exact ⟨rfl, rfl, Or.inl rfl, hlate (Nat.le_refl 2)⟩
  | hashes h hplan =>
      refine ⟨rfl, rfl, Or.inr hplan, hlate ?_⟩
      rw [script, List.length_cons, List.length_cons]
      omega

/-- A session in which the hashes of one block arrive in time. -/
theorem negotiation_agrees_hashes :
    ∃ s : Session, s.dataSent = 1 ∧ (9001 = plainPlan.dataPort ∧
      List.replicate KEY_LEN 7 = plainPlan.sharedKey.toList ∧
      (([[1]] : List Hash) = [] ∨ some ([[1]] : List Hash) = some [[1]]) ∧
      (s.serve = .keyed ∨ s.serve = .answered ∨ s.serve = .spawned)) := by
  obtain ⟨s, hs, hcheck⟩ := exists_of_runAll
    (Session.step { plainPlan with hashes := some [[1]] }) start
    [.connect, .recvRequest, .sendAccept, .deliver, .sendKey, .sendHashes, .deliver, .deliver,
      .spawn, .sendData]
    (fun s => decide (s.dataSent = 1) &&
      decide (s.sender = .sending 9001 (List.replicate KEY_LEN 7) [[1]])) (by decide)
  simp only [Bool.and_eq_true, decide_eq_true_eq] at hcheck
  obtain ⟨hdata, hsending⟩ := hcheck
  exact ⟨s, hdata, negotiation_agrees
    (Reaches.of_runAll (P := fun _ _ => True) hs (allowedAlong_of_forall fun _ _ _ => trivial))
    hsending⟩

end Updown.Session
