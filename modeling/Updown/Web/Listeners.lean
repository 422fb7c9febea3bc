import Updown.Web.Db
import Updown.Web.Progress

set_option autoImplicit false

/-! # What the listeners of the agent see

A client subscribes before it gets the list, so an end that is reported in between is in the list
and comes as an announcement too; one that is reported later comes as an announcement. What the
client makes of both agrees with the list of the agent, but for uploads that fail, which are not
announced, and for announcements that are overwritten before the client takes them
(`listeners_converge`).
-/

namespace Updown.Web

open Transition

/-- What a client makes of an announcement. -/
def showEvent (t : TransferStatus) (e : ProgressEvent) : TransferStatus :=
  if e.transferId = t.id then
    { t with
      bytesTransferred := e.bytesTransferred, progressPct := e.progressPct, status := e.status }
  else t

/-- An upload that has failed. -/
def SilentFailure (t : TransferStatus) : Prop :=
  t.direction = "upload" ∧ t.status ≠ "completed" ∧ t.status ≠ "connecting"

/-- Two states of one transfer. -/
structure SameTransfer (t t' : TransferStatus) : Prop where
  id : t.id = t'.id
  filename : t.filename = t'.filename
  direction : t.direction = t'.direction
  fileSize : t.fileSize = t'.fileSize

theorem sameTransfer_refl (t : TransferStatus) : SameTransfer t t := ⟨rfl, rfl, rfl, rfl⟩

theorem sameTransfer_report (t : TransferStatus) (result : Except String ℕ) :
    SameTransfer t (t.report result) := by
  cases result with
  | ok bytes => exact ⟨rfl, rfl, rfl, rfl⟩
  | error e => exact ⟨rfl, rfl, rfl, rfl⟩

theorem SameTransfer.trans {t t' t'' : TransferStatus} (h : SameTransfer t t')
    (h' : SameTransfer t' t'') : SameTransfer t t'' :=
  ⟨h.id.trans h'.id, h.filename.trans h'.filename, h.direction.trans h'.direction,
    h.fileSize.trans h'.fileSize⟩

/-- An announcement that says what the entry says makes the entry of any state of the transfer. -/
theorem SameTransfer.showEvent_eq {t t' : TransferStatus} (h : SameTransfer t t')
    {e : ProgressEvent} (hid : e.transferId = t'.id) (hshows : showEvent t' e = t') :
    showEvent t e = t' := by
  rw [showEvent, if_pos hid] at hshows
  rw [showEvent, if_pos (hid.trans h.id.symm)]
  cases t with
  | mk id filename direction fileSize bytes status pct =>
      cases t' with
      | mk id' filename' direction' fileSize' bytes' status' pct' =>
          obtain ⟨rfl, rfl, rfl, rfl⟩ := h
          exact hshows

theorem failed_ne (msg : String) : "failed: " ++ msg ≠ "connecting" ∧
    "failed: " ++ msg ≠ "completed" := by
  constructor
  · intro heq
    have := congrArg (fun s => s.toList.head?) heq
    simp at this
  · intro heq
    have := congrArg (fun s => s.toList.head?) heq
    simp at this

/-! ## The invariant -/

/-- An entry and the announcements so far. -/
structure EntryOk (sent : List ProgressEvent) (t : TransferStatus) : Prop where
  direction : t.direction = "download" ∨ t.direction = "upload"
  fresh : t.status = "connecting" →
    t.bytesTransferred = 0 ∧ t.progressPct = 0 ∧ ∀ e ∈ sent, e.transferId ≠ t.id
  said : t.status ≠ "connecting" → SilentFailure t ∨ ∃ e ∈ sent, e.transferId = t.id
  shown : ∀ e ∈ sent, e.transferId = t.id → showEvent t e = t

/-- The announcements since a client has subscribed: taken, overwritten or to come. -/
def Client.log (client : Client) (sent : List ProgressEvent) : List ProgressEvent :=
  client.received ++ (client.missed ++ sent.drop client.next)

/-- A client that has the list knows every transfer in it: as it is now, or as it was before it
ended, and then its end was not announced or is among the announcements since. -/
structure ClientOk (s : AgentState) (client : Client) : Prop where
  next_le : client.next ≤ s.sent.length
  logged : ∀ e ∈ client.log s.sent, e ∈ s.sent
  knows : ∀ list, client.snapshot = some list → ∀ (i : ℕ) (t₀ : TransferStatus),
    list[i]? = some t₀ → ∃ t, s.activeTransfers[i]? = some t ∧ SameTransfer t₀ t ∧
      (t₀ = t ∨ t₀.status = "connecting" ∧
        (SilentFailure t ∨ ∃ e ∈ client.log s.sent, e.transferId = t.id))

structure AgentState.Ok (s : AgentState) : Prop where
  ids : (s.activeTransfers.map TransferStatus.id).Nodup
  entries : ∀ t ∈ s.activeTransfers, EntryOk s.sent t
  owners : ∀ e ∈ s.sent, ∃ t ∈ s.activeTransfers, t.id = e.transferId
  runningNodup : s.running.Nodup
  running : ∀ tid ∈ s.running, ∃ t ∈ s.activeTransfers, t.id = tid ∧ t.status = "connecting"
  clients : ∀ c client, s.clients c = some client → ClientOk s client

/-- The id of a new transfer is new (`Uuid::new_v4`). -/
def FreshIds (s : AgentState) : AgentEvent → Prop
  | .download transferId _ | .send _ transferId _ => ∀ t ∈ s.activeTransfers, t.id ≠ transferId
  | _ => True

namespace AgentState

variable {hexDecode : String → Except String Bytes} {isAddr : String → Bool} {s s' : AgentState}

theorem ok_start : Ok start where
  ids := List.nodup_nil
  entries := fun _ ht => by cases ht
  owners := fun _ he => by cases he
  runningNodup := List.nodup_nil
  running := fun _ htid => by cases htid
  clients := fun _ _ h => by cases h

/-! ### A registration -/

/-- What is registered. -/
structure Registered (transferId : String) (t : TransferStatus) : Prop where
  id : t.id = transferId
  direction : t.direction = "download" ∨ t.direction = "upload"
  status : t.status = "connecting"
  bytes : t.bytesTransferred = 0
  pct : t.progressPct = 0

theorem registered_startDownload {transferId : String} {req : DownloadReq} {t : TransferStatus}
    (h : startDownload hexDecode isAddr transferId req = .ok t) : Registered transferId t := by
  unfold startDownload at h
  split at h
  · cases h
  · split at h
    · cases h
    · split at h
      · obtain rfl := Except.ok.inj h
        exact ⟨rfl, Or.inl rfl, rfl, rfl, rfl⟩
      · cases h

theorem registered_startSend {file : LocalFile} {transferId : String} {req : SendReq}
    {t : TransferStatus} (h : startSend isAddr file transferId req = .ok t) :
    Registered transferId t := by
  unfold startSend at h
  split at h
  · cases h
  · split at h
    · cases h
    · split at h
      · cases h
      · split at h
        · cases h
        · obtain rfl := Except.ok.inj h
          exact ⟨rfl, Or.inr rfl, rfl, rfl, rfl⟩

theorem Ok.register (h : s.Ok) {transferId : String}
    (hnew : ∀ t ∈ s.activeTransfers, t.id ≠ transferId) {outcome : Except AgentError TransferStatus}
    (houtcome : ∀ t, outcome = .ok t → Registered transferId t) : (s.register outcome).Ok := by
  cases outcome with
  | error e => exact h
  | ok t =>
      obtain ⟨hid, hdirection, hstatus, hbytes, hpct⟩ := houtcome t rfl
      have hunknown : ∀ e ∈ s.sent, e.transferId ≠ t.id := by
        intro e he heq
        obtain ⟨u, hu, huid⟩ := h.owners e he
        exact hnew u hu (huid.trans (heq.trans hid))
      refine ⟨?_, ?_, ?_, ?_, ?_, ?_⟩
      · exact nodup_snoc h.ids fun u hu heq => hnew u hu (heq.trans hid)
      · refine List.forall_mem_append.mpr ⟨h.entries, List.forall_mem_singleton.mpr ?_⟩
        exact ⟨hdirection, fun _ => ⟨hbytes, hpct, hunknown⟩, fun hne => absurd hstatus hne,
          fun e he heq => absurd heq (hunknown e he)⟩
      · intro e he
        obtain ⟨u, hu, huid⟩ := h.owners e he
        exact ⟨u, List.mem_append_left _ hu, huid⟩
      · refine List.nodup_append.mpr ⟨h.runningNodup, List.nodup_singleton _, ?_⟩
        intro tid htid tid' htid' heq
        obtain ⟨u, hu, huid, -⟩ := h.running tid htid
        rw [List.mem_singleton.mp htid'] at heq
        exact hnew u hu (huid.trans (heq.trans hid))
      · refine List.forall_mem_append.mpr ⟨fun tid htid => ?_, List.forall_mem_singleton.mpr
          ⟨t, List.mem_append_right _ (List.mem_singleton_self t), rfl, hstatus⟩⟩
        obtain ⟨u, hu, huid⟩ := h.running tid htid
        exact ⟨u, List.mem_append_left _ hu, huid⟩
      · intro c client hclient
        obtain ⟨hnext, hlogged, hknows⟩ := h.clients c client hclient
        refine ⟨hnext, hlogged, fun list hlist i t₀ hi => ?_⟩
        obtain ⟨u, hu, hrest⟩ := hknows list hlist i t₀ hi
        exact ⟨u, (List.getElem?_append_left (List.getElem?_eq_some_iff.mp hu).1).trans hu, hrest⟩

/-! ### The end of a task -/

/-- Announcements of other transfers. -/
theorem entryOk_append {sent new : List ProgressEvent} {t : TransferStatus} (h : EntryOk sent t)
    (hnew : ∀ e ∈ new, e.transferId ≠ t.id) : EntryOk (sent ++ new) t := by
  refine ⟨h.direction, fun hstatus => ?_, fun hstatus => ?_, fun e he hid => ?_⟩
  · obtain ⟨hbytes, hpct, hnone⟩ := h.fresh hstatus
    exact ⟨hbytes, hpct, List.forall_mem_append.mpr ⟨hnone, hnew⟩⟩
  · exact (h.said hstatus).imp_right fun ⟨e, he, hid⟩ => ⟨e, List.mem_append_left _ he, hid⟩
  · rcases List.mem_append.mp he with he | he
    · exact h.shown e he hid
    · exact absurd hid (hnew e he)

theorem id_of_announcement {t : TransferStatus} {result : Except String (ℕ × ℚ)} {e : ProgressEvent}
    (he : e ∈ (announcement t result).toList) : e.transferId = t.id := by
  rw [Option.mem_toList] at he
  cases result with
  | ok res =>
      obtain rfl := Option.some.inj he
      rfl
  | error msg =>
      rw [announcement] at he
      split at he
      · obtain rfl := Option.some.inj he
        rfl
      · cases he

/-- The end of a transfer is announced, unless it is an upload that has failed. -/
theorem announced_of_report {t : TransferStatus}
    (hdirection : t.direction = "download" ∨ t.direction = "upload")
    (result : Except String (ℕ × ℚ)) :
    (t.report (result.map Prod.fst)).status ≠ "connecting" ∧
      (SilentFailure (t.report (result.map Prod.fst)) ∨
        ∃ e ∈ (announcement t result).toList, e.transferId = t.id) := by
  cases result with
  | ok res =>
      have hne : "completed" ≠ "connecting" := by decide
      exact ⟨hne, Or.inr ⟨_, Option.mem_toList.mpr rfl, rfl⟩⟩
  | error msg =>
      obtain ⟨hconnecting, hcompleted⟩ := failed_ne msg
      refine ⟨hconnecting, ?_⟩
      rcases hdirection with hdownload | hupload
      · refine Or.inr ⟨⟨t.id, 0, 0, 0, "failed: " ++ msg⟩, Option.mem_toList.mpr ?_, rfl⟩
        rw [announcement, if_pos hdownload]
      · exact Or.inl ⟨hupload, hcompleted, hconnecting⟩

/-- The announcement says what the report says. -/
theorem showEvent_announcement {t : TransferStatus} (hbytes : t.bytesTransferred = 0)
    (hpct : t.progressPct = 0) {result : Except String (ℕ × ℚ)} {e : ProgressEvent}
    (he : e ∈ (announcement t result).toList) :
    showEvent (t.report (result.map Prod.fst)) e = t.report (result.map Prod.fst) := by
  rw [Option.mem_toList] at he
  cases result with
  | ok res =>
      obtain rfl := Option.some.inj he
      exact if_pos rfl
  | error msg =>
      rw [announcement] at he
      split at he
      · obtain rfl := Option.some.inj he
        cases t with
        | mk id filename direction fileSize bytes status pct =>
            obtain rfl : bytes = 0 := hbytes
            obtain rfl : pct = 0 := hpct
            exact if_pos rfl
      · cases he

theorem entryOk_report {sent : List ProgressEvent} {t : TransferStatus} (h : EntryOk sent t)
    (hstatus : t.status = "connecting") (result : Except String (ℕ × ℚ)) :
    EntryOk (sent ++ (announcement t result).toList) (t.report (result.map Prod.fst)) := by
  obtain ⟨hbytes, hpct, hnone⟩ := h.fresh hstatus
  obtain ⟨hended, hannounced⟩ := announced_of_report h.direction result
  have hsame := sameTransfer_report t (result.map Prod.fst)
  refine ⟨?_, fun hconnecting => absurd hconnecting hended, fun _ => ?_, fun e he hid => ?_⟩
  · rw [← hsame.direction]
    exact h.direction
  · refine hannounced.imp_right fun ⟨e, he, hid⟩ => ⟨e, List.mem_append_right _ he, ?_⟩
    exact hid.trans hsame.id
  · rcases List.mem_append.mp he with he | he
    · exact absurd (hid.trans hsame.id.symm) (hnone e he)
    · exact showEvent_announcement hbytes hpct he

/-- The list after a report; ids are keys. -/
theorem reportTo_eq_map {ts : List TransferStatus} (hids : (ts.map TransferStatus.id).Nodup)
    (tid : String) (result : Except String (ℕ × ℚ)) :
    reportTo tid result ts
      = ts.map fun t => if t.id = tid then t.report (result.map Prod.fst) else t := by
  induction ts with
  | nil => rfl
  | cons t ts ih =>
      obtain ⟨hnew, hids⟩ := List.nodup_cons.mp hids
      rw [reportTo, List.map_cons]
      by_cases hid : t.id = tid
      · rw [if_pos hid, if_pos hid]
        congr 1
        refine (List.map_id' ts).symm.trans (List.map_congr_left fun u hu => ?_)
        rw [if_neg]
        intro heq
        exact hnew (hid.trans heq.symm ▸ List.mem_map_of_mem hu)
      · rw [if_neg hid, if_neg hid, ih hids]

theorem id_report {tid : String} {result : Except String (ℕ × ℚ)} (t : TransferStatus) :
    (if t.id = tid then t.report (result.map Prod.fst) else t).id = t.id := by
  split
  · exact (sameTransfer_report t _).id.symm
  · rfl

theorem map_id_report {tid : String} {result : Except String (ℕ × ℚ)} (ts : List TransferStatus) :
    (ts.map fun t => if t.id = tid then t.report (result.map Prod.fst) else t).map TransferStatus.id
      = ts.map TransferStatus.id := by
  rw [List.map_map]
  exact List.map_congr_left fun t _ => id_report t

/-- A report reaches the clients. -/
theorem clientOk_report {client : Client} {t : TransferStatus} {tid : String}
    {result : Except String (ℕ × ℚ)} (hc : ClientOk s client)
    (hentries : ∀ u ∈ s.activeTransfers, u.id = tid → u = t) (ht : EntryOk s.sent t)
    (hid : t.id = tid) (hstatus : t.status = "connecting")
    (hlist : s'.activeTransfers = s.activeTransfers.map fun t =>
      if t.id = tid then t.report (result.map Prod.fst) else t)
    (hsent : s'.sent = s.sent ++ (announcement t result).toList) : ClientOk s' client := by
  obtain ⟨hnext, hlogged, hknows⟩ := hc
  have hlog : client.log s'.sent = client.log s.sent ++ (announcement t result).toList := by
    rw [Client.log, hsent, List.drop_append_of_le_length hnext, ← List.append_assoc client.missed,
      ← List.append_assoc]
    rfl
  refine ⟨?_, ?_, fun list hlst i t₀ hi => ?_⟩
  · rw [hsent, List.length_append]
    exact Nat.le_add_right_of_le hnext
  · rw [hlog, hsent]
    exact List.forall_mem_append.mpr ⟨fun e he => List.mem_append_left _ (hlogged e he),
      fun e he => List.mem_append_right _ he⟩
  · obtain ⟨u, hu, hsame, hseen⟩ := hknows list hlst i t₀ hi
    rw [hlist, List.getElem?_map, hu, Option.map_some]
    by_cases huid : u.id = tid
    · obtain rfl := hentries u (List.mem_of_getElem? hu) huid
      obtain ⟨-, hannounced⟩ := announced_of_report ht.direction result
      have hreport := sameTransfer_report u (result.map Prod.fst)
      rw [if_pos huid]
      -- it has been running, so the client knows it as it was
      have hconnecting : t₀.status = "connecting" := by
        rcases hseen with rfl | ⟨hconnecting, -⟩
        · exact hstatus
        · exact hconnecting
      refine ⟨_, rfl, hsame.trans hreport, Or.inr ⟨hconnecting, ?_⟩⟩
      refine hannounced.imp_right fun ⟨e, he, heid⟩ => ⟨e, ?_, heid.trans hreport.id⟩
      rw [hlog]
      exact List.mem_append_right _ he
    · rw [if_neg huid]
      refine ⟨u, rfl, hsame, hseen.imp_right fun ⟨hconnecting, hrest⟩ => ⟨hconnecting, ?_⟩⟩
      refine hrest.imp_right fun ⟨e, he, heid⟩ => ⟨e, ?_, heid⟩
      rw [hlog]
      exact List.mem_append_left _ he

theorem Ok.endTask (h : s.Ok) {tid : String} (htid : tid ∈ s.running)
    (result : Option (Except String (ℕ × ℚ))) : (s.endTask tid result).Ok := by
  have hrunning : ∀ id ∈ s.running.erase tid, id ∈ s.running ∧ id ≠ tid := fun id hid =>
    ⟨List.mem_of_mem_erase hid, fun heq => h.runningNodup.not_mem_erase (heq ▸ hid)⟩
  unfold AgentState.endTask
  cases result with
  -- a task that panics reports nothing, and its transfer stays as it is
  | none =>
      exact ⟨h.ids, h.entries, h.owners, h.runningNodup.erase tid,
        fun id hid => h.running id (hrunning id hid).1,
        fun c client hclient => ⟨(h.clients c client hclient).next_le,
          (h.clients c client hclient).logged, (h.clients c client hclient).knows⟩⟩
  | some result =>
      obtain ⟨t, ht, rfl, hstatus⟩ := h.running tid htid
      -- ids are unique, so the report changes this one entry
      have hentries : ∀ u ∈ s.activeTransfers, u.id = t.id → u = t := fun u hu huid =>
        List.inj_on_of_nodup_map h.ids hu ht huid
      have hfind : (s.activeTransfers.find? fun u => u.id == t.id) = some t := by
        cases hfound : s.activeTransfers.find? fun u => u.id == t.id with
        | none => exact absurd (beq_self_eq_true t.id) (List.find?_eq_none.mp hfound t ht)
        | some u =>
            have huid := List.find?_some hfound
            rw [hentries u (List.mem_of_find?_eq_some hfound) (beq_iff_eq.mp huid)]
      have hentry := h.entries t ht
      have hlist := reportTo_eq_map h.ids t.id result
      dsimp only
      rw [hfind]
      refine ⟨?_, ?_, ?_, h.runningNodup.erase t.id, ?_, ?_⟩
      · show (List.map TransferStatus.id (reportTo t.id result s.activeTransfers)).Nodup
        rw [hlist, map_id_report]
        exact h.ids
      · show ∀ u ∈ reportTo t.id result s.activeTransfers, EntryOk _ u
        rw [hlist]
        refine List.forall_mem_map.mpr fun u hu => ?_
        by_cases huid : u.id = t.id
        · rw [if_pos huid, hentries u hu huid]
          exact entryOk_report hentry hstatus result
        · rw [if_neg huid]
          exact entryOk_append (h.entries u hu) fun e he heid =>
            huid (heid.symm.trans (id_of_announcement he))
      · show ∀ e ∈ s.sent ++ (announcement t result).toList, ∃ u ∈ reportTo t.id result _, _
        rw [hlist]
        refine List.forall_mem_append.mpr ⟨fun e he => ?_, fun e he => ?_⟩
        · obtain ⟨u, hu, huid⟩ := h.owners e he
          exact ⟨_, List.mem_map_of_mem hu, (id_report u).trans huid⟩
        · exact ⟨_, List.mem_map_of_mem ht, (id_report t).trans (id_of_announcement he).symm⟩
      · show ∀ id ∈ s.running.erase t.id, ∃ u ∈ reportTo t.id result _, _
        intro id hid
        obtain ⟨hmem, hne⟩ := hrunning id hid
        obtain ⟨u, hu, huid, hconnecting⟩ := h.running id hmem
        rw [hlist]
        refine ⟨u, List.mem_map.mpr ⟨u, hu, if_neg fun heq => hne (huid.symm.trans heq)⟩, huid,
          hconnecting⟩
      · exact fun c client hclient => clientOk_report (h.clients c client hclient) hentries
          hentry rfl hstatus hlist rfl

/-! ### The clients -/

theorem setClient_clients (s : AgentState) (c : ℕ) (client : Option Client) :
    (s.setClient c client).clients = Function.update s.clients c client := rfl

theorem Ok.setClient (h : s.Ok) {c : ℕ} {client : Option Client}
    (hclient : ∀ x, client = some x → ClientOk s x) : (s.setClient c client).Ok := by
  refine ⟨h.ids, h.entries, h.owners, h.runningNodup, h.running, fun d x hx => ?_⟩
  have hx' : ClientOk s x := by
    by_cases hd : d = c
    · refine hclient x ?_
      rwa [setClient_clients, hd, Function.update_self] at hx
    · refine h.clients d x ?_
      rwa [setClient_clients, Function.update_of_ne hd] at hx
  exact ⟨hx'.next_le, hx'.logged, hx'.knows⟩

/-- Taking an announcement only moves it. -/
theorem clientOk_of_log {client client' : Client} (h : ClientOk s client)
    (hnext : client'.next ≤ s.sent.length) (hlist : client'.snapshot = client.snapshot)
    (hlog : ∀ e, e ∈ client'.log s.sent ↔ e ∈ client.log s.sent) : ClientOk s client' := by
  refine ⟨hnext, fun e he => h.logged e ((hlog e).mp he), fun list hlst i t₀ hi => ?_⟩
  obtain ⟨t, ht, hsame, hseen⟩ := h.knows list (hlist ▸ hlst) i t₀ hi
  refine ⟨t, ht, hsame, hseen.imp_right fun ⟨hconnecting, hrest⟩ => ⟨hconnecting, ?_⟩⟩
  exact hrest.imp_right fun ⟨e, he, hid⟩ => ⟨e, (hlog e).mpr he, hid⟩

theorem Ok.recv (h : s.Ok) {c : ℕ} {client : Client} (hclient : s.clients c = some client)
    {sendOk : Bool} (hs : s.recv c client sendOk = some s') : s'.Ok := by
  have hok := h.clients c client hclient
  unfold AgentState.recv at hs
  split at hs
  · cases hs
  · next e he =>
      obtain ⟨hlt, he⟩ := List.getElem?_eq_some_iff.mp he
      split at hs
      · next hlag =>
          obtain rfl := Option.some.inj hs
          refine h.setClient fun x hx => ?_
          obtain rfl := Option.some.inj hx
          refine clientOk_of_log hok (Nat.sub_le _ _) rfl fun e => ?_
          have hsplit : (s.sent.take (s.sent.length - PROGRESS_CAPACITY)).drop client.next
              ++ s.sent.drop (s.sent.length - PROGRESS_CAPACITY) = s.sent.drop client.next := by
            have hnext :
                client.next ≤ (s.sent.take (s.sent.length - PROGRESS_CAPACITY)).length := by
              rw [List.length_take]
              omega
            rw [← List.drop_append_of_le_length hnext, List.take_append_drop]
          rw [Client.log, Client.log, List.append_assoc, hsplit]
      · split at hs
        · obtain rfl := Option.some.inj hs
          refine h.setClient fun x hx => ?_
          obtain rfl := Option.some.inj hx
          refine clientOk_of_log hok hlt rfl fun e' => ?_
          rw [Client.log, Client.log, List.drop_eq_getElem_cons hlt, he]
          simp only [List.mem_append, List.mem_cons, List.not_mem_nil, or_false]
          tauto
        · obtain rfl := Option.some.inj hs
          exact h.setClient fun x hx => by cases hx

/-- **Every step of the agent keeps the invariant.** -/
theorem Ok.step (h : s.Ok) {e : AgentEvent} (hfresh : FreshIds s e)
    (hs : s.step hexDecode isAddr e = some s') : s'.Ok := by
  cases e with
  | download transferId req =>
      obtain rfl := Option.some.inj hs
      exact h.register hfresh fun t ht => registered_startDownload ht
  | send file transferId req =>
      obtain rfl := Option.some.inj hs
      exact h.register hfresh fun t ht => registered_startSend ht
  | ends tid result =>
      rw [AgentState.step] at hs
      split at hs
      · next htid =>
          obtain rfl := Option.some.inj hs
          exact h.endTask htid result
      · cases hs
  | subscribe c =>
      rw [AgentState.step] at hs
      split at hs
      · cases hs
      · obtain rfl := Option.some.inj hs
        refine h.setClient fun x hx => ?_
        obtain rfl := Option.some.inj hx
        -- a new listener has missed nothing, and has been sent no list
        refine ⟨Nat.le_refl _, fun e he => ?_, fun list hlist => by cases hlist⟩
        rw [Client.log, List.drop_length] at he
        cases he
  | snapshot c =>
      rw [AgentState.step] at hs
      split at hs
      · next next stalled received missed hclient =>
          obtain rfl := Option.some.inj hs
          obtain ⟨hnext, hlogged, -⟩ := h.clients c _ hclient
          refine h.setClient fun x hx => ?_
          obtain rfl := Option.some.inj hx
          refine ⟨hnext, hlogged, fun list hlist i t₀ hi => ?_⟩
          obtain rfl := Option.some.inj hlist
          -- the list it is sent is the present one
          exact ⟨t₀, hi, sameTransfer_refl t₀, Or.inl rfl⟩
      · cases hs
  | recv c sendOk =>
      rw [AgentState.step] at hs
      split at hs
      · next client hclient =>
          split at hs
          · exact h.recv hclient hs
          · cases hs
      · cases hs
  | message c closes =>
      rw [AgentState.step] at hs
      split at hs
      · next client hclient =>
          split at hs
          · obtain rfl := Option.some.inj hs
            refine h.setClient fun x hx => ?_
            cases closes with
            | true => cases hx
            | false =>
                obtain rfl := Option.some.inj hx
                exact clientOk_of_log (h.clients c client hclient)
                  (h.clients c client hclient).next_le rfl fun _ => Iff.rfl
          · cases hs
      · cases hs

theorem ok_of_reaches (hrun : Reaches (step hexDecode isAddr) FreshIds start s) : s.Ok :=
  hrun.invariant ok_start fun _ _ _ h hfresh hs => h.step hfresh hs

/-! ## What a client sees -/

/-- Announcements of the present state of a transfer. -/
theorem foldl_showEvent {t₀ t : TransferStatus} (hsame : SameTransfer t₀ t)
    {events : List ProgressEvent}
    (hshown : ∀ e ∈ events, e.transferId = t.id → showEvent t e = t) :
    (events.foldl showEvent t₀ = t₀ ∧ ∀ e ∈ events, e.transferId ≠ t.id) ∨
      events.foldl showEvent t₀ = t := by
  induction events generalizing t₀ with
  | nil => exact Or.inl ⟨rfl, fun _ he => by cases he⟩
  | cons e events ih =>
      have hrest : ∀ e ∈ events, e.transferId = t.id → showEvent t e = t :=
        fun e he => hshown e (List.mem_cons_of_mem _ he)
      rw [List.foldl_cons]
      by_cases hid : e.transferId = t.id
      · rw [hsame.showEvent_eq hid (hshown e List.mem_cons_self hid)]
        rcases ih (sameTransfer_refl t) hrest with ⟨hsee, -⟩ | hsee
        · exact Or.inr hsee
        · exact Or.inr hsee
      · rw [showEvent, if_neg (hsame.id ▸ hid)]
        rcases ih hsame hrest with ⟨hsee, hnone⟩ | hsee
        · exact Or.inl ⟨hsee, List.forall_mem_cons.mpr ⟨hid, hnone⟩⟩
        · exact Or.inr hsee

/-- **What a client sees of a transfer.** In every state that is reached with new ids for new
transfers, a transfer of the list that a client was sent is still in its place in the agent's list.
The announcements the client was sent make its present state of the one in its list, or none of them
is about it and it is as it was in its list: nothing has happened to it since, or it is an upload
that has failed, or its end has been overwritten in the channel or is still to come. -/
theorem listeners_converge (hrun : Reaches (step hexDecode isAddr) FreshIds start s) {c : ℕ}
    {client : Client} {list : List TransferStatus} (hclient : s.clients c = some client)
    (hlist : client.snapshot = some list) {i : ℕ} {t₀ : TransferStatus}
    (hi : list[i]? = some t₀) :
    ∃ t, s.activeTransfers[i]? = some t ∧ SameTransfer t₀ t ∧
      (client.received.foldl showEvent t₀ = t ∨
        client.received.foldl showEvent t₀ = t₀ ∧ t₀.status = "connecting" ∧
          (SilentFailure t ∨ ∃ e ∈ client.missed ++ s.sent.drop client.next,
            e.transferId = t.id)) := by
  have h := ok_of_reaches hrun
  have hok := h.clients c client hclient
  obtain ⟨t, ht, hsame, hseen⟩ := hok.knows list hlist i t₀ hi
  refine ⟨t, ht, hsame, ?_⟩
  have hshown : ∀ e ∈ client.received, e.transferId = t.id → showEvent t e = t := fun e he =>
    (h.entries t (List.mem_of_getElem? ht)).shown e
      (hok.logged e (List.mem_append_left _ he))
  rcases foldl_showEvent hsame hshown with ⟨hsee, hnone⟩ | hsee
  · rcases hseen with rfl | ⟨hconnecting, hrest⟩
    · exact Or.inl hsee
    · refine Or.inr ⟨hsee, hconnecting, hrest.imp_right fun ⟨e, he, hid⟩ => ⟨e, ?_, hid⟩⟩
      exact (List.mem_append.mp he).resolve_left fun hmem => hnone e hmem hid
  · exact Or.inl hsee

/-- An upload that ends after a client has got the list. -/
def oneUpload : List AgentEvent :=
  [.send { canonicalizes := true, isThere := true, metadata := .ok 5, fileName := "a.bin" } "t"
      { server := "127.0.0.1:9000", filePath := "a.bin", rateMbps := none },
    .subscribe 0, .snapshot 0, .ends "t" (some (.ok (5, 8))), .recv 0 true]

theorem listeners_converge_oneUpload :
    ∃ (s : AgentState) (client : Client) (t₀ t : TransferStatus), s.clients 0 = some client ∧
      client.received.length = 1 ∧ s.activeTransfers[0]? = some t ∧ SameTransfer t₀ t ∧
      (client.received.foldl showEvent t₀ = t ∨
        client.received.foldl showEvent t₀ = t₀ ∧ t₀.status = "connecting" ∧
          (SilentFailure t ∨ ∃ e ∈ client.missed ++ s.sent.drop client.next,
            e.transferId = t.id)) := by
  obtain ⟨s, hs, hcheck⟩ := exists_of_runAll (step (fun _ => .error "") fun _ => true) start oneUpload
    (fun s : AgentState => (s.clients 0).any fun client =>
      client.received.length == 1 && client.snapshot.any fun list => list.length == 1)
    (by decide +kernel)
  obtain ⟨client, hclient, hcheck⟩ := (Option.any_eq_true _ _).mp hcheck
  obtain ⟨hreceived, hsnapshot⟩ := Bool.and_eq_true_iff.mp hcheck
  obtain ⟨list, hlist, hlength⟩ := (Option.any_eq_true _ _).mp hsnapshot
  obtain ⟨t₀, rfl⟩ := List.length_eq_one_iff.mp (beq_iff_eq.mp hlength)
  have hrun : Reaches (step (fun _ => .error "") fun _ => true) FreshIds start s :=
    Reaches.of_runAll hs ⟨fun _ ht => (by cases ht), fun _ _ => ⟨trivial, fun _ _ => ⟨trivial,
      fun _ _ => ⟨trivial, fun _ _ => ⟨trivial, fun _ _ => trivial⟩⟩⟩⟩⟩
  obtain ⟨t, ht, hsame, hseen⟩ := listeners_converge hrun hclient hlist
    (show [t₀][0]? = some t₀ from rfl)
  exact ⟨s, client, t₀, t, hclient, beq_iff_eq.mp hreceived, ht, hsame, hseen⟩

end AgentState

end Updown.Web
