import Updown.Web.ServerRuns

set_option autoImplicit false

/-! # Requests without a valid key

A connection whose requests never carry a valid key has no influence: the run without it gives the
others the same answers and leaves the same tables, files and limits (`outsiders_change_nothing`).
What it learns are the users and the share links, whatever packages and files there are
(`outsiders_see_links`).
-/

namespace Updown.Web

open Transition

/-- An event of one of the connections. -/
def Event.isOf (O : ℕ → Bool) (e : Event) : Bool := e.connection.any O

namespace Server

/-- The state as the other connections see it. -/
def without (O : ℕ → Bool) (s : Server) : Server :=
  { s with answers := s.answers.filter fun a => !O a.1 }

/-- An answer, or a panic, and nothing else. -/
def answered (s : Server) (p : ℕ) (answer : Option (Except ApiError Answer)) : Server :=
  { s with answers := s.answers ++ [(p, answer)] }

/-- The requests of the connections have no valid key. -/
def Outside (O : ℕ → Bool) (s : Server) (e : Event) : Prop :=
  ∀ p headers auth call, e = .request p headers auth call → O p = true →
    authMiddleware s.users auth headers ≠ .ok ()

variable {parse : String → Option ℤ} {O : ℕ → Bool} {s t : Server} {p : ℕ}

/-! ## Answers do not matter -/

@[simp] theorem without_app : (s.without O).app = s.app := rfl

@[simp] theorem without_users : (s.without O).users = s.users := rfl

@[simp] theorem without_inFlight : (s.without O).inFlight = s.inFlight := rfl

theorem without_setApp (app : AppState) : (s.setApp app).without O = (s.without O).setApp app := rfl

theorem without_answered (hp : O p = false) (answer : Option (Except ApiError Answer)) :
    (s.answered p answer).without O = (s.without O).answered p answer := by
  unfold without answered
  rw [List.filter_append, List.filter_singleton, hp]
  rfl

theorem without_reply (hp : O p = false) (answer : Except ApiError Answer) :
    (s.reply p answer).without O = (s.without O).reply p answer :=
  without_answered hp (some answer)

theorem without_finish (hp : O p = false) (answer : Except ApiError Answer) :
    (s.finish p answer).without O = (s.without O).finish p answer :=
  without_reply hp answer

/-- What the connections are answered is not seen. -/
theorem without_answered_of (hp : O p = true) (answer : Option (Except ApiError Answer)) :
    (s.answered p answer).without O = s.without O := by
  unfold without answered
  rw [List.filter_append, List.filter_singleton, hp]
  simp

theorem beginUpload_without (hp : O p = false) (now : ℕ) (pkgId : String) (dir : DirOutcome)
    (multipart : Multipart) :
    (s.without O).beginUpload p now pkgId dir multipart
      = (s.beginUpload p now pkgId dir multipart).without O := by
  unfold beginUpload
  dsimp only
  rw [without_app]
  split
  · rw [without_reply hp]
    rfl
  · cases dir with
    | missing inside =>
        cases inside with
        | false =>
            dsimp only
            rw [without_reply hp]
            rfl
        | true => rfl
    | created => rfl

theorem handle_without (hp : O p = false) (headers : Request) (call : Call) :
    (s.without O).handle parse p headers call = (s.handle parse p headers call).without O := by
  cases call with
  | health | shareInfo | logout | me | transfers | packages | package | agentTransfer =>
      exact (without_reply hp _).symm
  | login executed apiKey =>
      rw [handle, handle, without_users]
      cases Web.login s.users executed apiKey with
      | none => exact (without_answered hp none).symm
      | some answer => exact (without_reply hp _).symm
  | createPackage i lookup req =>
      rw [handle, handle, without_reply hp]
      rfl
  | upload now pkgId dir multipart => exact beginUpload_without hp now pkgId dir multipart
  | share now lookup hoursFromNow req =>
      rw [handle, handle, without_app]
      cases checkShare s.app now lookup req with
      | mk app res =>
          cases res with
          | error e =>
              dsimp only
              rw [without_reply hp, without_setApp]
          | ok => rfl

theorem stepField_without (hp : O p = false) (write : WriteOutcome) :
    (s.without O).stepField p write = (s.stepField p write).map (without O) := by
  unfold stepField
  rw [without_inFlight, without_app]
  split
  · split
    · rw [Option.map_some, without_finish hp]
      rfl
    · rfl
  · split
    · rw [Option.map_some, without_finish hp]
    · rfl
  · rfl

theorem stepRecord_without (hp : O p = false) (i : Insertion) :
    (s.without O).stepRecord p i = (s.stepRecord p i).map (without O) := by
  unfold stepRecord
  rw [without_inFlight, without_app]
  split
  · split
    · rw [Option.map_some, without_finish hp]
    · split
      · rw [Option.map_some, without_finish hp]
      · rfl
  · split
    · rw [Option.map_some, without_finish hp]
    · split
      · rw [Option.map_some, without_finish hp]
      · rfl
  · split
    · rfl
    · rfl
  · rw [Option.map_some, without_finish hp]
  · rfl

theorem stepLink_without (hp : O p = false) (i : Insertion) (randomBytes : Vector UInt8 18) :
    (s.without O).stepLink p i randomBytes = (s.stepLink p i randomBytes).map (without O) := by
  unfold stepLink
  rw [without_inFlight, without_app]
  split
  · split
    · rw [Option.map_some, without_finish hp]
    · rw [Option.map_some, without_finish hp]
      rfl
  · rfl

/-- A step of another connection does not depend on what these are answered. -/
theorem step_without {e : Event} (he : e.isOf O = false) :
    (s.without O).step parse e = (s.step parse e).map (without O) := by
  cases e with
  | request p headers auth call =>
      have hp : O p = false := he
      rw [step, step, without_inFlight, without_users]
      split
      · rfl
      · split
        · split
          · rw [Option.map_some, without_reply hp]
          · rw [Option.map_some, handle_without hp]
        · rw [Option.map_some, handle_without hp]
  | field p write => exact stepField_without he write
  | record p i => exact stepRecord_without he i
  | link p i randomBytes => exact stepLink_without he i randomBytes
  | createUser c => rfl

/-! ## What a request without a valid key does -/

/-- Without a key nobody gets behind `auth_middleware`. -/
theorem step_outside {headers : Request} {auth : Bool} {call : Call}
    (hauth : authMiddleware s.users auth headers ≠ .ok ())
    (hs : s.step parse (.request p headers auth call) = some t) :
    ∃ answer, t = s.answered p answer := by
  rw [step] at hs
  split at hs
  · cases hs
  · cases hcall : call.isProtected with
    | true =>
        rw [if_pos hcall] at hs
        cases hmiddleware : authMiddleware s.users auth headers with
        | error e =>
            rw [hmiddleware] at hs
            exact ⟨_, (Option.some.inj hs).symm⟩
        | ok => exact absurd hmiddleware hauth
    | false =>
        rw [if_neg (by rw [hcall]; decide)] at hs
        obtain rfl := Option.some.inj hs
        cases call with
        | health | shareInfo | logout | me => exact ⟨_, rfl⟩
        | login executed apiKey =>
            rw [handle]
            cases Web.login s.users executed apiKey with
            | none => exact ⟨_, rfl⟩
            | some answer => exact ⟨_, rfl⟩
        | transfers | packages | package | agentTransfer | createPackage | upload | share =>
            cases hcall

/-- The steps of a connection that has nothing in flight begin with a request. -/
theorem step_idle {e : Event} (hidle : s.inFlight p = none) (he : e.connection = some p)
    (hs : s.step parse e = some t) :
    ∃ headers auth call, e = .request p headers auth call := by
  cases e with
  | request q headers auth call =>
      obtain rfl := Option.some.inj he
      exact ⟨headers, auth, call, rfl⟩
  | field q write =>
      obtain rfl := Option.some.inj he
      rw [step, stepField, hidle] at hs
      cases hs
  | record q i =>
      obtain rfl := Option.some.inj he
      rw [step, stepRecord, hidle] at hs
      cases hs
  | link q i randomBytes =>
      obtain rfl := Option.some.inj he
      rw [step, stepLink, hidle] at hs
      cases hs
  | createUser c => cases he

/-! ## A step is in flight for its own connection -/

/-- Of what is in flight only the part of `p` may differ. -/
def OnlyFlight (p : ℕ) (s t : Server) : Prop := ∀ q, q ≠ p → t.inFlight q = s.inFlight q

theorem onlyFlight_setFlight (flight : Option InFlight) : OnlyFlight p s (s.setFlight p flight) :=
  fun _ hq => Function.update_of_ne hq _ _

theorem onlyFlight_beginUpload (now : ℕ) (pkgId : String) (dir : DirOutcome)
    (multipart : Multipart) : OnlyFlight p s (s.beginUpload p now pkgId dir multipart) := by
  unfold beginUpload
  dsimp only
  split
  · exact fun _ _ => rfl
  · cases dir with
    | missing inside =>
        cases inside with
        | false => exact fun _ _ => rfl
        | true => exact onlyFlight_setFlight _
    | created => exact onlyFlight_setFlight _

theorem onlyFlight_handle (headers : Request) (call : Call) :
    OnlyFlight p s (s.handle parse p headers call) := by
  cases call with
  | health | shareInfo | logout | me | transfers | packages | package | agentTransfer
  | createPackage => exact fun _ _ => rfl
  | login executed apiKey =>
      rw [handle]
      split
      · exact fun _ _ => rfl
      · exact fun _ _ => rfl
  | upload now pkgId dir multipart => exact onlyFlight_beginUpload now pkgId dir multipart
  | share now lookup hoursFromNow req =>
      rw [handle]
      cases checkShare s.app now lookup req with
      | mk app res =>
          cases res with
          | error e => exact fun _ _ => rfl
          | ok => exact onlyFlight_setFlight _

theorem onlyFlight_stepField {write : WriteOutcome} (hs : s.stepField p write = some t) :
    OnlyFlight p s t := by
  unfold stepField at hs
  split at hs
  · split at hs
    · obtain rfl := Option.some.inj hs
      exact onlyFlight_setFlight none
    · obtain rfl := Option.some.inj hs
      exact onlyFlight_setFlight _
  · split at hs
    · obtain rfl := Option.some.inj hs
      exact onlyFlight_setFlight none
    · cases hs
  · cases hs

theorem onlyFlight_stepRecord {i : Insertion} (hs : s.stepRecord p i = some t) :
    OnlyFlight p s t := by
  unfold stepRecord at hs
  split at hs
  · split at hs
    · obtain rfl := Option.some.inj hs
      exact onlyFlight_setFlight none
    · split at hs
      · obtain rfl := Option.some.inj hs
        exact onlyFlight_setFlight none
      · obtain rfl := Option.some.inj hs
        exact onlyFlight_setFlight _
  · split at hs
    · obtain rfl := Option.some.inj hs
      exact onlyFlight_setFlight none
    · split at hs
      · obtain rfl := Option.some.inj hs
        exact onlyFlight_setFlight none
      · obtain rfl := Option.some.inj hs
        exact onlyFlight_setFlight _
  · split at hs
    · obtain rfl := Option.some.inj hs
      exact onlyFlight_setFlight _
    · obtain rfl := Option.some.inj hs
      exact onlyFlight_setFlight _
  · obtain rfl := Option.some.inj hs
    exact onlyFlight_setFlight none
  · cases hs

theorem onlyFlight_stepLink {i : Insertion} {randomBytes : Vector UInt8 18}
    (hs : s.stepLink p i randomBytes = some t) : OnlyFlight p s t := by
  unfold stepLink at hs
  split at hs
  · split at hs
    · obtain rfl := Option.some.inj hs
      exact onlyFlight_setFlight none
    · obtain rfl := Option.some.inj hs
      exact onlyFlight_setFlight none
  · cases hs

/-- What is in flight for a connection changes in its own steps only. -/
theorem step_inFlight {e : Event} (he : e.connection ≠ some p) (hs : s.step parse e = some t) :
    t.inFlight p = s.inFlight p := by
  cases e with
  | request q headers auth call =>
      have hq : p ≠ q := fun heq => he (congrArg some heq.symm)
      rw [step] at hs
      split at hs
      · cases hs
      · split at hs
        · split at hs
          · obtain rfl := Option.some.inj hs
            rfl
          · obtain rfl := Option.some.inj hs
            exact onlyFlight_handle headers call p hq
        · obtain rfl := Option.some.inj hs
          exact onlyFlight_handle headers call p hq
  | field q write => exact onlyFlight_stepField hs p fun heq => he (congrArg some heq.symm)
  | record q i => exact onlyFlight_stepRecord hs p fun heq => he (congrArg some heq.symm)
  | link q i randomBytes => exact onlyFlight_stepLink hs p fun heq => he (congrArg some heq.symm)
  | createUser c =>
      obtain rfl := Option.some.inj hs
      rfl

/-! ## The run without them -/

/-- The connections have nothing in flight. -/
def Idle (O : ℕ → Bool) (s : Server) : Prop := ∀ p, O p = true → s.inFlight p = none

/-- An event of the connections gives them an answer. -/
theorem step_isOf {e : Event} (hidle : s.Idle O) (hout : Outside O s e) (he : e.isOf O = true)
    (hs : s.step parse e = some t) : t.without O = s.without O ∧ t.Idle O := by
  obtain ⟨p, hconn, hp⟩ := (Option.any_eq_true _ _).mp he
  obtain ⟨headers, auth, call, rfl⟩ := step_idle (hidle p hp) hconn hs
  obtain ⟨answer, rfl⟩ := step_outside (hout p headers auth call rfl hp) hs
  exact ⟨without_answered_of hp answer, hidle⟩

/-- An event of another connection leaves them without anything in flight. -/
theorem step_not_isOf {e : Event} (hidle : s.Idle O) (he : e.isOf O = false)
    (hs : s.step parse e = some t) : t.Idle O := by
  intro p hp
  rw [step_inFlight (p := p) ?_ hs]
  · exact hidle p hp
  · intro hconn
    rw [Event.isOf, hconn, Option.any_some, hp] at he
    cases he

/-- **Requests without a valid key change nothing**, over whole runs: leave out the connections
whose requests never carry one, and the run is still possible; it gives every other connection the
same answers, and leaves the same tables, files, rate limits and requests in flight. -/
theorem outsiders_change_nothing {es : List Event} (hidle : s.Idle O)
    (hout : AllowedAlong (step parse) (Outside O) s es) (hrun : runAll (step parse) s es = some t) :
    runAll (step parse) (s.without O) (es.filter fun e => !e.isOf O) = some (t.without O) := by
  induction es generalizing s with
  | nil =>
      obtain rfl := Option.some.inj hrun
      rfl
  | cons e es ih =>
      obtain ⟨u, hu, hrest⟩ := Option.bind_eq_some_iff.mp hrun
      cases he : e.isOf O with
      | true =>
          obtain ⟨hsame, hidle'⟩ := step_isOf hidle hout.1 he hu
          rw [List.filter_cons_of_neg (by rw [he]; decide), ← hsame]
          exact ih hidle' (hout.2 u hu) hrest
      | false =>
          rw [List.filter_cons_of_pos (by rw [he]; rfl), runAll, step_without he, hu,
            Option.map_some, Option.bind_some]
          exact ih (step_not_isOf hidle he hu) (hout.2 u hu) hrest

/-- An upload without a key, beside another connection. -/
theorem outsiders_change_nothing_upload :
    runAll (step fun _ => none) ((start "host").without (· == 7))
        [.request 1 ⟨none, none⟩ true .logout]
      = some (((start "host").answered 7 (some (.error (errStatus 401
          "Not authenticated. Login at /login or use Authorization: Bearer upd_xxx")))).answered 1
            (some (.ok .loggedOut)) |>.without (· == 7)) := by
  have hout : AllowedAlong (step fun _ => none) (Outside (· == 7)) (start "host")
      [.request 7 ⟨none, none⟩ true (.upload 0 "id" .created []),
        .request 1 ⟨none, none⟩ true .logout] := by
    refine allowedAlong_of_forall fun e he u p headers auth call heq hp => ?_
    rcases List.mem_cons.mp he with rfl | he
    · cases heq
      exact fun hok => by cases hok
    · obtain rfl := List.mem_singleton.mp he
      cases heq
      cases hp
  exact outsiders_change_nothing (fun _ _ => rfl) hout rfl

/-! ## What they learn -/

/-- More answers, and nothing else. -/
def answeredAll (s : Server) (answers : List (ℕ × Option (Except ApiError Answer))) : Server :=
  { s with answers := s.answers ++ answers }

/-- The public part of two states is the same. -/
structure LooksLike (s s' : Server) : Prop where
  users : s.users = s'.users
  shareLinks : s.app.db.shareLinks = s'.app.db.shareLinks
  pending : ∀ row ∈ s.app.db.transfers, row.status = "pending"
  pending' : ∀ row ∈ s'.app.db.transfers, row.status = "pending"

variable {s' : Server}

/-- The answer of a public route is made of the public part. -/
theorem LooksLike.handle (h : LooksLike s s') (parse : String → Option ℤ) (p : ℕ)
    (headers : Request) {call : Call} (hpublic : call.isProtected = false) :
    ∃ answer, s.handle parse p headers call = s.answered p answer ∧
      s'.handle parse p headers call = s'.answered p answer := by
  cases call with
  | health executed =>
      refine ⟨some (.ok (.health 0)), ?_, ?_⟩
      · rw [Server.handle, health_eq_zero h.pending]
        rfl
      · rw [Server.handle, health_eq_zero h.pending']
        rfl
  | shareInfo env code =>
      refine ⟨_, rfl, ?_⟩
      have hsame :
          getShareInfo parse s.app.db env code = getShareInfo parse s'.app.db env code := by
        unfold getShareInfo Database.getShareLink
        rw [h.shareLinks]
      rw [hsame]
      rfl
  | login executed apiKey =>
      have hsame : Web.login s'.users executed apiKey = Web.login s.users executed apiKey := by
        rw [h.users]
      rw [Server.handle, Server.handle, hsame]
      cases Web.login s.users executed apiKey with
      | none => exact ⟨_, rfl, rfl⟩
      | some answer => exact ⟨_, rfl, rfl⟩
  | logout => exact ⟨_, rfl, rfl⟩
  | me executed =>
      refine ⟨_, rfl, ?_⟩
      rw [h.users]
      rfl
  | transfers | packages | package | agentTransfer | createPackage | upload | share => cases hpublic

theorem LooksLike.request (h : LooksLike s s') (parse : String → Option ℤ) {headers : Request}
    {auth : Bool} (call : Call)
    (hauth : authMiddleware s.users auth headers ≠ .ok ())
    (hfree : s.inFlight p = none) (hfree' : s'.inFlight p = none) :
    ∃ answer, s.step parse (.request p headers auth call) = some (s.answered p answer) ∧
      s'.step parse (.request p headers auth call) = some (s'.answered p answer) := by
  rw [Server.step, Server.step, hfree, hfree', ← h.users]
  cases hcall : call.isProtected with
  | true =>
      cases hmiddleware : authMiddleware s.users auth headers with
      | error e => exact ⟨some (.error e), rfl, rfl⟩
      | ok => exact absurd hmiddleware hauth
  | false =>
      obtain ⟨answer, hs, hs'⟩ := h.handle parse p headers hcall
      exact ⟨answer, congrArg some hs, congrArg some hs'⟩

theorem LooksLike.requests (h : LooksLike s s') {es : List Event}
    (hes : ∀ e ∈ es, ∃ p headers auth call, e = .request p headers auth call ∧
      authMiddleware s.users auth headers ≠ .ok () ∧ s.inFlight p = none ∧ s'.inFlight p = none) :
    ∃ answers, runAll (step parse) s es = some (s.answeredAll answers) ∧
      runAll (step parse) s' es = some (s'.answeredAll answers) := by
  induction es generalizing s s' with
  | nil =>
      refine ⟨[], ?_, ?_⟩
      · rw [Transition.runAll, answeredAll, List.append_nil]
      · rw [Transition.runAll, answeredAll, List.append_nil]
  | cons e es ih =>
      obtain ⟨p, headers, auth, call, rfl, hauth, hfree, hfree'⟩ := hes e List.mem_cons_self
      obtain ⟨answer, hs, hs'⟩ := h.request parse call hauth hfree hfree'
      have hnext : LooksLike (s.answered p answer) (s'.answered p answer) :=
        ⟨h.users, h.shareLinks, h.pending, h.pending'⟩
      obtain ⟨answers, ht, ht'⟩ := ih hnext fun e he => hes e (List.mem_cons_of_mem _ he)
      refine ⟨(p, answer) :: answers, ?_, ?_⟩
      · rw [Transition.runAll, hs, Option.bind_some, ht, answeredAll, answeredAll, answered,
          List.append_assoc, List.singleton_append]
      · rw [Transition.runAll, hs', Option.bind_some, ht', answeredAll, answeredAll, answered,
          List.append_assoc, List.singleton_append]

/-- **What requests without a valid key learn are users and share links**: two servers that agree on
these give the same answers to whatever they ask, whatever packages, files, transfers and uploads in
flight there are. -/
theorem outsiders_see_links {P P' : Server → Event → Prop} {host host' : String}
    (hrun : Reaches (step parse) P (start host) s) (hrun' : Reaches (step parse) P' (start host') s')
    (husers : s.users = s'.users) (hlinks : s.app.db.shareLinks = s'.app.db.shareLinks)
    {es : List Event}
    (hes : ∀ e ∈ es, ∃ p headers auth call, e = .request p headers auth call ∧
      authMiddleware s.users auth headers ≠ .ok () ∧ s.inFlight p = none ∧ s'.inFlight p = none) :
    ∃ answers, runAll (step parse) s es = some (s.answeredAll answers) ∧
      runAll (step parse) s' es = some (s'.answeredAll answers) :=
  LooksLike.requests ⟨husers, hlinks, (consistent_of_reaches hrun).tables.pending,
    (consistent_of_reaches hrun').tables.pending⟩ hes

/-- Two servers, one of which has answered a request already. -/
theorem outsiders_see_links_health :
    ∃ answers, runAll (step fun _ => none) (start "a")
        [.request 7 ⟨none, none⟩ true (.health true), .request 7 ⟨none, none⟩ true (.me true)]
        = some ((start "a").answeredAll answers) ∧
      runAll (step fun _ => none) ((start "b").reply 1 (.ok .loggedOut))
        [.request 7 ⟨none, none⟩ true (.health true), .request 7 ⟨none, none⟩ true (.me true)]
        = some (((start "b").reply 1 (.ok .loggedOut)).answeredAll answers) := by
  have hrun' : Reaches (step fun _ => none) (fun _ _ => True) (start "b")
      ((start "b").reply 1 (.ok .loggedOut)) :=
    Reaches.single (e := .request 1 ⟨none, none⟩ true .logout) trivial rfl
  have hrun : Reaches (step fun _ => none) (fun _ _ => True) (start "a") (start "a") :=
    Reaches.refl _
  refine outsiders_see_links hrun hrun' rfl rfl fun e he => ⟨7, ⟨none, none⟩, true, ?_⟩
  rcases List.mem_cons.mp he with rfl | he
  · exact ⟨_, rfl, fun hok => (by cases hok), rfl, rfl⟩
  · exact ⟨_, List.mem_singleton.mp he, fun hok => (by cases hok), rfl, rfl⟩

end Server

end Updown.Web
