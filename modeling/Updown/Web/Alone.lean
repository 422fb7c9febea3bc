import Updown.Lib.Transition
import Updown.Web.Server

set_option autoImplicit false

/-! # Requests that nothing interrupts

The handlers as functions, `uploadFiles` and `createShareLink`, are what the steps of a request come
to when no other event stands between them.
-/

namespace Updown.Web

open FilePath (Name)
open Transition

/-- The checks of a share link come before everything else. -/
theorem createShareLink_eq_checkShare (s : AppState) (env : ShareEnv) (req : CreateShareReq) :
    createShareLink s env req =
      match checkShare s env.now env.lookup req with
      | (s, .error e) => (s, .error e)
      | (s, .ok ()) =>
          match s.db.createShareLink env.link env.randomBytes req.packageId "api" req.maxDownloads
              (req.expiresHours.map env.hoursFromNow) with
          | none => (s, .error (errJson "Failed to create share link"))
          | some (db, code) =>
              ({ s with db := db },
                .ok { code := code, url := "http://" ++ s.host ++ "/d/" ++ code,
                      packageId := req.packageId }) := by
  unfold createShareLink checkShare
  dsimp only
  split
  · rfl
  · split
    · rfl
    · split
      · rfl
      · split
        · rfl
        · generalize (if env.lookup then s.db.getPackage req.packageId else none) = found
          cases found <;> rfl

namespace Server

variable (parse : String → Option ℤ) {s : Server} {p : ℕ}

/-- Without anything in flight an answer is the last step. -/
theorem finish_of_free (hfree : s.inFlight p = none) (answer : Except ApiError Answer) :
    s.finish p answer = s.reply p answer := by
  have hsame : Function.update s.inFlight p none = s.inFlight := by
    rw [← hfree, Function.update_eq_self]
  rw [finish, setFlight, hsame]

theorem setFlight_self (flight : Option InFlight) : (s.setFlight p flight).inFlight p = flight :=
  Function.update_self _ _ _

theorem setFlight_finish (flight : Option InFlight) (answer : Except ApiError Answer) :
    (s.setFlight p flight).finish p answer = s.finish p answer := by
  unfold finish setFlight reply
  rw [Function.update_idem]

theorem setFlight_setFlight (flight flight' : Option InFlight) :
    (s.setFlight p flight).setFlight p flight' = s.setFlight p flight' := by
  unfold setFlight
  rw [Function.update_idem]

theorem setStorage_setStorage (id : String) (dir dir' : Dir) :
    (s.setStorage id dir).setStorage id dir' = s.setStorage id dir' := by
  unfold setStorage
  rw [Function.update_idem]

theorem setFlight_setStorage (flight : Option InFlight) (id : String) (dir : Dir) :
    (s.setFlight p flight).setStorage id dir = (s.setStorage id dir).setFlight p flight := rfl

theorem setStorage_same {id : String} {dir : Dir} (hdir : s.app.storage id = some dir) :
    s.setStorage id dir = s := by
  unfold setStorage
  rw [← hdir, Function.update_eq_self]

theorem setFlight_same : s.setFlight p (s.inFlight p) = s := by
  unfold setFlight
  rw [Function.update_eq_self]

/-! ## A share link -/

/-- A share link that nothing interrupts. -/
theorem share_alone (hfree : s.inFlight p = none) (headers : Request) (env : ShareEnv)
    (req : CreateShareReq) :
    ∃ es, (∀ e ∈ es, e.connection = some p) ∧
      runAll (step parse)
          (s.handle parse p headers (.share env.now env.lookup env.hoursFromNow req)) es
        = some ((s.setApp (createShareLink s.app env req).1).finish p
            ((createShareLink s.app env req).2.map .shared)) := by
  rw [createShareLink_eq_checkShare, handle]
  cases checkShare s.app env.now env.lookup req with
  | mk app res =>
      cases res with
      | error e => exact ⟨[], fun _ he => (by cases he), congrArg some
          (finish_of_free (s := s.setApp app) hfree _).symm⟩
      | ok =>
          refine ⟨[.link p env.link env.randomBytes], List.forall_mem_singleton.mpr rfl, ?_⟩
          dsimp only
          have hflight := setFlight_self (s := s.setApp app) (p := p)
            (some (.link req (req.expiresHours.map env.hoursFromNow)))
          rw [runAll_singleton, step, stepLink, hflight]
          dsimp only [setFlight, setApp]
          cases app.db.createShareLink env.link env.randomBytes req.packageId "api" req.maxDownloads
              (req.expiresHours.map env.hoursFromNow) with
          | none => exact congrArg some (setFlight_finish (s := s.setApp app) _ _)
          | some res =>
              exact congrArg some (setFlight_finish (s := s.setApp { app with db := res.1 }) _ _)

/-! ## An upload -/

/-- The steps take `s` through the fields of the upload of `p`, to `u` but for what is in flight. -/
def FieldsDone (parse : String → Option ℤ) (s u : Server) (es : List Event) (p : ℕ) (pkgId : String)
    (created : Bool) : Except ApiError (List Name × ℕ) → Prop
  | .error e => runAll (step parse) s es = some (u.finish p (.error e))
  | .ok (files, totalSize) => ∃ rest : Multipart, (∀ field ∈ rest.head?, field = none) ∧
      runAll (step parse) s es
        = some (u.setFlight p (some (.fields pkgId created rest files totalSize)))

/-- No field is left. -/
theorem fieldsDone_nil {pkgId : String} {created : Bool} {files : List Name} {totalSize : ℕ}
    (rest : Multipart) (hrest : ∀ field ∈ rest.head?, field = none)
    (hflight : s.inFlight p = some (.fields pkgId created rest files totalSize)) :
    FieldsDone parse s s [] p pkgId created (.ok (files, totalSize)) :=
  ⟨rest, hrest, by rw [← hflight, setFlight_same]; rfl⟩

variable {parse} in
theorem FieldsDone.cons {t u u' : Server} {e : Event} {es : List Event} {pkgId : String}
    {created : Bool} {stored : Except ApiError (List Name × ℕ)} (flight : Option InFlight)
    (h : FieldsDone parse t u es p pkgId created stored) (hs : s.step parse e = some t)
    (hu : u = u'.setFlight p flight) : FieldsDone parse s u' (e :: es) p pkgId created stored := by
  have hfirst : runAll (step parse) s (e :: es) = runAll (step parse) t es := by
    rw [runAll, hs, Option.bind_some]
  cases stored with
  | error e =>
      rw [FieldsDone, hfirst, h, hu, setFlight_finish]
  | ok res =>
      obtain ⟨rest, hrest, hrun⟩ := h
      exact ⟨rest, hrest, by rw [hfirst, hrun, hu, setFlight_setFlight]⟩

/-- The fields of an upload. -/
theorem fields_alone (write : ℕ → WriteOutcome) {pkgId : String} {dir : Dir}
    (hdir : s.app.storage pkgId = some dir) (rest : Multipart) (i : ℕ) (files : List Name)
    (totalSize : ℕ) (hflight : s.inFlight p = some (.fields pkgId true rest files totalSize)) :
    ∃ es, (∀ e ∈ es, e.connection = some p) ∧
      FieldsDone parse s (s.setStorage pkgId (storeFields write rest i dir files totalSize).1) es p
        pkgId true (storeFields write rest i dir files totalSize).2 := by
  induction rest generalizing i dir files totalSize s with
  | nil =>
      refine ⟨[], fun _ he => (by cases he), ?_⟩
      rw [storeFields, setStorage_same hdir]
      exact fieldsDone_nil parse [] (fun _ hfield => by cases hfield) hflight
  | cons field rest ih =>
      cases field with
      | none =>
          refine ⟨[], fun _ he => (by cases he), ?_⟩
          rw [storeFields, setStorage_same hdir]
          exact fieldsDone_nil parse (none :: rest)
            (fun field hfield => (Option.some.inj hfield).symm) hflight
      | some field =>
          have hstep := stepField_eq (write i) hflight hdir
          rw [storeFields_eq_storeField]
          cases hout : storeField (write i) field dir files totalSize with
          | mk dir' res =>
              rw [hout] at hstep
              cases res with
              | error e =>
                  refine ⟨[.field p (write i)], List.forall_mem_singleton.mpr rfl, ?_⟩
                  rw [FieldsDone, runAll_singleton, step, hstep]
              -- the field is stored: the loop goes on in a state with another directory
              | ok res =>
                  have hdir' : ((s.setStorage pkgId dir').setFlight p
                      (some (.fields pkgId true rest res.1 res.2))).app.storage pkgId = some dir' :=
                    Function.update_self _ _ _
                  obtain ⟨es, hes, hdone⟩ := ih hdir' (i + 1) res.1 res.2 (setFlight_self _)
                  refine ⟨.field p (write i) :: es, List.forall_mem_cons.mpr ⟨rfl, hes⟩,
                    hdone.cons (some (.fields pkgId true rest res.1 res.2)) hstep ?_⟩
                  rw [setFlight_setStorage, setStorage_setStorage]

/-- Without the directory the first field is the last. -/
theorem fields_refused {pkgId : String} (rest : Multipart) (i : ℕ) (files : List Name)
    (totalSize : ℕ) (hflight : s.inFlight p = some (.fields pkgId false rest files totalSize)) :
    ∃ es, (∀ e ∈ es, e.connection = some p) ∧ FieldsDone parse s s es p pkgId false
      (storeFields (fun _ => .refused) rest i (fun _ => none) files totalSize).2 := by
  cases rest with
  | nil => exact ⟨[], fun _ he => (by cases he),
      fieldsDone_nil parse [] (fun _ hfield => by cases hfield) hflight⟩
  | cons field rest =>
      cases field with
      | none => exact ⟨[], fun _ he => (by cases he), fieldsDone_nil parse (none :: rest)
          (fun field hfield => (Option.some.inj hfield).symm) hflight⟩
      | some field =>
          refine ⟨[.field p .refused], List.forall_mem_singleton.mpr rfl, ?_⟩
          rw [storeFields_eq_storeField]
          rcases storeField_cases .refused field (fun _ => none) files totalSize with
            ⟨e, hout⟩ | ⟨-, -, -, hwrite, -⟩ | ⟨-, -, -, -, hwrite, -⟩
          · rw [hout, FieldsDone, runAll_singleton, step, stepField, hflight]
            dsimp only
            rw [hout]
          · exact absurd rfl hwrite
          · cases hwrite

/-- The transfers of an upload, and its answer. -/
theorem transfers_alone (transfer : ℕ → Insertion) {pkgId : String} {files : List Name}
    {totalSize : ℕ} (rest : List Name) (i : ℕ)
    (hflight : s.inFlight p = some (.recording pkgId rest files totalSize)) :
    ∃ es, (∀ e ∈ es, e.connection = some p) ∧ runAll (step parse) s es
      = some ((s.setDb (recordTransfers transfer totalSize rest i s.app.db)).finish p
          (.ok (.uploaded { packageId := pkgId, files := files, totalSize := totalSize }))) := by
  induction rest generalizing i s with
  | nil =>
      refine ⟨[.record p (transfer i)], List.forall_mem_singleton.mpr rfl, ?_⟩
      rw [runAll_singleton, step, stepRecord, hflight]
      rfl
  | cons file rest ih =>
      have hstep : s.stepRecord p (transfer i) = some (((s.setDb
          (((s.app.db.createTransfer (transfer i) file totalSize "upload" "web").map
            Prod.fst).getD s.app.db))).setFlight p
              (some (.recording pkgId rest files totalSize))) := by
        rw [stepRecord, hflight]
        dsimp only
        cases s.app.db.createTransfer (transfer i) file totalSize "upload" "web" with
        | none => rfl
        | some res => rfl
      obtain ⟨es, hes, hrun⟩ := ih (i + 1) (setFlight_self _)
      refine ⟨.record p (transfer i) :: es, List.forall_mem_cons.mpr ⟨rfl, hes⟩, ?_⟩
      rw [runAll, step, hstep, Option.bind_some, hrun, recordTransfers]
      cases s.app.db.createTransfer (transfer i) file totalSize "upload" "web" with
      | none => exact congrArg some (setFlight_finish (s := s.setDb _) _ _)
      | some res => exact congrArg some (setFlight_finish (s := s.setDb _) _ _)

/-- The package of an upload, its transfers, and its answer. -/
theorem record_alone (env : UploadEnv) {created : Bool} {rest : Multipart} {files : List Name}
    {totalSize : ℕ} (hrest : ∀ field ∈ rest.head?, field = none)
    (hflight : s.inFlight p = some (.fields env.pkgId created rest files totalSize)) :
    ∃ es, (∀ e ∈ es, e.connection = some p) ∧ runAll (step parse) s es
      = some ((s.setApp (s.app.recordUpload env (.ok (files, totalSize))).1).finish p
          ((s.app.recordUpload env (.ok (files, totalSize))).2.map .uploaded)) := by
  have hstep := stepRecord_eq env.package hrest hflight
  rw [AppState.recordUpload]
  by_cases hfiles : files = []
  · refine ⟨[.record p env.package], List.forall_mem_singleton.mpr rfl, ?_⟩
    rw [runAll_singleton, step, hstep, if_pos hfiles, if_pos hfiles]
    rfl
  · rw [if_neg hfiles] at hstep ⊢
    cases hcreate : s.app.db.createPackage env.package env.pkgId "" files totalSize "upload" with
    | none =>
        refine ⟨[.record p env.package], List.forall_mem_singleton.mpr rfl, ?_⟩
        rw [runAll_singleton, step, hstep, hcreate]
        rfl
    | some res =>
        rw [hcreate] at hstep
        obtain ⟨es, hes, hrun⟩ := transfers_alone parse env.transfer
          (s := (s.setDb res.1).setFlight p (some (.recording env.pkgId files files totalSize)))
          files 0 (setFlight_self _)
        refine ⟨.record p env.package :: es, List.forall_mem_cons.mpr ⟨rfl, hes⟩, ?_⟩
        rw [runAll, step, hstep, Option.bind_some, hrun]
        exact congrArg some (setFlight_finish (s := s.setDb _) _ _)

variable {parse} in
/-- The end of an upload after its fields. -/
theorem FieldsDone.record {u : Server} {env : UploadEnv} {created : Bool} {es : List Event}
    {stored : Except ApiError (List Name × ℕ)}
    (h : FieldsDone parse s u es p env.pkgId created stored)
    (hes : ∀ e ∈ es, e.connection = some p) :
    ∃ es, (∀ e ∈ es, e.connection = some p) ∧ runAll (step parse) s es
      = some ((u.setApp (u.app.recordUpload env stored).1).finish p
          ((u.app.recordUpload env stored).2.map .uploaded)) := by
  cases stored with
  | error e => exact ⟨es, hes, h⟩
  | ok res =>
      obtain ⟨rest, hrest, hrun⟩ := h
      obtain ⟨es', hes', hrun'⟩ := record_alone parse env hrest
        (setFlight_self (s := u) (some (.fields env.pkgId created rest res.1 res.2)))
      refine ⟨es ++ es', List.forall_mem_append.mpr ⟨hes, hes'⟩, ?_⟩
      rw [runAll_append, hrun, Option.bind_some, hrun']
      exact congrArg some (setFlight_finish (s := u.setApp _) _ _)

/-- **An upload that nothing interrupts** does what the handler as a function does. -/
theorem upload_alone (hfree : s.inFlight p = none) (headers : Request) (env : UploadEnv)
    (multipart : Multipart) :
    ∃ es, (∀ e ∈ es, e.connection = some p) ∧
      runAll (step parse) (s.handle parse p headers (.upload env.now env.pkgId env.dir multipart)) es
        = some ((s.setApp (uploadFiles s.app env multipart).1).finish p
            ((uploadFiles s.app env multipart).2.map .uploaded)) := by
  rw [handle, beginUpload, uploadFiles]
  dsimp only
  set app : AppState := { s.app with rateLimiter :=
    (s.app.rateLimiter.check env.now "upload" "global" RATE_LIMIT_UPLOAD_MAX).1 } with happ
  have hreply : ∀ answer, (s.setApp app).reply p answer = (s.setApp app).finish p answer :=
    fun answer => (finish_of_free (s := s.setApp app) hfree answer).symm
  split
  · exact ⟨[], fun _ he => (by cases he), congrArg some (hreply _)⟩
  · cases env.dir with
    | missing inside =>
        cases inside with
        | false => exact ⟨[], fun _ he => (by cases he), congrArg some (hreply _)⟩
        | true =>
            obtain ⟨es, hes, hdone⟩ := fields_refused parse multipart 0 [] 0
              (setFlight_self (s := s.setApp app) (p := p)
                (some (.fields env.pkgId false multipart [] 0)))
            obtain ⟨es', hes', hrun⟩ := hdone.record hes
            exact ⟨es', hes', hrun.trans (congrArg some (setFlight_finish (s := s.setApp _) _ _))⟩
    | created =>
        set dir := (s.app.storage env.pkgId).getD fun _ => none with hdir
        obtain ⟨es, hes, hdone⟩ := fields_alone parse (p := p) env.write
          (s := ((s.setApp app).setStorage env.pkgId dir).setFlight p
            (some (.fields env.pkgId true multipart [] 0)))
          (Function.update_self _ _ _) multipart 0 [] 0 (setFlight_self _)
        obtain ⟨es', hes', hrun⟩ := hdone.record hes
        refine ⟨es', hes', hrun.trans (congrArg some ?_)⟩
        rw [setFlight_setStorage, setStorage_setStorage]
        exact setFlight_finish (s := (s.setApp app).setApp _) _ _

end Server

end Updown.Web
