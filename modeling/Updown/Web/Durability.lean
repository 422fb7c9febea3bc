import Updown.Web.ServerRuns

set_option autoImplicit false

/-! # What was answered stays true

Uploads and share links take several steps, and whatever other requests come in between or later: a
row that an answer speaks of is in the tables for good, as it was (`answers_last`). No handler
changes or removes a row, so a share link that was handed out is found until it expires, and the
files of a package stay stored.
-/

namespace Updown.Web

open FilePath (Name)
open Transition

/-- Nothing is lost, and no row is changed. -/
structure AppState.Keeps (app app' : AppState) : Prop where
  grows : app.Grows app'
  transfers : ∀ row ∈ app.db.transfers, row ∈ app'.db.transfers
  shareLinks : ∀ link ∈ app.db.shareLinks, link ∈ app'.db.shareLinks

theorem AppState.Keeps.refl (app : AppState) : app.Keeps app where
  grows := AppState.grows_of_packages (fun _ hpkg => hpkg) rfl
  transfers _ hrow := hrow
  shareLinks _ hlink := hlink

theorem AppState.Keeps.trans {app app₁ app₂ : AppState} (h : app.Keeps app₁)
    (h' : app₁.Keeps app₂) : app.Keeps app₂ where
  grows := h.grows.trans h'.grows
  transfers row hrow := h'.transfers row (h.transfers row hrow)
  shareLinks link hlink := h'.shareLinks link (h.shareLinks link hlink)

/-- The tables say what the answer says. -/
def Answer.Backed (app : AppState) (users : Users) : Answer → Prop
  | .shareInfo link => link ∈ app.db.shareLinks
  | .loggedIn user _ | .me user => ∃ row ∈ users, row.loginResponse = user
  | .transfers rows => ∀ row ∈ rows, row ∈ app.db.transfers
  | .packages rows => ∀ row ∈ rows, row ∈ app.db.packages
  | .package pkg => pkg ∈ app.db.packages
  | .uploaded resp =>
      (∃ pkg ∈ app.db.packages, pkg.name = resp.packageId ∧ pkg.files = resp.files ∧
        pkg.totalSize = resp.totalSize) ∧
      ∀ name ∈ resp.files, app.Stored resp.packageId name
  | .shared resp =>
      validShareCode resp.code = true ∧
      ∃ link ∈ app.db.shareLinks, link.code = resp.code ∧ link.packageId = resp.packageId
  | .health _ | .loggedOut | .agentTransfer _ => True

theorem Answer.Backed.mono {app app' : AppState} {users users' : Users} {answer : Answer}
    (h : answer.Backed app users) (happ : app.Keeps app') (husers : ∀ u ∈ users, u ∈ users') :
    answer.Backed app' users' := by
  cases answer with
  | shareInfo link => exact happ.shareLinks link h
  | loggedIn | me =>
      obtain ⟨row, hrow, huser⟩ := h
      exact ⟨row, husers row hrow, huser⟩
  | transfers rows => exact fun row hrow => happ.transfers row (h row hrow)
  | packages rows => exact fun row hrow => happ.grows.packages row (h row hrow)
  | package pkg => exact happ.grows.packages pkg h
  | uploaded resp =>
      obtain ⟨⟨pkg, hpkg, hof⟩, hstored⟩ := h
      exact ⟨⟨pkg, happ.grows.packages pkg hpkg, hof⟩, fun name hname =>
        (hstored name hname).mono happ.grows⟩
  | shared resp =>
      obtain ⟨hvalid, link, hlink, hof⟩ := h
      exact ⟨hvalid, link, happ.shareLinks link hlink, hof⟩
  | health | loggedOut | agentTransfer => trivial

/-! ## What the statements keep -/

namespace AppState

variable {app : AppState} {i : Insertion} {db : Database}

/-- The rate limiter and the storage are not in the tables. -/
theorem keeps_of_db {app' : AppState} (hdb : app'.db = app.db) (hgrows : app.Grows app') :
    app.Keeps app' where
  grows := hgrows
  transfers _ hrow := hdb ▸ hrow
  shareLinks _ hlink := hdb ▸ hlink

theorem keeps_limiter (app : AppState) (limiter : RateLimiter) :
    app.Keeps { app with rateLimiter := limiter } :=
  keeps_of_db rfl (grows_of_packages (fun _ hpkg => hpkg) rfl)

theorem keeps_createPackage {name description createdBy id : String} {files : List Name}
    {totalSize : ℕ}
    (h : app.db.createPackage i name description files totalSize createdBy = some (db, id)) :
    app.Keeps { app with db := db } := by
  obtain ⟨-, -, hlinks, htransfers, hpackages⟩ := Database.createPackage_eq_some h
  refine ⟨grows_of_packages (fun pkg hpkg => ?_) rfl, fun row hrow => ?_, fun link hlink => ?_⟩
  · show pkg ∈ db.packages
    rw [hpackages]
    exact List.mem_append_left _ hpkg
  · show row ∈ db.transfers
    rwa [htransfers]
  · show link ∈ db.shareLinks
    rwa [hlinks]

theorem keeps_createTransfer {filename : Name} {fileSize : ℕ} {direction peer id : String}
    (h : app.db.createTransfer i filename fileSize direction peer = some (db, id)) :
    app.Keeps { app with db := db } := by
  rcases app.db.createTransfer_cases i filename fileSize direction peer with
    ⟨-, -, hrow⟩ | ⟨-, hrow⟩
  · obtain ⟨rfl, -⟩ := Prod.mk.inj (Option.some.inj (hrow.symm.trans h))
    exact ⟨grows_of_packages (fun _ hpkg => hpkg) rfl,
      fun _ hold => List.mem_append_left _ hold, fun _ hlink => hlink⟩
  · cases hrow.symm.trans h

/-- A new link is in the table under its code. -/
theorem keeps_createShareLink {randomBytes : Vector UInt8 18} {packageId createdBy code : String}
    {maxDownloads : Option ℤ} {expiresAt : Option String}
    (h : app.db.createShareLink i randomBytes packageId createdBy maxDownloads expiresAt
      = some (db, code)) :
    app.Keeps { app with db := db } ∧ code = Database.shareCode randomBytes ∧
      ∃ link ∈ db.shareLinks, link.code = code ∧ link.packageId = packageId := by
  unfold Database.createShareLink Database.insert at h
  dsimp only at h
  split at h
  · split at h
    · cases h
    · obtain ⟨rfl, rfl⟩ := Prod.mk.inj (Option.some.inj h)
      exact ⟨⟨grows_of_packages (fun _ hpkg => hpkg) rfl, fun _ hrow => hrow,
          fun _ hold => List.mem_append_left _ hold⟩, rfl,
        _, List.mem_append_right _ (List.mem_singleton_self _), rfl, rfl⟩
  · cases h

end AppState

/-! ## What the lookups find -/

theorem mem_of_getShareInfo {parse : String → Option ℤ} {db : Database} {env : InfoEnv}
    {code : String} {link : ShareLink} (h : getShareInfo parse db env code = .ok link) :
    link ∈ db.shareLinks := by
  unfold getShareInfo at h
  split at h
  · cases h
  · split at h
    · cases h
    · cases h
    · split at h
      · cases h
      next found hfound =>
      split at h
      · cases h
      · split at h
        · cases h
        · obtain rfl := Except.ok.inj h
          exact List.mem_of_find?_eq_some hfound

theorem mem_of_getPackage {db : Database} {lookup : Lookup} {id : String} {pkg : Package}
    (h : getPackage db lookup id = .ok pkg) : pkg ∈ db.packages := by
  unfold getPackage at h
  split at h
  · cases h
  · split at h
    · cases h
    · cases h
    · split at h
      · cases h
      · next found hfound =>
          obtain rfl := Except.ok.inj h
          exact List.mem_of_find?_eq_some hfound

theorem mem_of_listTransfers {db : Database} {executed : Bool} {limit : Option ℤ} {row : Transfer}
    (h : row ∈ listTransfers db executed limit) : row ∈ db.transfers := by
  cases executed with
  | false => cases h
  | true => exact mem_newest h

theorem mem_of_listPackages {db : Database} {executed : Bool} {limit : Option ℤ} {row : Package}
    (h : row ∈ listPackages db executed limit) : row ∈ db.packages := by
  cases executed with
  | false => cases h
  | true => exact mem_newest h

theorem mem_of_validateApiKey {users : Users} {executed : Bool} {key : String} {user : User}
    (h : validateApiKey users executed key = some (some user)) : user ∈ users := by
  unfold validateApiKey at h
  split at h
  · cases Option.some.inj h
  · split at h
    · exact (of_getUserByApiKey (Option.some.inj h)).1
    · cases h

theorem exists_of_login {users : Users} {executed : Bool} {key : String} {user : LoginResponse}
    {cookie : List Char} (h : login users executed key = some (.ok (user, cookie))) :
    ∃ row ∈ users, row.loginResponse = user := by
  unfold login at h
  split at h
  · next row hvalid =>
      split at h
      · obtain ⟨rfl, -⟩ := Prod.mk.inj (Except.ok.inj (Option.some.inj h))
        exact ⟨row, mem_of_validateApiKey hvalid, rfl⟩
      · cases h
  · cases Option.some.inj h
  · cases Option.some.inj h

theorem exists_of_me {users : Users} {executed : Bool} {req : Request} {user : LoginResponse}
    (h : me users executed req = .ok user) : ∃ row ∈ users, row.loginResponse = user := by
  unfold me at h
  split at h
  · split at h
    · cases h
    · split at h
      · next row hvalid =>
          obtain rfl := Except.ok.inj h
          exact ⟨row, mem_of_validateApiKey hvalid, rfl⟩
      · cases h
  · cases h

theorem createPackage_ok {app : AppState} {i : Insertion} {lookup : Lookup} {req : CreatePackageReq}
    {pkg : Package} (h : (createPackage app i lookup req).2 = .ok pkg) :
    pkg ∈ (createPackage app i lookup req).1.db.packages := by
  unfold createPackage at h ⊢
  split at h
  · cases h
  · rw [if_neg ‹_›]
    split at h
    · cases h
    · rw [if_neg ‹_›]
      split at h
      · cases h
      · split at h
        · cases h
        · cases h
        · split at h
          · cases h
          · next found hfound =>
              obtain rfl := Except.ok.inj h
              exact List.mem_of_find?_eq_some hfound

theorem keeps_createPackage (app : AppState) (i : Insertion) (lookup : Lookup)
    (req : CreatePackageReq) : app.Keeps (createPackage app i lookup req).1 := by
  rcases createPackage_cases app i lookup req with hsame | ⟨db, id, hcreate, hnew⟩
  · rw [hsame]
    exact AppState.keeps_limiter app app.rateLimiter
  · rw [hnew]
    exact AppState.keeps_createPackage hcreate

/-! ## Every step keeps what was answered -/

namespace Server

/-- Since the state `s₀` nothing was lost, and the tables say what has been answered. -/
structure Honest (s₀ s : Server) : Prop where
  keeps : s₀.app.Keeps s.app
  answered : ∀ p answer, (p, some (.ok answer)) ∈ s.answers → answer.Backed s.app s.users

variable {s₀ s s' : Server} {p : ℕ}

theorem Honest.setFlight (h : Honest s₀ s) (flight : Option InFlight) :
    Honest s₀ (s.setFlight p flight) := ⟨h.keeps, h.answered⟩

theorem Honest.setApp (h : Honest s₀ s) {app : AppState} (hkeeps : s.app.Keeps app) :
    Honest s₀ (s.setApp app) where
  keeps := h.keeps.trans hkeeps
  answered q answer hq := (h.answered q answer hq).mono hkeeps fun _ hu => hu

theorem Honest.setStorage (h : Honest s₀ s) {id : String} {dir : Dir}
    (hgrows : s.app.Grows (s.setStorage id dir).app) : Honest s₀ (s.setStorage id dir) :=
  h.setApp (AppState.keeps_of_db rfl hgrows)

theorem Honest.reply (h : Honest s₀ s) {answer : Except ApiError Answer}
    (hbacked : ∀ a, answer = .ok a → a.Backed s.app s.users) : Honest s₀ (s.reply p answer) := by
  refine ⟨h.keeps, fun q a hq => ?_⟩
  rcases List.mem_append.mp hq with hq | hq
  · exact h.answered q a hq
  · obtain ⟨-, ha⟩ := Prod.mk.inj (List.mem_singleton.mp hq)
    exact hbacked a (Option.some.inj ha).symm

theorem Honest.refuse (h : Honest s₀ s) (e : ApiError) : Honest s₀ (s.reply p (.error e)) :=
  h.reply fun _ ha => nomatch ha

theorem Honest.replyMap (h : Honest s₀ s) {α : Type} {res : Except ApiError α} {f : α → Answer}
    (hbacked : ∀ a, res = .ok a → (f a).Backed s.app s.users) :
    Honest s₀ (s.reply p (res.map f)) := by
  cases res with
  | error e => exact h.refuse e
  | ok a =>
      refine h.reply fun b hb => ?_
      obtain rfl := Except.ok.inj hb
      exact hbacked a rfl

theorem Honest.abort (h : Honest s₀ s) (e : ApiError) : Honest s₀ (s.finish p (.error e)) :=
  (h.setFlight none).refuse e

theorem Honest.beginUpload (h : Honest s₀ s) (now : ℕ) (pkgId : String) (dir : DirOutcome)
    (multipart : Multipart) : Honest s₀ (s.beginUpload p now pkgId dir multipart) := by
  have hlimiter := h.setApp (AppState.keeps_limiter s.app
    (s.app.rateLimiter.check now "upload" "global" RATE_LIMIT_UPLOAD_MAX).1)
  unfold Server.beginUpload
  dsimp only
  split
  · exact hlimiter.refuse _
  · cases dir with
    | missing inside =>
        cases inside with
        | false => exact hlimiter.refuse _
        | true => exact hlimiter.setFlight _
    | created => exact (hlimiter.setStorage (grows_createDir _ pkgId)).setFlight _

theorem Honest.handle (h : Honest s₀ s) (parse : String → Option ℤ) (headers : Request)
    (call : Call) : Honest s₀ (s.handle parse p headers call) := by
  cases call with
  | health executed | logout => exact h.reply fun a ha => by cases ha; trivial
  | shareInfo env code => exact h.replyMap fun _ hlink => mem_of_getShareInfo hlink
  | login executed apiKey =>
      rw [Server.handle]
      cases hlogin : login s.users executed apiKey with
      | none =>
          -- the handler panics
          refine ⟨h.keeps, fun q a hq => ?_⟩
          rcases List.mem_append.mp hq with hq | hq
          · exact h.answered q a hq
          · cases (Prod.mk.inj (List.mem_singleton.mp hq)).2
      | some res =>
          refine h.replyMap fun user huser => ?_
          rw [huser] at hlogin
          exact exists_of_login hlogin
  | me executed => exact h.replyMap fun _ huser => exists_of_me huser
  | transfers executed limit =>
      refine h.reply fun a ha => ?_
      obtain rfl := Except.ok.inj ha
      exact fun row hrow => mem_of_listTransfers hrow
  | packages executed limit =>
      refine h.reply fun a ha => ?_
      obtain rfl := Except.ok.inj ha
      exact fun row hrow => mem_of_listPackages hrow
  | createPackage i lookup req =>
      exact (h.setApp (keeps_createPackage s.app i lookup req)).replyMap fun _ hpkg =>
        createPackage_ok hpkg
  | package lookup id => exact h.replyMap fun _ hpkg => mem_of_getPackage hpkg
  | upload now pkgId dir multipart => exact h.beginUpload now pkgId dir multipart
  | share now lookup hoursFromNow req =>
      obtain ⟨limiter, hframe⟩ := checkShare_frame s.app now lookup req
      rw [Server.handle]
      cases hcheck : checkShare s.app now lookup req with
      | mk app res =>
          rw [hcheck] at hframe
          obtain rfl := hframe
          have hlimiter := h.setApp (AppState.keeps_limiter s.app limiter)
          cases res with
          | error e => exact hlimiter.refuse e
          | ok => exact hlimiter.setFlight _
  | agentTransfer req => exact h.replyMap fun _ _ => trivial

theorem Honest.stepField (h : Honest s₀ s) {write : WriteOutcome}
    (hs : s.stepField p write = some s') : Honest s₀ s' := by
  unfold Server.stepField at hs
  split at hs
  · next pkgId field rest files totalSize hflight =>
      rcases storeField_cases write field ((s.app.storage pkgId).getD fun _ => none) files
          totalSize with ⟨e, hout⟩ | ⟨name, data, e, -, hout⟩ | ⟨name, data, hname, -, -, hout⟩
      · rw [hout] at hs
        obtain rfl := Option.some.inj hs
        exact (h.setStorage (grows_createDir s pkgId)).abort e
      · rw [hout] at hs
        obtain rfl := Option.some.inj hs
        exact (h.setStorage (grows_writeFile s pkgId name data)).abort e
      · rw [hout] at hs
        obtain rfl := Option.some.inj hs
        exact (h.setStorage (grows_writeFile s pkgId name data)).setFlight _
  · split at hs
    · obtain rfl := Option.some.inj hs
      exact h.abort _
    · cases hs
  · cases hs

theorem Honest.stepRecord (h : Honest s₀ s) (hc : Consistent s) {i : Insertion}
    (hs : s.stepRecord p i = some s') : Honest s₀ s' := by
  have hpackage : ∀ {pkgId id : String} {files : List Name} {totalSize : ℕ} {db : Database},
      s.app.db.createPackage i pkgId "" files totalSize "upload" = some (db, id) →
      Honest s₀ ((s.setDb db).setFlight p (some (.recording pkgId files files totalSize))) :=
    fun hcreate => (h.setApp (AppState.keeps_createPackage hcreate)).setFlight _
  unfold Server.stepRecord at hs
  split at hs
  · split at hs
    · obtain rfl := Option.some.inj hs
      exact h.abort _
    · split at hs
      · obtain rfl := Option.some.inj hs
        exact h.abort _
      · next hcreate =>
          obtain rfl := Option.some.inj hs
          exact hpackage hcreate
  · split at hs
    · obtain rfl := Option.some.inj hs
      exact h.abort _
    · split at hs
      · obtain rfl := Option.some.inj hs
        exact h.abort _
      · next hcreate =>
          obtain rfl := Option.some.inj hs
          exact hpackage hcreate
  · split at hs
    · obtain rfl := Option.some.inj hs
      exact h.setFlight _
    · next hcreate =>
        obtain rfl := Option.some.inj hs
        exact (h.setApp (AppState.keeps_createTransfer hcreate)).setFlight _
  · next pkgId files totalSize hflight =>
      obtain rfl := Option.some.inj hs
      -- the package was recorded by this request and is still there
      obtain ⟨-, pkg, hpkg, hname, hfiles, htotal⟩ := hc.flights p _ hflight
      refine (h.setFlight none).reply fun a ha => ?_
      obtain rfl := Except.ok.inj ha
      refine ⟨⟨pkg, hpkg, hname, hfiles, htotal⟩, fun name hmem => ?_⟩
      rw [← hname]
      exact hc.tables.stored pkg hpkg name (hfiles ▸ hmem)
  · cases hs

theorem Honest.stepLink (h : Honest s₀ s) {i : Insertion} {randomBytes : Vector UInt8 18}
    (hs : s.stepLink p i randomBytes = some s') : Honest s₀ s' := by
  unfold Server.stepLink at hs
  split at hs
  · split at hs
    · obtain rfl := Option.some.inj hs
      exact h.abort _
    · next hcreate =>
        obtain rfl := Option.some.inj hs
        obtain ⟨hkeeps, hcode, hlink⟩ := AppState.keeps_createShareLink hcreate
        refine ((h.setApp hkeeps).setFlight none).reply fun a ha => ?_
        obtain rfl := Except.ok.inj ha
        exact ⟨hcode ▸ validShareCode_shareCode randomBytes, hlink⟩
  · cases hs

/-- **Every step keeps what was answered.** -/
theorem Honest.step (h : Honest s₀ s) (hc : Consistent s) {parse : String → Option ℤ}
    {e : Event} (hs : s.step parse e = some s') : Honest s₀ s' := by
  cases e with
  | request p headers auth call =>
      simp only [Server.step] at hs
      split at hs
      · cases hs
      · split at hs
        · split at hs
          · obtain rfl := Option.some.inj hs
            exact h.refuse _
          · obtain rfl := Option.some.inj hs
            exact h.handle parse headers call
        · obtain rfl := Option.some.inj hs
          exact h.handle parse headers call
  | field p write => exact h.stepField hs
  | record p i => exact h.stepRecord hc hs
  | link p i randomBytes => exact h.stepLink hs
  | createUser c =>
      obtain rfl := Option.some.inj hs
      exact ⟨h.keeps, fun q answer hq => (h.answered q answer hq).mono (.refl s.app) fun _ hu =>
        mem_usersAfter hu [c]⟩

/-- A run from a reachable state keeps what was there. -/
theorem Honest.run {parse : String → Option ℤ} {P : Server → Event → Prop} {host : String}
    (h : Honest s₀ s) (hreach : Reaches (Server.step parse) P (start host) s)
    (hrun : Reaches (Server.step parse) P s s') : Honest s₀ s' :=
  hrun.invariant_along h fun _ _ _ hmid hu _ hs =>
    hu.step (consistent_of_reaches (hreach.trans hmid)) hs

theorem honest_of_reaches {parse : String → Option ℤ} {P : Server → Event → Prop} {host : String}
    (hrun : Reaches (Server.step parse) P (start host) s) : Honest s s := by
  have hstart : Honest (start host) (start host) := ⟨.refl _, fun q answer hq => by cases hq⟩
  exact ⟨.refl _, (hstart.run (.refl _) hrun).answered⟩

/-- The row of a code is found under it. -/
theorem getShareLink_of_mem {db : Database} (hcodes : (db.shareLinks.map ShareLink.code).Nodup)
    {link : ShareLink} (hlink : link ∈ db.shareLinks) : db.getShareLink link.code = some link := by
  cases hfind : db.getShareLink link.code with
  | none => exact absurd (beq_self_eq_true link.code) (List.find?_eq_none.mp hfind link hlink)
  | some found =>
      have hmem := List.mem_of_find?_eq_some hfind
      have hcode := List.find?_some hfind
      rw [beq_iff_eq] at hcode
      rw [List.inj_on_of_nodup_map hcodes hmem hlink hcode]

/-- Under the code of a row in the table the row is shown, until it expires. -/
theorem getShareInfo_of_mem {app : AppState} (h : app.TablesOk) (parse : String → Option ℤ)
    {link : ShareLink} (hlink : link ∈ app.db.shareLinks) (hvalid : validShareCode link.code = true)
    {env : InfoEnv} (hlookup : env.lookup = .executed) :
    getShareInfo parse app.db env link.code =
      if hasExpired parse link.expiresAt env.now then .error (errJson "Share link has expired")
      else .ok link := by
  have hfound := getShareLink_of_mem h.codes hlink
  obtain ⟨hcount, hlimit⟩ := h.uncounted link hlink
  -- no download is ever counted, so the limit is not reached
  have hroom : (link.maxDownloads.any fun m => m ≤ (link.downloadCount : ℤ)) = false := by
    rw [Option.any_eq_false]
    intro m hm
    have hpos := hlimit m hm
    rw [hcount]
    simpa using hpos
  unfold getShareInfo
  simp only [hvalid, hlookup, hfound, hroom]
  rfl

/-- **What was answered stays true**, whatever requests come in between and however their steps mix:
the rows that an answer shows are in the tables as they were, the files of an upload that was
confirmed are stored, and a code that was handed out stands for one link, which is shown under it in
every later state until it expires. -/
theorem answers_last {parse : String → Option ℤ} {P : Server → Event → Prop} {host : String}
    (hrun : Reaches (Server.step parse) P (start host) s) :
    (∀ p answer, (p, some (.ok answer)) ∈ s.answers → answer.Backed s.app s.users) ∧
    ∀ p resp, (p, some (.ok (.shared resp))) ∈ s.answers →
      ∃ link ∈ s.app.db.shareLinks, link.code = resp.code ∧ link.packageId = resp.packageId ∧
        ∀ s', Reaches (Server.step parse) P s s' → link ∈ s'.app.db.shareLinks ∧
          ∀ env : InfoEnv, env.lookup = .executed →
            getShareInfo parse s'.app.db env resp.code =
              if hasExpired parse link.expiresAt env.now then
                .error (errJson "Share link has expired")
              else .ok link := by
  have hhonest := honest_of_reaches hrun
  refine ⟨hhonest.answered, fun p resp hresp => ?_⟩
  obtain ⟨hvalid, link, hlink, hcode, hpackage⟩ := hhonest.answered p _ hresp
  refine ⟨link, hlink, hcode, hpackage, fun s' hlater => ?_⟩
  have hkept := (hhonest.run hrun hlater).keeps.shareLinks link hlink
  have htables := (consistent_of_reaches (hrun.trans hlater)).tables
  refine ⟨hkept, fun env hlookup => ?_⟩
  rw [← hcode]
  exact getShareInfo_of_mem htables parse hkept (hcode ▸ hvalid) hlookup

/-- Both answers to Ada. -/
theorem answers_last_ada : ∃ s : Server, s.answers.length = 2 ∧
    (∀ p answer, (p, some (.ok answer)) ∈ s.answers → answer.Backed s.app s.users) ∧
    ∀ p resp, (p, some (.ok (.shared resp))) ∈ s.answers →
      ∃ link ∈ s.app.db.shareLinks, link.code = resp.code ∧ link.packageId = resp.packageId ∧
        ∀ s', Reaches (step fun _ => none) (fun _ _ => True) s s' →
          link ∈ s'.app.db.shareLinks ∧ ∀ env : InfoEnv, env.lookup = .executed →
            getShareInfo (fun _ => none) s'.app.db env resp.code =
              if hasExpired (fun _ => none) link.expiresAt env.now then
                .error (errJson "Share link has expired")
              else .ok link := by
  obtain ⟨s, hrun, hanswers⟩ := exists_of_runAll (step fun _ => none) (start "host") adasRun
    (fun s : Server => decide (s.answers.length = 2)) (by decide +kernel)
  exact ⟨s, of_decide_eq_true hanswers, answers_last (Reaches.of_runAll (P := fun _ _ => True) hrun
    (allowedAlong_of_forall fun _ _ _ => trivial))⟩

end Server

end Updown.Web
