import Updown.Lib.Transition
import Updown.Web.Server

set_option autoImplicit false

/-! # The tables of the server over runs

Whatever requests come and however their steps mix, the tables fit together and the files they list
are stored (`tables_consistent`). Every request relies on what it has seen: an upload on its files,
a new share link on its package. The others only add to that.
-/

namespace Updown.Web

open FilePath (Name)
open Transition

/-! ## The tables -/

namespace AppState

/-- The file is in the directory of an upload, under a safe name. -/
def Stored (app : AppState) (id : String) (name : Name) : Prop :=
  (∃ raw, sanitizeFilename raw = some name) ∧
    ∃ dir, app.storage id = some dir ∧ (dir name).isSome

/-- The tables fit together: keys are keys, a link has its package, a transfer has the package it is
of and is pending, and the files of a package are stored. -/
structure TablesOk (app : AppState) : Prop where
  packageIds : (app.db.packages.map Package.id).Nodup
  transferIds : (app.db.transfers.map Transfer.id).Nodup
  linkIds : (app.db.shareLinks.map ShareLink.id).Nodup
  codes : (app.db.shareLinks.map ShareLink.code).Nodup
  linked : ∀ link ∈ app.db.shareLinks, ∃ pkg ∈ app.db.packages, pkg.id = link.packageId
  uncounted : ∀ link ∈ app.db.shareLinks,
    link.downloadCount = 0 ∧ ∀ m ∈ link.maxDownloads, 0 < m
  pending : ∀ row ∈ app.db.transfers, row.status = "pending"
  recorded : ∀ row ∈ app.db.transfers, ∃ pkg ∈ app.db.packages,
    row.filename ∈ pkg.files ∧ row.fileSize = pkg.totalSize
  stored : ∀ pkg ∈ app.db.packages, ∀ name ∈ pkg.files, app.Stored pkg.name name

/-- Packages and stored files stay. -/
structure Grows (app app' : AppState) : Prop where
  packages : ∀ pkg ∈ app.db.packages, pkg ∈ app'.db.packages
  storage : ∀ id dir, app.storage id = some dir →
    ∃ dir', app'.storage id = some dir' ∧ ∀ name, (dir name).isSome → (dir' name).isSome

variable {app app' : AppState}

theorem Stored.mono {id : String} {name : Name} (h : app.Stored id name) (hg : app.Grows app') :
    app'.Stored id name := by
  obtain ⟨hsafe, dir, hdir, hname⟩ := h
  obtain ⟨dir', hdir', hkept⟩ := hg.storage id dir hdir
  exact ⟨hsafe, dir', hdir', hkept name hname⟩

theorem grows_of_packages (hpackages : ∀ pkg ∈ app.db.packages, pkg ∈ app'.db.packages)
    (hstorage : app'.storage = app.storage) : app.Grows app' :=
  ⟨hpackages, fun _ dir hdir => ⟨dir, hstorage ▸ hdir, fun _ hname => hname⟩⟩

theorem Grows.trans {app'' : AppState} (h : app.Grows app') (h' : app'.Grows app'') :
    app.Grows app'' where
  packages pkg hpkg := h'.packages pkg (h.packages pkg hpkg)
  storage id dir hdir := by
    obtain ⟨dir', hdir', hkept⟩ := h.storage id dir hdir
    obtain ⟨dir'', hdir'', hkept'⟩ := h'.storage id dir' hdir'
    exact ⟨dir'', hdir'', fun name hname => hkept' name (hkept name hname)⟩

/-- A change of the storage that leaves the tables. -/
theorem TablesOk.of_storage (h : app.TablesOk) (hdb : app'.db = app.db) (hg : app.Grows app') :
    app'.TablesOk := by
  refine ⟨?_, ?_, ?_, ?_, ?_, ?_, ?_, ?_, ?_⟩
  · rw [hdb]; exact h.packageIds
  · rw [hdb]; exact h.transferIds
  · rw [hdb]; exact h.linkIds
  · rw [hdb]; exact h.codes
  · rw [hdb]; exact h.linked
  · rw [hdb]; exact h.uncounted
  · rw [hdb]; exact h.pending
  · rw [hdb]; exact h.recorded
  · rw [hdb]
    exact fun pkg hpkg name hname => (h.stored pkg hpkg name hname).mono hg

/-- A new package whose files are stored. -/
theorem TablesOk.createPackage (h : app.TablesOk) {i : Insertion}
    {name description createdBy id : String} {files : List Name} {totalSize : ℕ} {db : Database}
    (hcreate : app.db.createPackage i name description files totalSize createdBy = some (db, id))
    (hstored : ∀ file ∈ files, app.Stored name file) :
    TablesOk { app with db := db } ∧ app.Grows { app with db := db } ∧
      ∃ pkg ∈ db.packages, pkg.name = name ∧ pkg.files = files ∧ pkg.totalSize = totalSize := by
  obtain ⟨-, hfree, hlinks, htransfers, hpackages⟩ := Database.createPackage_eq_some hcreate
  have hold : ∀ pkg ∈ app.db.packages, pkg ∈ db.packages := by
    intro pkg hpkg
    rw [hpackages]
    exact List.mem_append_left _ hpkg
  have hg : app.Grows { app with db := db } := grows_of_packages hold rfl
  refine ⟨⟨?_, ?_, ?_, ?_, ?_, ?_, ?_, ?_, ?_⟩, hg, ?_⟩
  · show (db.packages.map Package.id).Nodup
    rw [hpackages]
    -- the lookup before the insertion has found no row of this id
    refine nodup_snoc h.packageIds fun pkg hpkg heq => ?_
    exact absurd (beq_iff_eq.mpr heq) (List.find?_eq_none.mp hfree pkg hpkg)
  · show (db.transfers.map Transfer.id).Nodup
    rw [htransfers]
    exact h.transferIds
  · show (db.shareLinks.map ShareLink.id).Nodup
    rw [hlinks]
    exact h.linkIds
  · show (db.shareLinks.map ShareLink.code).Nodup
    rw [hlinks]
    exact h.codes
  · show ∀ link ∈ db.shareLinks, ∃ pkg ∈ db.packages, pkg.id = link.packageId
    rw [hlinks]
    intro link hlink
    obtain ⟨pkg, hpkg, hid⟩ := h.linked link hlink
    exact ⟨pkg, hold pkg hpkg, hid⟩
  · show ∀ link ∈ db.shareLinks, _
    rw [hlinks]
    exact h.uncounted
  · show ∀ row ∈ db.transfers, _
    rw [htransfers]
    exact h.pending
  · show ∀ row ∈ db.transfers, ∃ pkg ∈ db.packages, _
    rw [htransfers]
    intro row hrow
    obtain ⟨pkg, hpkg, hof⟩ := h.recorded row hrow
    exact ⟨pkg, hold pkg hpkg, hof⟩
  · show ∀ pkg ∈ db.packages, _
    rw [hpackages]
    intro pkg hpkg file hfile
    -- the files of the new package were stored before it is recorded
    rcases List.mem_append.mp hpkg with hpkg | hpkg
    · exact (h.stored pkg hpkg file hfile).mono hg
    · obtain rfl := List.mem_singleton.mp hpkg
      exact (hstored file hfile).mono hg
  · rw [hpackages]
    exact ⟨_, List.mem_append_right _ (List.mem_singleton_self _), rfl, rfl, rfl⟩

/-- A transfer of a file of a package. -/
theorem TablesOk.createTransfer (h : app.TablesOk) {i : Insertion} {filename : Name}
    {fileSize : ℕ} {direction peer id : String} {db : Database}
    (hcreate : app.db.createTransfer i filename fileSize direction peer = some (db, id))
    (hof : ∃ pkg ∈ app.db.packages, filename ∈ pkg.files ∧ fileSize = pkg.totalSize) :
    TablesOk { app with db := db } ∧ app.Grows { app with db := db } := by
  rcases app.db.createTransfer_cases i filename fileSize direction peer with
    ⟨-, hfree, hrow⟩ | ⟨-, hrow⟩
  · obtain ⟨rfl, -⟩ := Prod.mk.inj (Option.some.inj (hrow.symm.trans hcreate))
    refine ⟨⟨h.packageIds, nodup_snoc h.transferIds hfree, h.linkIds, h.codes, h.linked,
      h.uncounted, ?_, ?_, h.stored⟩, grows_of_packages (fun _ hpkg => hpkg) rfl⟩
    · exact List.forall_mem_append.mpr ⟨h.pending, List.forall_mem_singleton.mpr rfl⟩
    · exact List.forall_mem_append.mpr ⟨h.recorded, List.forall_mem_singleton.mpr hof⟩
  · cases hrow.symm.trans hcreate

/-- A link to a package. -/
theorem TablesOk.createShareLink (h : app.TablesOk) {i : Insertion} {randomBytes : Vector UInt8 18}
    {packageId createdBy code : String} {maxDownloads : Option ℤ} {expiresAt : Option String}
    {db : Database}
    (hcreate : app.db.createShareLink i randomBytes packageId createdBy maxDownloads expiresAt
      = some (db, code))
    (hpackage : ∃ pkg ∈ app.db.packages, pkg.id = packageId)
    (hlimit : ∀ m ∈ maxDownloads, 0 < m) :
    TablesOk { app with db := db } ∧ app.Grows { app with db := db } := by
  unfold Database.createShareLink Database.insert at hcreate
  dsimp only at hcreate
  split at hcreate
  · split at hcreate
    · cases hcreate
    · next hfree =>
        obtain ⟨rfl, -⟩ := Prod.mk.inj (Option.some.inj hcreate)
        have hclash : ∀ link ∈ app.db.shareLinks,
            link.id ≠ i.id ∧ link.code ≠ Database.shareCode randomBytes := by
          intro link hlink
          by_contra hsame
          refine hfree (List.any_eq_true.mpr ⟨link, hlink, ?_⟩)
          rw [Bool.or_eq_true, beq_iff_eq, beq_iff_eq]
          by_contra hne
          rw [not_or] at hne
          exact hsame ⟨fun heq => hne.1 heq.symm, fun heq => hne.2 heq.symm⟩
        refine ⟨⟨h.packageIds, h.transferIds, nodup_snoc h.linkIds fun link hlink =>
            (hclash link hlink).1, nodup_snoc h.codes fun link hlink => (hclash link hlink).2,
          ?_, ?_, h.pending, h.recorded, h.stored⟩, grows_of_packages (fun _ hpkg => hpkg) rfl⟩
        · exact List.forall_mem_append.mpr ⟨h.linked, List.forall_mem_singleton.mpr hpackage⟩
        · exact List.forall_mem_append.mpr
            ⟨h.uncounted, List.forall_mem_singleton.mpr ⟨rfl, hlimit⟩⟩
  · cases hcreate

end AppState

/-! ## Requests in flight -/

/-- What a request in flight relies on. -/
def InFlight.Ok (app : AppState) : InFlight → Prop
  | .fields pkgId _ _ files _ => ∀ file ∈ files, app.Stored pkgId file
  | .recording pkgId rest files totalSize => (∀ file ∈ rest, file ∈ files) ∧
      ∃ pkg ∈ app.db.packages, pkg.name = pkgId ∧ pkg.files = files ∧ pkg.totalSize = totalSize
  | .link req _ => (∃ pkg ∈ app.db.packages, pkg.id = req.packageId) ∧
      ∀ m ∈ req.maxDownloads, 0 < m

/-- What others do in between does not take it away. -/
theorem InFlight.Ok.mono {app app' : AppState} {flight : InFlight} (h : flight.Ok app)
    (hg : app.Grows app') : flight.Ok app' := by
  cases flight with
  | fields pkgId created rest files totalSize => exact fun file hfile => (h file hfile).mono hg
  | recording pkgId rest files totalSize =>
      obtain ⟨hrest, pkg, hpkg, hof⟩ := h
      exact ⟨hrest, pkg, hg.packages pkg hpkg, hof⟩
  | link req expires =>
      obtain ⟨⟨pkg, hpkg, hid⟩, hlimit⟩ := h
      exact ⟨⟨pkg, hg.packages pkg hpkg, hid⟩, hlimit⟩

namespace Server

/-- The invariant of the server. -/
structure Consistent (s : Server) : Prop where
  tables : s.app.TablesOk
  flights : ∀ p flight, s.inFlight p = some flight → flight.Ok s.app

variable {s s' : Server} {p : ℕ}

@[simp] theorem setFlight_inFlight (s : Server) (flight : Option InFlight) :
    (s.setFlight p flight).inFlight = Function.update s.inFlight p flight := rfl

theorem consistent_start (host : String) : Consistent (start host) where
  tables := by
    refine ⟨?_, ?_, ?_, ?_, ?_, ?_, ?_, ?_, ?_⟩ <;> simp [start]
  flights := by
    intro p flight h
    cases h

theorem Consistent.reply (h : Consistent s) (answer : Except ApiError Answer) :
    Consistent (s.reply p answer) := ⟨h.tables, h.flights⟩

theorem Consistent.setFlight (h : Consistent s) {flight : Option InFlight}
    (hok : ∀ f ∈ flight, f.Ok s.app) : Consistent (s.setFlight p flight) := by
  refine ⟨h.tables, fun q f hq => ?_⟩
  by_cases heq : q = p
  · rw [setFlight_inFlight, heq, Function.update_self] at hq
    exact hok f hq
  · rw [setFlight_inFlight, Function.update_of_ne heq] at hq
    exact h.flights q f hq

theorem Consistent.finish (h : Consistent s) (answer : Except ApiError Answer) :
    Consistent (s.finish p answer) :=
  (h.setFlight fun _ hf => by cases hf).reply answer

theorem Consistent.setApp (h : Consistent s) {app : AppState} (ht : app.TablesOk)
    (hg : s.app.Grows app) : Consistent (s.setApp app) :=
  ⟨ht, fun q flight hq => (h.flights q flight hq).mono hg⟩

/-- The limiter is no part of the tables. -/
theorem Consistent.setLimiter (h : Consistent s) (limiter : RateLimiter) :
    Consistent (s.setApp { s.app with rateLimiter := limiter }) := by
  have hg : s.app.Grows { s.app with rateLimiter := limiter } :=
    AppState.grows_of_packages (fun _ hpkg => hpkg) rfl
  exact h.setApp (h.tables.of_storage rfl hg) hg

/-- A directory to which files are added. -/
theorem grows_setStorage {pkgId : String} {dir : Dir}
    (hkept : ∀ old, s.app.storage pkgId = some old →
      ∀ name, (old name).isSome → (dir name).isSome) :
    s.app.Grows (s.setStorage pkgId dir).app := by
  refine ⟨fun _ hpkg => hpkg, fun id old hold => ?_⟩
  by_cases heq : id = pkgId
  · subst heq
    exact ⟨dir, Function.update_self _ _ _, hkept old hold⟩
  · exact ⟨old, (Function.update_of_ne heq _ _).trans hold, fun _ hname => hname⟩

theorem Consistent.setStorage (h : Consistent s) {pkgId : String} {dir : Dir}
    (hg : s.app.Grows (s.setStorage pkgId dir).app) : Consistent (s.setStorage pkgId dir) :=
  h.setApp (h.tables.of_storage rfl hg) hg

/-- The directory of an upload, which may be there already. -/
theorem grows_createDir (s : Server) (pkgId : String) :
    s.app.Grows (s.setStorage pkgId ((s.app.storage pkgId).getD fun _ => none)).app := by
  refine grows_setStorage fun old hold name hname => ?_
  rwa [hold, Option.getD_some]

/-- One more file, or one that is written anew. -/
theorem grows_writeFile (s : Server) (pkgId : String) (name : Name) (data : Bytes) :
    s.app.Grows (s.setStorage pkgId
      (Function.update ((s.app.storage pkgId).getD fun _ => none) name (some data))).app := by
  refine grows_setStorage fun old hold other hother => ?_
  rw [hold, Option.getD_some]
  by_cases heq : other = name
  · rw [heq, Function.update_self]
    rfl
  · rwa [Function.update_of_ne heq]

/-! ## Every step keeps the tables -/

theorem Consistent.beginUpload (h : Consistent s) (now : ℕ) (pkgId : String) (dir : DirOutcome)
    (multipart : Multipart) : Consistent (s.beginUpload p now pkgId dir multipart) := by
  have hlimiter := h.setLimiter
    (s.app.rateLimiter.check now "upload" "global" RATE_LIMIT_UPLOAD_MAX).1
  have hnone : ∀ app : AppState,
      ∀ f ∈ some (InFlight.fields pkgId (dir == .created) multipart [] 0), f.Ok app := by
    intro app f hf
    obtain rfl := Option.some.inj hf
    exact fun file hfile => absurd hfile List.not_mem_nil
  unfold Server.beginUpload
  dsimp only
  split
  · exact hlimiter.reply _
  · cases dir with
    | missing inside =>
        cases inside with
        | false => exact hlimiter.reply _
        | true => exact hlimiter.setFlight (hnone _)
    | created => exact (hlimiter.setStorage (grows_createDir _ pkgId)).setFlight (hnone _)

theorem Consistent.handle (h : Consistent s) (parse : String → Option ℤ) (headers : Request)
    (call : Call) : Consistent (s.handle parse p headers call) := by
  cases call with
  | health | shareInfo | logout | me | transfers | packages | package | agentTransfer =>
      exact h.reply _
  | login executed apiKey =>
      rw [Server.handle]
      split
      · exact ⟨h.tables, h.flights⟩
      · exact h.reply _
  | createPackage i lookup req =>
      rw [Server.handle]
      refine Consistent.reply ?_ _
      rcases createPackage_cases s.app i lookup req with hsame | ⟨db, id, hcreate, hnew⟩
      · rw [hsame]
        exact h
      · rw [hnew]
        obtain ⟨ht, hg, -⟩ := h.tables.createPackage hcreate fun _ hfile =>
          absurd hfile List.not_mem_nil
        exact h.setApp ht hg
  | upload now pkgId dir multipart => exact h.beginUpload now pkgId dir multipart
  | share now lookup hoursFromNow req =>
      obtain ⟨limiter, hframe⟩ := checkShare_frame s.app now lookup req
      rw [Server.handle]
      cases hcheck : checkShare s.app now lookup req with
      | mk app res =>
          rw [hcheck] at hframe
          obtain rfl := hframe
          cases res with
          | error e => exact (h.setLimiter limiter).reply _
          | ok =>
              have hok : (checkShare s.app now lookup req).2 = .ok () := by rw [hcheck]
              have hlink := checkShare_ok hok
              refine (h.setLimiter limiter).setFlight fun f hf => ?_
              obtain rfl := Option.some.inj hf
              exact hlink

theorem Consistent.stepField (h : Consistent s) {write : WriteOutcome}
    (hs : s.stepField p write = some s') : Consistent s' := by
  unfold Server.stepField at hs
  split at hs
  · next pkgId field rest files totalSize hflight =>
      have hfiles := h.flights p _ hflight
      rcases storeField_cases write field ((s.app.storage pkgId).getD fun _ => none) files
          totalSize with ⟨e, hout⟩ | ⟨name, data, e, -, hout⟩ | ⟨name, data, hname, -, -, hout⟩
      · rw [hout] at hs
        obtain rfl := Option.some.inj hs
        exact (h.setStorage (grows_createDir s pkgId)).finish _
      · rw [hout] at hs
        obtain rfl := Option.some.inj hs
        exact (h.setStorage (grows_writeFile s pkgId name data)).finish _
      · rw [hout] at hs
        obtain rfl := Option.some.inj hs
        have hgrows := grows_writeFile s pkgId name data
        refine (h.setStorage hgrows).setFlight fun f hf => ?_
        obtain rfl := Option.some.inj hf
        refine List.forall_mem_append.mpr ⟨fun file hfile => (hfiles file hfile).mono hgrows,
          List.forall_mem_singleton.mpr ⟨⟨_, hname⟩, _, Function.update_self _ _ _, ?_⟩⟩
        rw [Function.update_self]
        rfl
  · split at hs
    · obtain rfl := Option.some.inj hs
      exact h.finish _
    · cases hs
  · cases hs

/-- The package of an upload is recorded when all its files are stored. -/
theorem Consistent.recordPackage (h : Consistent s) {pkgId id : String} {files : List Name}
    {totalSize : ℕ} {i : Insertion} {db : Database}
    (hcreate : s.app.db.createPackage i pkgId "" files totalSize "upload" = some (db, id))
    (hfiles : ∀ file ∈ files, s.app.Stored pkgId file) :
    Consistent ((s.setDb db).setFlight p (some (.recording pkgId files files totalSize))) := by
  obtain ⟨ht, hg, pkg, hpkg, hof⟩ := h.tables.createPackage hcreate hfiles
  refine (h.setApp ht hg).setFlight fun f hf => ?_
  obtain rfl := Option.some.inj hf
  exact ⟨fun _ hfile => hfile, pkg, hpkg, hof⟩

theorem Consistent.stepRecord (h : Consistent s) {i : Insertion}
    (hs : s.stepRecord p i = some s') : Consistent s' := by
  unfold Server.stepRecord at hs
  split at hs
  · next pkgId created files totalSize hflight =>
      split at hs
      · obtain rfl := Option.some.inj hs
        exact h.finish _
      · split at hs
        · obtain rfl := Option.some.inj hs
          exact h.finish _
        · next hcreate =>
            obtain rfl := Option.some.inj hs
            exact h.recordPackage hcreate (h.flights p _ hflight)
  · next pkgId created rest files totalSize hflight =>
      split at hs
      · obtain rfl := Option.some.inj hs
        exact h.finish _
      · split at hs
        · obtain rfl := Option.some.inj hs
          exact h.finish _
        · next hcreate =>
            obtain rfl := Option.some.inj hs
            exact h.recordPackage hcreate (h.flights p _ hflight)
  · next pkgId file rest files totalSize hflight =>
      obtain ⟨hrest, pkg, hpkg, hname, hfiles, htotal⟩ := h.flights p _ hflight
      -- whatever becomes of the row, the package stays and the next file is up
      have hnext : ∀ app : AppState, s.app.Grows app →
          ∀ f ∈ some (InFlight.recording pkgId rest files totalSize), f.Ok app := by
        intro app hg f hf
        obtain rfl := Option.some.inj hf
        exact ⟨fun other hother => hrest other (List.mem_cons_of_mem _ hother), pkg,
          hg.packages pkg hpkg, hname, hfiles, htotal⟩
      split at hs
      · obtain rfl := Option.some.inj hs
        exact h.setFlight (hnext _ (AppState.grows_of_packages (fun _ hpkg => hpkg) rfl))
      · next hcreate =>
          obtain rfl := Option.some.inj hs
          obtain ⟨ht, hg⟩ := h.tables.createTransfer hcreate
            ⟨pkg, hpkg, hfiles ▸ hrest file List.mem_cons_self, htotal.symm⟩
          exact (h.setApp ht hg).setFlight (hnext _ hg)
  · obtain rfl := Option.some.inj hs
    exact h.finish _
  · cases hs

theorem Consistent.stepLink (h : Consistent s) {i : Insertion} {randomBytes : Vector UInt8 18}
    (hs : s.stepLink p i randomBytes = some s') : Consistent s' := by
  unfold Server.stepLink at hs
  split at hs
  · next req expires hflight =>
      obtain ⟨hpackage, hlimit⟩ := h.flights p _ hflight
      split at hs
      · obtain rfl := Option.some.inj hs
        exact h.finish _
      · next hcreate =>
          obtain rfl := Option.some.inj hs
          -- the package found before is still there
          obtain ⟨ht, hg⟩ := h.tables.createShareLink hcreate hpackage hlimit
          exact (h.setApp ht hg).finish _
  · cases hs

/-- **Every step keeps the tables.** -/
theorem Consistent.step (h : Consistent s) {parse : String → Option ℤ} {e : Event}
    (hs : s.step parse e = some s') : Consistent s' := by
  cases e with
  | request p headers auth call =>
      simp only [Server.step] at hs
      split at hs
      · cases hs
      · split at hs
        · split at hs
          · obtain rfl := Option.some.inj hs
            exact h.reply _
          · obtain rfl := Option.some.inj hs
            exact h.handle parse headers call
        · obtain rfl := Option.some.inj hs
          exact h.handle parse headers call
  | field p write => exact h.stepField hs
  | record p i => exact h.stepRecord hs
  | link p i randomBytes => exact h.stepLink hs
  | createUser c =>
      obtain rfl := Option.some.inj hs
      exact ⟨h.tables, h.flights⟩

theorem consistent_of_reaches {parse : String → Option ℤ} {P : Server → Event → Prop}
    {host : String} (hrun : Reaches (Server.step parse) P (start host) s) : Consistent s :=
  hrun.invariant (consistent_start host) fun _ _ _ h _ hs => h.step hs

/-- **The tables fit together** in every state that any requests lead to, however their steps mix:
keys are keys, every transfer is pending and of a file of its package, and every share link leads to
a package whose files are all stored under safe names. -/
theorem tables_consistent {parse : String → Option ℤ} {P : Server → Event → Prop} {host : String}
    (hrun : Reaches (Server.step parse) P (start host) s) :
    s.app.TablesOk ∧ ∀ code link, s.app.db.getShareLink code = some link →
      ∃ pkg, s.app.db.getPackage link.packageId = some pkg ∧
        ∀ name ∈ pkg.files, s.app.Stored pkg.name name := by
  have h := (consistent_of_reaches hrun).tables
  refine ⟨h, fun code link hlink => ?_⟩
  obtain ⟨pkg, hpkg, hid⟩ := h.linked link (List.mem_of_find?_eq_some hlink)
  cases hget : s.app.db.getPackage link.packageId with
  | none => exact absurd (beq_iff_eq.mpr hid) (List.find?_eq_none.mp hget pkg hpkg)
  | some found => exact ⟨found, rfl, h.stored found (List.mem_of_find?_eq_some hget)⟩

/-- Ada uploads a file and shares it. -/
def adasRun : List Event :=
  let headers : Request := { authorization := some (some ("Bearer ".toList ++
    (newApiKey Small.nilUuid).toList)), cookie := none }
  [.createUser Small.ada,
    .request 1 headers true (.upload 0 "p" .created
      [some { fileName := some "a.txt".toList, body := some [1, 2] }]),
    .field 1 .written, .record 1 ⟨"id", "t", true⟩, .record 1 ⟨"t1", "t", true⟩,
    .record 1 ⟨"t2", "t", true⟩,
    .request 2 headers true (.share 0 true (fun _ => "") ⟨"id", some 1, none⟩),
    .link 2 ⟨"l", "t", true⟩ (Vector.replicate 18 0)]

theorem tables_consistent_ada : ∃ s : Server, (s.app.TablesOk ∧
    ∀ code link, s.app.db.getShareLink code = some link →
      ∃ pkg, s.app.db.getPackage link.packageId = some pkg ∧
        ∀ name ∈ pkg.files, s.app.Stored pkg.name name) ∧
    (s.app.db.shareLinks.length == 1 && s.app.db.transfers.length == 1
      && s.answers.length == 2) = true := by
  obtain ⟨s, hrun, hlinks⟩ := exists_of_runAll (step fun _ => none) (start "host") adasRun
    (fun s : Server => s.app.db.shareLinks.length == 1 && s.app.db.transfers.length == 1
      && s.answers.length == 2) (by decide +kernel)
  exact ⟨s, tables_consistent (Reaches.of_runAll (P := fun _ _ => True) hrun
    (allowedAlong_of_forall fun _ _ _ => trivial)), hlinks⟩

end Server

end Updown.Web
