import Updown.Web.Packages

set_option autoImplicit false

/-! # What an upload leaves on the server

The files of an upload are written one by one under their sanitized names, and the names and the
total size are all that the loop hands on. `keepsEveryFile_iff` says when everything that was sent
is kept; `failedUpload_of_error` says what an upload that fails leaves behind.
-/

namespace Updown.Web

open FilePath (Name)

/-- The name under which a field is stored. -/
def Field.safeName (field : Field) : Option Name :=
  sanitizeFilename (field.fileName.getD "unknown".toList)

/-! ## The directory -/

/-- The files of the fields `done`, written one after the other. -/
def Dir.withFields (dir : Dir) (done : List Field) : Dir :=
  done.foldl (fun dir field => (field.safeName.map fun name =>
    Function.update dir name field.body).getD dir) dir

theorem Dir.withFields_cons {dir : Dir} {field : Field} {name : Name} {data : Bytes}
    (hname : field.safeName = some name) (hbody : field.body = some data) (done : List Field) :
    dir.withFields (field :: done) = Dir.withFields (Function.update dir name (some data)) done := by
  rw [withFields, List.foldl_cons, hname, hbody]
  rfl

/-- What is left of the form when the loop ends in `dir`, and how it ends there: at the first field
that is not stored, or without an error when no field is left. -/
inductive EndsAt (write : WriteOutcome) (dir : Dir) (files : List Name) (totalSize : ℕ) :
    Multipart → Dir × Except ApiError (List Name × ℕ) → Prop
  | field (field : Field) (fields : Multipart) (dir' : Dir) (e : ApiError)
      (hfails : storeField write field dir files totalSize = (dir', .error e)) :
      EndsAt write dir files totalSize (some field :: fields) (dir', .error e)
  | formEnds (rest : Multipart) (hrest : ∀ field ∈ rest.head?, field = none) :
      EndsAt write dir files totalSize rest (dir, .ok (files, totalSize))

/-- The field that ends the loop leaves the directory alone, or the beginning of its own file. -/
theorem storeField_error {write : WriteOutcome} {field : Field} {dir dir' : Dir} {files : List Name}
    {totalSize : ℕ} {e : ApiError}
    (h : storeField write field dir files totalSize = (dir', .error e)) :
    dir' = dir ∨ ∃ name data n, field.safeName = some name ∧ field.body = some data ∧
      write = .torn n ∧ dir' = Function.update dir name (some (data.take n)) := by
  rw [storeField] at h
  cases hname : sanitizeFilename (field.fileName.getD "unknown".toList) with
  | none =>
      rw [hname] at h
      exact Or.inl (Prod.mk.inj h).1.symm
  | some name =>
      rw [hname] at h
      cases hbody : field.body with
      | none =>
          rw [hbody] at h
          exact Or.inl (Prod.mk.inj h).1.symm
      | some data =>
          rw [hbody] at h
          dsimp only at h
          split at h
          · exact Or.inl (Prod.mk.inj h).1.symm
          · split at h
            · exact Or.inl (Prod.mk.inj h).1.symm
            · cases write with
              | refused => exact Or.inl (Prod.mk.inj h).1.symm
              | torn n => exact Or.inr ⟨name, data, n, hname, rfl, rfl, (Prod.mk.inj h).1.symm⟩
              | written => cases (Prod.mk.inj h).2

/-- **The loop over the fields**, however it ends, stores the fields up to where it ends. -/
theorem storeFields_ends (write : ℕ → WriteOutcome) (multipart : Multipart) :
    ∀ (i : ℕ) (dir : Dir) (files : List Name) (totalSize : ℕ),
      ∃ done rest files' totalSize', multipart = done.map some ++ rest ∧
        storeFields write (done.map some) i dir files totalSize
          = (dir.withFields done, .ok (files', totalSize')) ∧
        EndsAt (write (i + done.length)) (dir.withFields done) files' totalSize' rest
          (storeFields write multipart i dir files totalSize) := by
  induction multipart with
  | nil =>
      exact fun i dir files totalSize =>
        ⟨[], [], files, totalSize, rfl, rfl, .formEnds [] fun _ h => by cases h⟩
  | cons entry fields ih =>
      intro i dir files totalSize
      cases entry with
      | none =>
          exact ⟨[], none :: fields, files, totalSize, rfl, rfl,
            .formEnds _ fun field h => (Option.some.inj h).symm⟩
      | some field =>
          rw [storeFields_eq_storeField]
          rcases storeField_cases (write i) field dir files totalSize with
            ⟨e, hout⟩ | ⟨name, data, e, -, hout⟩ | ⟨name, data, hname, hbody, -, hout⟩
          · rw [hout]
            exact ⟨[], some field :: fields, files, totalSize, rfl, rfl,
              .field field fields _ e hout⟩
          · rw [hout]
            exact ⟨[], some field :: fields, files, totalSize, rfl, rfl,
              .field field fields _ e hout⟩
          · obtain ⟨done, rest, files', totalSize', hform, hthrough, hends⟩ := ih (i + 1)
              (Function.update dir name (some data)) (files ++ [name]) (totalSize + data.length)
            refine ⟨field :: done, rest, files', totalSize', by rw [hform]; rfl, ?_, ?_⟩
            · rw [List.map_cons, storeFields_eq_storeField, hout,
                Dir.withFields_cons hname hbody]
              exact hthrough
            · rw [hout, Dir.withFields_cons hname hbody, List.length_cons,
                show i + (done.length + 1) = i + 1 + done.length by omega]
              exact hends

/-! ## The names -/

theorem names_append (done : List Field) (rest : Multipart) :
    Multipart.names (done.map some ++ rest)
      = done.flatMap (fun field => field.safeName.toList) ++ rest.names := by
  induction done with
  | nil => rfl
  | cons field done ih =>
      calc Multipart.names (some field :: (done.map some ++ rest))
          = field.safeName.toList ++ Multipart.names (done.map some ++ rest) := rfl
        _ = (field :: done).flatMap (fun field => field.safeName.toList) ++ rest.names := by
              rw [ih, List.flatMap_cons, List.append_assoc]

theorem Dir.withFields_of_notMem {done : List Field} {name : Name} :
    ∀ {dir : Dir}, name ∉ done.flatMap (fun field => field.safeName.toList) →
      dir.withFields done name = dir name := by
  induction done with
  | nil => exact fun _ => rfl
  | cons field done ih =>
      intro dir hname
      rw [List.flatMap_cons, List.mem_append, not_or] at hname
      rw [withFields, List.foldl_cons, ← withFields, ih hname.2]
      cases hsafe : field.safeName with
      | none => rfl
      | some safe =>
          rw [hsafe] at hname
          exact Function.update_of_ne (by simpa using hname.1) _ _

/-- A file whose name the form does not have is not touched. -/
theorem storeFields_frame {write : ℕ → WriteOutcome} {multipart : Multipart} {i : ℕ}
    {dir dir' : Dir} {files : List Name} {totalSize : ℕ} {res : Except ApiError (List Name × ℕ)}
    (h : storeFields write multipart i dir files totalSize = (dir', res)) {name : Name}
    (hname : name ∉ multipart.names) : dir' name = dir name := by
  obtain ⟨done, rest, files', totalSize', hform, -, hends⟩ :=
    storeFields_ends write multipart i dir files totalSize
  rw [hform, names_append, List.mem_append, not_or] at hname
  rw [h] at hends
  have hdone : dir.withFields done name = dir name := Dir.withFields_of_notMem hname.1
  cases hends with
  | formEnds => exact hdone
  | field field fields _ e hfails =>
      rcases storeField_error hfails with rfl | ⟨safe, data, n, hsafe, -, -, rfl⟩
      · exact hdone
      · have hne : name ≠ safe := by
          rintro rfl
          refine hname.2 ?_
          rw [Multipart.names, ← Field.safeName, hsafe]
          exact List.mem_cons_self
        rw [Function.update_of_ne hne, hdone]

/-- The field is stored in `dir` under `name`. -/
def StoredAs (dir : Dir) (field : Field) (name : Name) : Prop :=
  ∃ data, field.body = some data ∧ dir name = some data

/-- **A loop that ends well stores every field under its name**, if the names are distinct. -/
theorem storeFields_stored {write : ℕ → WriteOutcome} (fields : List Field) :
    ∀ {i : ℕ} {dir dir' : Dir} {files : List Name} {totalSize : ℕ} {res : List Name × ℕ},
      storeFields write (fields.map some) i dir files totalSize = (dir', .ok res) →
      (Multipart.names (fields.map some)).Nodup →
      List.Forall₂ (StoredAs dir') fields (Multipart.names (fields.map some)) := by
  induction fields with
  | nil =>
      intro i dir dir' files totalSize res h hnodup
      exact List.Forall₂.nil
  | cons field fields ih =>
      intro i dir dir' files totalSize res h hnodup
      obtain ⟨name, data, hname, hbody, -, hrest⟩ := storeFields_cons_ok h
      have hnames : Multipart.names ((field :: fields).map some)
          = name :: Multipart.names (fields.map some) := by
        rw [List.map_cons, Multipart.names, hname]
        rfl
      rw [hnames] at hnodup ⊢
      obtain ⟨hfresh, hnodup⟩ := List.nodup_cons.mp hnodup
      -- no later field has the name, so the file stays as it was written
      refine List.Forall₂.cons ⟨data, hbody, ?_⟩ (ih hrest hnodup)
      rw [storeFields_frame hrest hfresh]
      exact Function.update_self _ _ _

/-! ## The transfers -/

/-- The insertion of the `i`-th transfer goes through: the statement can be executed, and its
identifier is neither in the table nor that of a transfer before it. -/
def Inserted (db : Database) (transfer : ℕ → Insertion) (i : ℕ) : Prop :=
  (transfer i).executed = true ∧ (∀ row ∈ db.transfers, row.id ≠ (transfer i).id) ∧
    ∀ j < i, (transfer j).executed = true → (transfer j).id ≠ (transfer i).id

/-- The row of a transfer of an upload. -/
def transferRow (insertion : Insertion) (file : Name) (totalSize : ℕ) : Transfer :=
  { id := insertion.id, filename := file, fileSize := totalSize, status := "pending",
    direction := "upload", peer := "web", createdAt := insertion.now }

theorem recordTransfers_succ (insertion : ℕ → Insertion) (totalSize : ℕ) (files : List Name) :
    ∀ (i : ℕ) (db : Database), recordTransfers insertion totalSize files (i + 1) db
      = recordTransfers (fun n => insertion (n + 1)) totalSize files i db := by
  induction files with
  | nil => exact fun i db => rfl
  | cons file files ih =>
      intro i db
      rw [recordTransfers, recordTransfers]
      cases db.createTransfer (insertion (i + 1)) file totalSize "upload" "web" with
      | none => exact ih (i + 1) db
      | some res => exact ih (i + 1) res.1

/-- After the first transfer has been tried, the others go through as before. -/
theorem inserted_succ_iff {db db' : Database} {transfer : ℕ → Insertion} (j : ℕ)
    (hdb' : ∀ id, (∀ row ∈ db'.transfers, row.id ≠ id) ↔ (∀ row ∈ db.transfers, row.id ≠ id) ∧
      ((transfer 0).executed = true → (transfer 0).id ≠ id)) :
    Inserted db' (fun n => transfer (n + 1)) j ↔ Inserted db transfer (j + 1) := by
  unfold Inserted
  rw [hdb']
  constructor
  · rintro ⟨hexec, ⟨hfree, hfirst⟩, hearlier⟩
    refine ⟨hexec, hfree, fun k hk => ?_⟩
    cases k with
    | zero => exact hfirst
    | succ k => exact hearlier k (Nat.lt_of_succ_lt_succ hk)
  · rintro ⟨hexec, hfree, hearlier⟩
    exact ⟨hexec, ⟨hfree, hearlier 0 (Nat.succ_pos j)⟩,
      fun k hk => hearlier (k + 1) (Nat.succ_lt_succ hk)⟩

/-- An entry of a list with one more at its head, with its position. -/
theorem exists_getElem?_cons {α : Type} {P : ℕ → α → Prop} {x : α} {xs : List α} :
    (∃ i y, (x :: xs)[i]? = some y ∧ P i y) ↔ P 0 x ∨ ∃ i y, xs[i]? = some y ∧ P (i + 1) y := by
  constructor
  · rintro ⟨i, y, hy, hP⟩
    cases i with
    | zero =>
        obtain rfl := Option.some.inj hy
        exact Or.inl hP
    | succ i => exact Or.inr ⟨i, y, hy, hP⟩
  · rintro (hP | ⟨i, y, hy, hP⟩)
    · exact ⟨0, x, rfl, hP⟩
    · exact ⟨i + 1, y, hy, hP⟩

/-- **The rows of the transfers**: those that were there, and one for each file whose insertion goes
through. -/
theorem mem_recordTransfers (totalSize : ℕ) (files : List Name) (row : Transfer) :
    ∀ (transfer : ℕ → Insertion) (db : Database),
      row ∈ (recordTransfers transfer totalSize files 0 db).transfers ↔ row ∈ db.transfers ∨
        ∃ i file, files[i]? = some file ∧ Inserted db transfer i ∧
          row = transferRow (transfer i) file totalSize := by
  induction files with
  | nil =>
      intro transfer db
      simp [recordTransfers]
  | cons file files ih =>
      intro transfer db
      rw [recordTransfers, exists_getElem?_cons]
      rcases db.createTransfer_cases (transfer 0) file totalSize "upload" "web" with
        ⟨hexec, hfree, hcreate⟩ | ⟨htaken, hcreate⟩
      -- the first row is in: later rows must differ from it as well
      · have hfirst : Inserted db transfer 0 := ⟨hexec, hfree, fun j hj => absurd hj (by omega)⟩
        rw [hcreate]
        dsimp only
        rw [recordTransfers_succ, ih, List.mem_append, List.mem_singleton, or_assoc]
        apply or_congr_right
        apply or_congr
        · exact ⟨fun hrow => ⟨hfirst, hrow⟩, fun h => h.2⟩
        · refine exists_congr fun i => exists_congr fun name => and_congr_right fun _ =>
            and_congr_left fun _ => inserted_succ_iff i fun id => ?_
          simp [or_imp, forall_and, hexec]
      · -- what keeps the first out keeps out every later row of its identifier
        have hnot : ¬ Inserted db transfer 0 := fun h => by
          obtain ⟨old, hold, hid⟩ := htaken h.1
          exact h.2.1 old hold hid
        rw [hcreate]
        dsimp only
        rw [recordTransfers_succ, ih]
        apply or_congr_right
        rw [or_iff_right fun h => hnot h.1]
        refine exists_congr fun i => exists_congr fun name => and_congr_right fun _ =>
          and_congr_left fun _ => inserted_succ_iff i fun id => ?_
        constructor
        · intro hfree
          refine ⟨hfree, fun hexec heq => ?_⟩
          obtain ⟨old, hold, hid⟩ := htaken hexec
          exact hfree old hold (hid.trans heq)
        · exact fun h => h.1

/-- A row with the identifier of a transfer that goes through is the row of this transfer. -/
theorem recordTransfers_row {transfer : ℕ → Insertion} {totalSize : ℕ} {files : List Name}
    {db : Database} {row : Transfer} {i : ℕ}
    (hrow : row ∈ (recordTransfers transfer totalSize files 0 db).transfers)
    (hins : Inserted db transfer i) (hid : row.id = (transfer i).id) :
    row.fileSize = totalSize := by
  rcases (mem_recordTransfers totalSize files row transfer db).mp hrow with
    hold | ⟨j, file, -, -, rfl⟩
  · exact absurd hid (hins.2.1 row hold)
  · rfl

/-! ## Uploads that succeed -/

/-- The fields are what the response, the directory and the rows of the transfers say. -/
structure Kept (s : AppState) (env : UploadEnv) (s' : AppState) (resp : UploadResponse)
    (fields : List Field) (dir : Dir) : Prop where
  directory : s'.storage resp.packageId = some dir
  distinct : resp.files.Nodup
  stored : List.Forall₂ (StoredAs dir) fields resp.files
  total : resp.totalSize = (resp.files.map fun name => ((dir name).getD []).length).sum
  recorded : ∀ i name, resp.files[i]? = some name → Inserted s.db env.transfer i →
    ∃ row ∈ s'.db.transfers, row.id = (env.transfer i).id ∧ row.filename = name ∧
      some row.fileSize = (dir name).map List.length

/-- Everything in the form is kept: no entry is an error, and the fields are kept. -/
def KeepsEveryFile (s : AppState) (env : UploadEnv) (multipart : Multipart) (s' : AppState)
    (resp : UploadResponse) : Prop :=
  ∃ fields dir, multipart = fields.map some ∧ Kept s env s' resp fields dir

/-- Without an error the form is a list of fields. -/
theorem exists_fields {multipart : Multipart} (h : none ∉ multipart) :
    ∃ fields : List Field, multipart = fields.map some := by
  induction multipart with
  | nil => exact ⟨[], rfl⟩
  | cons entry multipart ih =>
      rw [List.mem_cons, not_or] at h
      obtain ⟨fields, rfl⟩ := ih h.2
      cases entry with
      | none => exact absurd rfl h.1
      | some field => exact ⟨field :: fields, rfl⟩

theorem sum_stored {dir : Dir} {fields : List Field} {names : List Name}
    (h : List.Forall₂ (StoredAs dir) fields names) :
    (names.map fun name => ((dir name).getD []).length).sum
      = Multipart.size (fields.map some) := by
  induction h with
  | nil => rfl
  | cons hstored hrest ih =>
      obtain ⟨data, hbody, hdir⟩ := hstored
      rw [List.map_cons, List.sum_cons, ih, List.map_cons, Multipart.size, hbody, hdir]

/-- A field and the name at its position belong together. -/
theorem storedAs_of_getElem? {dir : Dir} {fields : List Field} {names : List Name}
    (h : List.Forall₂ (StoredAs dir) fields names) {i : ℕ} {field : Field} {name : Name}
    (hfield : fields[i]? = some field) (hname : names[i]? = some name) :
    StoredAs dir field name := by
  obtain ⟨hi, rfl⟩ := List.getElem?_eq_some_iff.mp hfield
  obtain ⟨hj, rfl⟩ := List.getElem?_eq_some_iff.mp hname
  exact h.get hi hj

section

variable {s s' : AppState} {env : UploadEnv} {resp : UploadResponse} {fields : List Field}
  {dir : Dir} {db : Database} {totalSize : ℕ}

theorem inserted_congr {transfer : ℕ → Insertion} {i : ℕ} (h : db.transfers = s.db.transfers) :
    Inserted s.db transfer i ↔ Inserted db transfer i := by
  rw [Inserted, Inserted, h]

/-- A field that is kept is as long as all together, if the row of its transfer goes through. -/
theorem Kept.length_eq (h : Kept s env s' resp fields dir)
    (hdb : s'.db = recordTransfers env.transfer totalSize resp.files 0 db)
    (htransfers : db.transfers = s.db.transfers) {i : ℕ} {field : Field}
    (hfield : fields[i]? = some field) (hins : Inserted s.db env.transfer i) :
    (field.body.getD []).length = totalSize := by
  have hi : i < resp.files.length := by
    rw [← h.stored.length_eq]
    exact (List.getElem?_eq_some_iff.mp hfield).1
  have hname := List.getElem?_eq_getElem hi
  obtain ⟨data, hbody, hdata⟩ := storedAs_of_getElem? h.stored hfield hname
  -- the row with the right size is the one that was written, with the size of all files
  obtain ⟨row, hrow, hid, -, hsize⟩ := h.recorded i _ hname hins
  rw [hdb] at hrow
  have htotal := recordTransfers_row hrow ((inserted_congr htransfers).mp hins) hid
  rw [hdata, htotal] at hsize
  rw [hbody]
  exact (Option.some.inj hsize).symm

/-- The row of a transfer that goes through has the file's own size, if this is the size of all
files. -/
theorem exists_row (hstored : List.Forall₂ (StoredAs dir) fields resp.files)
    (hdb : s'.db = recordTransfers env.transfer totalSize resp.files 0 db)
    (htransfers : db.transfers = s.db.transfers) {i : ℕ} {name : Name}
    (hsize : ∀ field, fields[i]? = some field → (field.body.getD []).length = totalSize)
    (hname : resp.files[i]? = some name) (hins : Inserted s.db env.transfer i) :
    ∃ row ∈ s'.db.transfers, row.id = (env.transfer i).id ∧ row.filename = name ∧
      some row.fileSize = (dir name).map List.length := by
  have hi : i < fields.length := by
    rw [hstored.length_eq]
    exact (List.getElem?_eq_some_iff.mp hname).1
  have hfield := List.getElem?_eq_getElem hi
  obtain ⟨data, hbody, hdata⟩ := storedAs_of_getElem? hstored hfield hname
  have hlen := hsize _ hfield
  rw [hbody] at hlen
  refine ⟨transferRow (env.transfer i) name totalSize, ?_, rfl, rfl, ?_⟩
  · rw [hdb]
    exact (mem_recordTransfers _ _ _ _ _).mpr
      (Or.inr ⟨i, name, hname, (inserted_congr htransfers).mp hins, rfl⟩)
  · calc some totalSize
        = some data.length := congrArg some hlen.symm
      _ = (dir name).map List.length := by rw [hdata]; rfl

end

/-- **When an upload keeps every file**: if the form does not break off, no two fields have the same
sanitized name, and every file whose transfer is recorded is as long as all files together. -/
theorem keepsEveryFile_iff {s s' : AppState} {env : UploadEnv} {multipart : Multipart}
    {resp : UploadResponse} (h : uploadFiles s env multipart = (s', .ok resp)) :
    KeepsEveryFile s env multipart s' resp ↔
      none ∉ multipart ∧ multipart.names.Nodup ∧
        ∀ i field, multipart[i]? = some (some field) → Inserted s.db env.transfer i →
          (field.body.getD []).length = multipart.size := by
  obtain ⟨dir₀, dir, db, id, hloop, hcreate, hstorage, hdb, rfl⟩ := uploadFiles_ok h
  obtain ⟨-, -, -, htransfers, -⟩ := Database.createPackage_eq_some hcreate
  have hdir : s'.storage env.pkgId = some dir := by
    rw [hstorage]
    exact Function.update_self _ _ _
  constructor
  · rintro ⟨fields, dir', rfl, hkept⟩
    obtain rfl : dir = dir' := Option.some.inj (hdir.symm.trans hkept.directory)
    refine ⟨by simp, hkept.distinct, fun i field hfield hins => ?_⟩
    rw [List.getElem?_map, Option.map_eq_some_iff] at hfield
    obtain ⟨field', hfield, heq⟩ := hfield
    obtain rfl := Option.some.inj heq
    exact hkept.length_eq hdb htransfers hfield hins
  · rintro ⟨hwhole, hnodup, hsizes⟩
    obtain ⟨fields, rfl⟩ := exists_fields hwhole
    have hstored := storeFields_stored fields hloop hnodup
    refine ⟨fields, dir, rfl, hdir, hnodup, hstored, (sum_stored hstored).symm, ?_⟩
    intro i name hname hins
    apply exists_row hstored hdb htransfers _ hname hins
    intro field hfield
    exact hsizes i field (by rw [List.getElem?_map, hfield]; rfl) hins

namespace Small

/-- One file is kept; if the form breaks off after it, the rest is lost and the answer is the
same. -/
theorem keepsEveryFile_iff_form :
    (∃ s', uploadFiles server (uploadEnv "u" "p") form = (s', .ok response) ∧
      KeepsEveryFile server (uploadEnv "u" "p") form s' response) ∧
    ∃ s', uploadFiles server (uploadEnv "u" "p") (form ++ [none]) = (s', .ok response) ∧
      ¬ KeepsEveryFile server (uploadEnv "u" "p") (form ++ [none]) s' response := by
  constructor
  · have hs' : uploadFiles server (uploadEnv "u" "p") form = (_, .ok response) :=
      Prod.ext rfl (by decide +kernel)
    refine ⟨_, hs', (keepsEveryFile_iff hs').mpr ⟨?_, by decide +kernel, ?_⟩⟩
    · simp [form]
    · intro i field hfield hins
      match i with
      | 0 =>
          obtain rfl := Option.some.inj (Option.some.inj hfield)
          rfl
      | i + 1 => cases hfield
  · have hs' : uploadFiles server (uploadEnv "u" "p") (form ++ [none]) = (_, .ok response) :=
      Prod.ext rfl (by decide +kernel)
    refine ⟨_, hs', fun hkeeps => ((keepsEveryFile_iff hs').mp hkeeps).1 ?_⟩
    exact List.mem_append_right _ List.mem_cons_self

/-- Two videos of one name from two directories. -/
def videos : Multipart :=
  [some ⟨some "a/v.mp4".toList, some [1, 2]⟩, some ⟨some "b/v.mp4".toList, some [3]⟩]

/-- **The second file of a name replaces the first**, and the response lists both. -/
theorem videos_not_kept :
    ∃ s' resp, uploadFiles server (uploadEnv "u" "p") videos = (s', .ok resp) ∧
      ¬ KeepsEveryFile server (uploadEnv "u" "p") videos s' resp := by
  have hs' : uploadFiles server (uploadEnv "u" "p") videos = (_, .ok
      { packageId := "u", files := ["v.mp4".toList, "v.mp4".toList], totalSize := 3 }) :=
    Prod.ext rfl (by decide +kernel)
  refine ⟨_, _, hs', ?_⟩
  rintro ⟨fields, dir, -, hkept⟩
  exact absurd hkept.distinct (by decide)

end Small

/-! ## Uploads that fail -/

/-- The request has not changed what the server holds. -/
structure LeavesNoTrace (s s' : AppState) : Prop where
  storage : s'.storage = s.storage
  packages : s'.db.packages = s.db.packages
  transfers : s'.db.transfers = s.db.transfers

/-- Why an upload fails whose loop went through the fields of `done` and stored them in `dir`, and
what it leaves: the next field is not stored, or none is left and the package is not recorded. -/
inductive Failure (s : AppState) (env : UploadEnv) (dir : Dir) (files : List Name)
    (totalSize : ℕ) (done : List Field) : Multipart → Dir → ApiError → Prop
  | field (field : Field) (fields : Multipart) (dir' : Dir) (e : ApiError)
      (hfails : storeField (env.write done.length) field dir files totalSize = (dir', .error e))
      (hleft : dir' = dir ∨ ∃ name data n, field.safeName = some name ∧ field.body = some data ∧
        env.write done.length = .torn n ∧
        dir' = Function.update dir name (some (data.take n))) :
      Failure s env dir files totalSize done (some field :: fields) dir' e
  | record (rest : Multipart) (e : ApiError) (hrest : ∀ field ∈ rest.head?, field = none)
      (hfails : (s.recordUpload env (.ok (files, totalSize))).2 = .error e) :
      Failure s env dir files totalSize done rest dir e

/-- What an upload that fails with `e` may leave: the files of the fields that its loop went
through before, in the directory of its own UUID, and nothing else. -/
structure FailedUpload (s : AppState) (env : UploadEnv) (multipart : Multipart) (s' : AppState)
    (e : ApiError) : Prop where
  db : s'.db = s.db
  host : s'.host = s.host
  others : ∀ id, id ≠ env.pkgId → s'.storage id = s.storage id
  unopened : (s.rateLimiter.check env.now "upload" "global" RATE_LIMIT_UPLOAD_MAX).2 = false ∨
    env.dir ≠ .created → s'.storage = s.storage
  left : (s.rateLimiter.check env.now "upload" "global" RATE_LIMIT_UPLOAD_MAX).2 = true →
    env.dir = .created → ∀ dir, dir = (s.storage env.pkgId).getD (fun _ => none) →
    ∃ done rest files totalSize dir', multipart = done.map some ++ rest ∧
      storeFields env.write (done.map some) 0 dir [] 0
        = (dir.withFields done, .ok (files, totalSize)) ∧
      Failure s env (dir.withFields done) files totalSize done rest dir' e ∧
      s'.storage env.pkgId = some dir'

/-- The end of `upload_files` fails without touching anything. -/
theorem recordUpload_error {s s' : AppState} {env : UploadEnv}
    {stored : Except ApiError (List Name × ℕ)} {e : ApiError}
    (h : s.recordUpload env stored = (s', .error e)) : s' = s := by
  cases stored with
  | error e' => exact (Prod.mk.inj h).1.symm
  | ok res =>
      rw [AppState.recordUpload] at h
      split at h
      · exact (Prod.mk.inj h).1.symm
      · split at h
        · exact (Prod.mk.inj h).1.symm
        · cases (Prod.mk.inj h).2

/-- What `recordUpload` answers does not depend on storage and rate limiter. -/
theorem recordUpload_congr {s s' : AppState} (h : s.db = s'.db) (env : UploadEnv)
    (stored : Except ApiError (List Name × ℕ)) :
    (s.recordUpload env stored).2 = (s'.recordUpload env stored).2 := by
  cases stored with
  | error e => rfl
  | ok res =>
      rw [AppState.recordUpload, AppState.recordUpload, h]
      split
      · rfl
      · cases s'.db.createPackage env.package env.pkgId "" res.1 res.2 "upload" with
        | none => rfl
        | some created => rfl

/-- **A failed upload leaves at most the files before the field that failed, in its own
directory.** -/
theorem failedUpload_of_error {s s' : AppState} {env : UploadEnv} {multipart : Multipart}
    {e : ApiError} (h : uploadFiles s env multipart = (s', .error e)) :
    FailedUpload s env multipart s' e := by
  unfold uploadFiles at h
  dsimp only at h
  split at h
  · next hlimited =>
      -- over the rate limit: nothing has been touched but the limiter
      obtain rfl := (Prod.mk.inj h).1
      refine ⟨rfl, rfl, fun _ _ => rfl, fun _ => rfl, fun hallowed => ?_⟩
      rw [hlimited] at hallowed
      cases hallowed
  · next hallowed =>
      split at h
      · next hmissing =>
          obtain rfl := (Prod.mk.inj h).1
          refine ⟨rfl, rfl, fun _ _ => rfl, fun _ => rfl, fun _ hcreated => ?_⟩
          rw [hmissing] at hcreated
          cases hcreated
      · next hmissing =>
          obtain rfl := recordUpload_error h
          refine ⟨rfl, rfl, fun _ _ => rfl, fun _ => rfl, fun _ hcreated => ?_⟩
          rw [hmissing] at hcreated
          cases hcreated
      · next hcreated =>
          have hanswer := congrArg Prod.snd h
          obtain rfl := recordUpload_error h
          constructor
          · rfl
          · rfl
          · exact fun id hid => Function.update_of_ne hid _ _
          · rintro (hlimited | hmissing)
            · exact absurd hlimited hallowed
            · exact absurd hcreated hmissing
          -- the loop ran on the directory and stopped at a field, or at the end of the form
          · rintro - - dir rfl
            obtain ⟨done, rest, files, totalSize, hform, hthrough, hends⟩ := storeFields_ends
              env.write multipart 0 ((s.storage env.pkgId).getD fun _ => none) [] 0
            rw [Nat.zero_add] at hends
            refine ⟨done, rest, files, totalSize, _, hform, hthrough, ?_,
              Function.update_self _ _ _⟩
            dsimp only at hanswer ⊢
            generalize storeFields env.write multipart 0 ((s.storage env.pkgId).getD fun _ => none)
              [] 0 = out at hends hanswer ⊢
            cases hends with
            | field field fields dir' e' hfails =>
                obtain rfl : e' = e := Except.error.inj hanswer
                exact .field field fields dir' e' hfails (storeField_error hfails)
            | formEnds _ hrest =>
                exact .record rest e hrest
                  ((recordUpload_congr (by rfl) env _).trans hanswer)

namespace Small

/-- A file of three bytes, and one with a name that is rejected. -/
def hiddenForm : Multipart :=
  [some ⟨some "a.txt".toList, some [1, 2, 3]⟩, some ⟨some ".b".toList, some [4]⟩]

/-- **The files before a rejected name stay.** -/
theorem rejected_leaves_trace :
    ∃ s' e, uploadFiles server (uploadEnv "u" "p") hiddenForm = (s', .error e) ∧
      ¬ LeavesNoTrace server s' := by
  refine ⟨_, _, rfl, fun hnone => ?_⟩
  have hstorage := congrFun hnone.storage "u"
  cases hstorage

theorem failedUpload_of_error_hidden :
    ∃ s' e, uploadFiles server (uploadEnv "u" "p") hiddenForm = (s', .error e) ∧
      FailedUpload server (uploadEnv "u" "p") hiddenForm s' e :=
  ⟨_, _, rfl, failedUpload_of_error rfl⟩

end Small

end Updown.Web
