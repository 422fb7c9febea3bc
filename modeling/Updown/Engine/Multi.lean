import Mathlib.Data.List.Sort
import Updown.Engine.Paths
import Updown.Engine.Send

set_option autoImplicit false

/-! # The files of a directory

`walk_directory` collects the files below a directory with their relative paths. A directory is
given by its entries in the order `read_dir` yields them; `lookup` says what a relative path leads
to, and `mem_walkDirectory` that the walk finds the regular files that are not empty and nothing
else, each of them once (`walkDirectory_nodup`).
-/

namespace Updown

open FilePath

/-! ## Directories -/

/-- The entries of a directory. -/
inductive Dir where
  | empty
  | file (name : Name) (content : SourceFile) (rest : Dir)
  | folder (name : Name) (content rest : Dir)
  /-- Neither file nor folder: a symbolic link, a socket. -/
  | other (name : Name) (rest : Dir)

namespace Dir

def names : Dir → List Name
  | .empty => []
  | .file n _ rest | .folder n _ rest | .other n rest => n :: rest.names

/-- The entries have names, each its own. -/
def Valid : Dir → Prop
  | .empty => True
  | .file n _ rest | .other n rest => IsName n ∧ n ∉ rest.names ∧ rest.Valid
  | .folder n sub rest => IsName n ∧ n ∉ rest.names ∧ sub.Valid ∧ rest.Valid

/-- The regular file at a relative path. -/
def lookup : Dir → List Name → Option SourceFile
  | .empty, _ => none
  | .file n f rest, path => if path = [n] then some f else rest.lookup path
  | .folder n sub rest, path =>
      if path.head? = some n then sub.lookup path.tail else rest.lookup path
  | .other _ rest, path => rest.lookup path

@[simp] theorem lookup_nil (dir : Dir) : dir.lookup [] = none := by
  induction dir with
  | empty => rfl
  | file n f rest ih => simp [lookup, ih]
  | folder n sub rest _ ih => simp [lookup, ih]
  | other n rest ih => simp [lookup, ih]

/-- A path leads to a file through one of the entries. -/
theorem head_mem_names {dir : Dir} {n : Name} {path : List Name} {f : SourceFile}
    (h : dir.lookup (n :: path) = some f) : n ∈ dir.names := by
  induction dir with
  | empty => cases h
  | file m g rest ih =>
      unfold lookup at h
      split at h
      · next heq =>
          obtain ⟨rfl, -⟩ := List.cons.inj heq
          exact List.mem_cons_self
      · exact List.mem_cons_of_mem _ (ih h)
  | folder m sub rest _ ih =>
      unfold lookup at h
      split at h
      · next heq =>
          obtain rfl := Option.some.inj heq
          exact List.mem_cons_self
      · exact List.mem_cons_of_mem _ (ih h)
  | other m rest ih => exact List.mem_cons_of_mem _ (ih h)

/-- What a path leads to, when the first entry is a file … -/
theorem lookup_file_eq_some {n : Name} {g f : SourceFile} {rest : Dir} {path : List Name}
    (hn : n ∉ rest.names) :
    (Dir.file n g rest).lookup path = some f ↔
      (path = [n] ∧ g = f) ∨ rest.lookup path = some f := by
  rw [show (Dir.file n g rest).lookup path = if path = [n] then some g else rest.lookup path
    from rfl]
  split
  · next heq =>
      have hnone : rest.lookup path ≠ some f := by
        rw [heq]
        exact fun h => hn (head_mem_names h)
      rw [or_iff_left hnone, and_iff_right heq, Option.some.injEq]
  · next hne => simp only [hne, false_and, false_or]

/-- … and when it is a folder. -/
theorem lookup_folder_eq_some {n : Name} {sub rest : Dir} {path : List Name} {f : SourceFile}
    (hn : n ∉ rest.names) :
    (Dir.folder n sub rest).lookup path = some f ↔
      (∃ below, path = n :: below ∧ sub.lookup below = some f) ∨ rest.lookup path = some f := by
  rw [show (Dir.folder n sub rest).lookup path
    = if path.head? = some n then sub.lookup path.tail else rest.lookup path from rfl]
  split
  · next heq =>
      obtain ⟨below, rfl⟩ := List.head?_eq_some_iff.mp heq
      have hnone : rest.lookup (n :: below) ≠ some f := fun h => hn (head_mem_names h)
      rw [List.tail_cons, or_iff_left hnone]
      constructor
      · intro h
        exact ⟨below, rfl, h⟩
      · rintro ⟨below', heq', h⟩
        obtain ⟨-, rfl⟩ := List.cons.inj heq'
        exact h
  · next hne =>
      refine ⟨Or.inr, fun h => h.resolve_left ?_⟩
      rintro ⟨below, rfl, -⟩
      exact hne rfl

/-- The names on the way to a file are names. -/
theorem isName_of_lookup {dir : Dir} (hvalid : dir.Valid) {path : List Name} {f : SourceFile}
    (h : dir.lookup path = some f) : ∀ n ∈ path, IsName n := by
  induction dir generalizing path with
  | empty => cases h
  | file m g rest ih =>
      unfold lookup at h
      split at h
      · next heq =>
          rw [heq]
          simpa using hvalid.1
      · exact ih hvalid.2.2 h
  | folder m sub rest ihsub ih =>
      unfold lookup at h
      split at h
      · next heq =>
          obtain ⟨path', rfl⟩ := List.head?_eq_some_iff.mp heq
          simp only [List.forall_mem_cons]
          exact ⟨hvalid.1, ihsub hvalid.2.2.1 h⟩
      · exact ih hvalid.2.2.2 h
  | other m rest ih => exact ih hvalid.2.2 h

end Dir

/-- A directory that a file system can hold. -/
structure Tree where
  entries : Dir
  valid : entries.Valid

def Tree.lookup (tree : Tree) (path : List Name) : Option SourceFile := tree.entries.lookup path

/-! ## The walk -/

/-- `path.strip_prefix(root)`. -/
def stripPrefix (root path : List Name) : Option (List Name) :=
  if root <+: path then some (path.drop root.length) else none

/-- The path of a file relative to the root, as text. -/
def relativePath (root path : List Name) : String :=
  String.ofList <|
    match stripPrefix root path with
    | some relative => ['/'].intercalate relative
    | none => '/' :: ['/'].intercalate path

/-- The manifest entry of a file. -/
def fileEntry (C : Crates) (root path : List Name) (f : SourceFile) : FileEntry where
  relativePath := relativePath root path
  fileSize := f.bytes.length
  blake3Hash := C.blake3 f.bytes

/-- What `walk_recursive` adds to the entries for a directory. -/
def walkRecursive (C : Crates) (root : List Name) : List Name → Dir → List (List Name × FileEntry)
  | _, .empty => []
  | current, .folder n sub rest =>
      walkRecursive C root (current ++ [n]) sub ++ walkRecursive C root current rest
  | current, .file n f rest =>
      -- empty files are skipped
      if f.bytes.length = 0 then walkRecursive C root current rest
      else (current ++ [n], fileEntry C root (current ++ [n]) f) ::
        walkRecursive C root current rest
  | current, .other _ rest => walkRecursive C root current rest

/-- Collect all files with their relative paths, sorted by them. `root` are the names of the
directory's path after `canonicalize`. -/
def walkDirectory (C : Crates) (root : List Name) (dir : Dir) : List (List Name × FileEntry) :=
  (walkRecursive C root root dir).insertionSort fun a b => a.2.relativePath ≤ b.2.relativePath

/-- The text of a path below the root. -/
theorem relativePath_append (root path : List Name) :
    relativePath root (root ++ path) = String.ofList (['/'].intercalate path) := by
  rw [relativePath, stripPrefix, if_pos (List.prefix_append root path), List.drop_left]

section

variable {C : Crates} {root current : List Name} {dir : Dir} {x : List Name × FileEntry}

/-- **What the walk of a directory finds**: its files that are not empty. -/
theorem mem_walkRecursive (hvalid : dir.Valid) :
    x ∈ walkRecursive C root current dir ↔
      ∃ path f, dir.lookup path = some f ∧ f.bytes ≠ [] ∧
        x = (current ++ path, fileEntry C root (current ++ path) f) := by
  induction dir generalizing current with
  | empty =>
      simp [walkRecursive, Dir.lookup]
  | file n g rest ih =>
      obtain ⟨-, hn, hrest⟩ := hvalid
      -- a file is the first entry or one of the rest
      have hsplit : (∃ path f, (Dir.file n g rest).lookup path = some f ∧ f.bytes ≠ [] ∧
            x = (current ++ path, fileEntry C root (current ++ path) f)) ↔
          (g.bytes ≠ [] ∧ x = (current ++ [n], fileEntry C root (current ++ [n]) g)) ∨
            x ∈ walkRecursive C root current rest := by
        rw [ih hrest]
        constructor
        · rintro ⟨path, f, hlookup, hne, hx⟩
          rcases (Dir.lookup_file_eq_some hn).mp hlookup with ⟨rfl, rfl⟩ | hrest
          · exact Or.inl ⟨hne, hx⟩
          · exact Or.inr ⟨path, f, hrest, hne, hx⟩
        · rintro (⟨hne, hx⟩ | ⟨path, f, hrest, hne, hx⟩)
          · exact ⟨[n], g, (Dir.lookup_file_eq_some hn).mpr (Or.inl ⟨rfl, rfl⟩), hne, hx⟩
          · exact ⟨path, f, (Dir.lookup_file_eq_some hn).mpr (Or.inr hrest), hne, hx⟩
      rw [hsplit, walkRecursive]
      split
      · next hempty => simp [List.length_eq_zero_iff.mp hempty]
      · next hpos =>
          have hne : g.bytes ≠ [] := fun h => hpos (by rw [h]; rfl)
          simp [hne]
  | folder n sub rest ihsub ih =>
      obtain ⟨-, hn, hsub, hrest⟩ := hvalid
      rw [walkRecursive, List.mem_append, ihsub hsub, ih hrest]
      constructor
      · rintro (⟨below, f, hlookup, hne, hx⟩ | ⟨path, f, hlookup, hne, hx⟩)
        · refine ⟨n :: below, f, (Dir.lookup_folder_eq_some hn).mpr
            (Or.inl ⟨below, rfl, hlookup⟩), hne, ?_⟩
          rwa [List.append_assoc] at hx
        · exact ⟨path, f, (Dir.lookup_folder_eq_some hn).mpr (Or.inr hlookup), hne, hx⟩
      · rintro ⟨path, f, hlookup, hne, hx⟩
        rcases (Dir.lookup_folder_eq_some hn).mp hlookup with ⟨below, rfl, hbelow⟩ | hrest
        · refine Or.inl ⟨below, f, hbelow, hne, ?_⟩
          rwa [List.append_assoc]
        · exact Or.inr ⟨path, f, hrest, hne, hx⟩
  | other n rest ih => exact ih hvalid.2.2

/-- **What the walk of a tree finds.** -/
theorem mem_walkDirectory {tree : Tree} :
    x ∈ walkDirectory C root tree.entries ↔
      ∃ path f, tree.lookup path = some f ∧ f.bytes ≠ [] ∧
        x = (root ++ path, fileEntry C root (root ++ path) f) := by
  rw [walkDirectory, List.mem_insertionSort]
  exact mem_walkRecursive tree.valid

/-- No path is found twice. -/
theorem nodup_walkRecursive (hvalid : dir.Valid) :
    ((walkRecursive C root current dir).map Prod.fst).Nodup := by
  induction dir generalizing current with
  | empty => exact List.nodup_nil
  | file n g rest ih =>
      obtain ⟨-, hn, hrest⟩ := hvalid
      unfold walkRecursive
      split
      · exact ih hrest
      · refine List.nodup_cons.mpr ⟨fun hmem => ?_, ih hrest⟩
        obtain ⟨y, hy, hpath⟩ := List.mem_map.mp hmem
        obtain ⟨path, f, hlookup, -, rfl⟩ := (mem_walkRecursive hrest).mp hy
        obtain rfl := (List.append_right_inj current).mp hpath
        exact hn (Dir.head_mem_names hlookup)
  | folder n sub rest ihsub ih =>
      obtain ⟨-, hn, hsub, hrest⟩ := hvalid
      rw [walkRecursive, List.map_append, List.nodup_append]
      refine ⟨ihsub hsub, ih hrest, ?_⟩
      -- what is below the folder begins with its name, and what is in the rest does not
      intro a ha b hb hab
      obtain ⟨y, hy, rfl⟩ := List.mem_map.mp ha
      obtain ⟨z, hz, rfl⟩ := List.mem_map.mp hb
      obtain ⟨below, f, -, -, rfl⟩ := (mem_walkRecursive hsub).mp hy
      obtain ⟨path, f', hlookup, -, rfl⟩ := (mem_walkRecursive hrest).mp hz
      have hpath : path = n :: below := by
        refine (List.append_right_inj current).mp (hab.symm.trans ?_)
        show current ++ [n] ++ below = current ++ n :: below
        rw [List.append_assoc]
        rfl
      rw [hpath] at hlookup
      exact hn (Dir.head_mem_names hlookup)
  | other n rest ih => exact ih hvalid.2.2

/-- **Each file is sent once.** -/
theorem walkDirectory_nodup (tree : Tree) :
    ((walkDirectory C root tree.entries).map Prod.fst).Nodup := by
  have hperm : (walkDirectory C root tree.entries).Perm (walkRecursive C root root tree.entries) :=
    List.perm_insertionSort _ _
  exact (hperm.map Prod.fst).nodup_iff.mpr (nodup_walkRecursive tree.valid)

end

end Updown
