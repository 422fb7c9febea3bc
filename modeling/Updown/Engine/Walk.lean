import Updown.Basic.PlainCrates
import Updown.Engine.Multi

set_option autoImplicit false

/-! # The walk of a directory is exact

What `walk_directory` returns is sorted by the relative path, and strictly so, since the relative
path of a file determines where it is (`relativePath_injective`). A list that is strictly sorted is
determined by its members, and `mem_walkDirectory` says that these depend on where paths lead only,
not on the order in which `read_dir` lists a directory (`Relisted`). `walk_exact` puts it together.
-/

namespace Updown

open FilePath

/-! ## Listing a directory in another order -/

namespace Dir

/-- An entry of a directory. -/
inductive Item where
  | file (name : Name) (content : SourceFile)
  | folder (name : Name) (content : Dir)
  | other (name : Name)

def Item.name : Item → Name
  | .file n _ | .folder n _ | .other n => n

/-- The directory with one more entry, listed first. -/
def put (i : Item) (dir : Dir) : Dir :=
  match i with
  | .file n f => .file n f dir
  | .folder n sub => .folder n sub dir
  | .other n => .other n dir

/-- What the entry says about a path. -/
def Item.lookup : Item → List Name → Option SourceFile
  | .file n f, path => if path = [n] then some f else none
  | .folder n sub, path => if path.head? = some n then sub.lookup path.tail else none
  | .other _, _ => none

/-- What an entry has inside. -/
def Item.Valid : Item → Prop
  | .folder _ sub => sub.Valid
  | _ => True

/-- The same directory, its entries and those of its folders listed in another order. -/
inductive Relisted : Dir → Dir → Prop
  | empty : Relisted .empty .empty
  | put (i : Item) {dir dir' : Dir} : Relisted dir dir' → Relisted (dir.put i) (dir'.put i)
  | inside (n : Name) {sub sub' dir dir' : Dir} : Relisted sub sub' → Relisted dir dir' →
      Relisted (.folder n sub dir) (.folder n sub' dir')
  | swap (i j : Item) (dir : Dir) : Relisted ((dir.put i).put j) ((dir.put j).put i)
  | trans {dir dir' dir'' : Dir} : Relisted dir dir' → Relisted dir' dir'' → Relisted dir dir''

theorem names_put (i : Item) (dir : Dir) : (dir.put i).names = i.name :: dir.names := by
  cases i <;> rfl

theorem valid_put (i : Item) (dir : Dir) :
    (dir.put i).Valid ↔ IsName i.name ∧ i.name ∉ dir.names ∧ i.Valid ∧ dir.Valid := by
  cases i <;> simp [put, Valid, Item.name, Item.Valid]

theorem Item.head_of_lookup {i : Item} {path : List Name} {f : SourceFile}
    (h : i.lookup path = some f) : path.head? = some i.name := by
  cases i with
  | file n g =>
      obtain ⟨rfl, -⟩ := Option.ite_none_right_eq_some.mp h
      rfl
  | folder n sub => exact (Option.ite_none_right_eq_some.mp h).1
  | other n => cases h

/-- A path leads through the first entry or through one of the others. -/
theorem lookup_put {i : Item} {dir : Dir} (hvalid : (dir.put i).Valid) (path : List Name) :
    (dir.put i).lookup path = (i.lookup path).or (dir.lookup path) := by
  cases i with
  | file n f =>
      change (if path = [n] then some f else dir.lookup path) =
        (if path = [n] then some f else none).or (dir.lookup path)
      split
      · rfl
      · rfl
  | folder n sub =>
      change (if path.head? = some n then sub.lookup path.tail else dir.lookup path) =
        (if path.head? = some n then sub.lookup path.tail else none).or (dir.lookup path)
      split
      · next hhead =>
          obtain ⟨below, rfl⟩ := List.head?_eq_some_iff.mp hhead
          have hnone : dir.lookup (n :: below) = none := by
            rw [Option.eq_none_iff_forall_ne_some]
            exact fun f hf => ((valid_put _ _).mp hvalid).2.1 (head_mem_names hf)
          rw [hnone, Option.or_none]
      · rfl
  | other n => rfl

/-- Two entries do not lead to the same path. -/
theorem lookup_swap {i j : Item} {dir : Dir} (hvalid : ((dir.put i).put j).Valid)
    (hvalid' : ((dir.put j).put i).Valid) (path : List Name) :
    ((dir.put i).put j).lookup path = ((dir.put j).put i).lookup path := by
  obtain ⟨-, hj, -, hdir⟩ := (valid_put _ _).mp hvalid
  obtain ⟨-, -, -, hdir'⟩ := (valid_put _ _).mp hvalid'
  rw [lookup_put hvalid, lookup_put hdir, lookup_put hvalid', lookup_put hdir', ← Option.or_assoc,
    ← Option.or_assoc]
  cases hjpath : j.lookup path with
  | none => rw [Option.none_or, Option.or_none]
  | some g =>
      -- a path starts with the name of its item, and the two names differ
      have hipath : i.lookup path = none := by
        rw [Option.eq_none_iff_forall_ne_some]
        intro f hf
        have hsame : some i.name = some j.name :=
          (Item.head_of_lookup hf).symm.trans (Item.head_of_lookup hjpath)
        rw [names_put] at hj
        exact hj (List.mem_cons.mpr (Or.inl (Option.some.inj hsame).symm))
      rw [hipath, Option.none_or, Option.or_none]

/-- Listed in another order, a directory has the same names, and paths lead where they led. -/
theorem Relisted.lookup_eq {dir dir' : Dir} (h : Relisted dir dir') (hvalid : dir.Valid) :
    dir'.Valid ∧ dir'.names.Perm dir.names ∧ ∀ path, dir'.lookup path = dir.lookup path := by
  induction h with
  | empty => exact ⟨trivial, List.Perm.refl _, fun _ => rfl⟩
  | put i _ ih =>
      obtain ⟨hname, hfresh, hi, hdir⟩ := (valid_put _ _).mp hvalid
      obtain ⟨hdir', hperm, hlookup⟩ := ih hdir
      have hput := (valid_put i _).mpr ⟨hname, fun hmem => hfresh (hperm.mem_iff.mp hmem), hi, hdir'⟩
      refine ⟨hput, ?_, fun path => ?_⟩
      · rw [names_put, names_put]
        exact hperm.cons _
      · rw [lookup_put hput, lookup_put hvalid, hlookup]
  | @inside n sub sub' dir dir' _ _ ihsub ih =>
      obtain ⟨hname, hfresh, hsub, hdir⟩ := hvalid
      obtain ⟨hsub', -, hlookupSub⟩ := ihsub hsub
      obtain ⟨hdir', hperm, hlookup⟩ := ih hdir
      refine ⟨⟨hname, fun hmem => hfresh (hperm.mem_iff.mp hmem), hsub', hdir'⟩,
        hperm.cons _, fun path => ?_⟩
      change (if path.head? = some n then sub'.lookup path.tail else dir'.lookup path) =
        if path.head? = some n then sub.lookup path.tail else dir.lookup path
      rw [hlookupSub, hlookup]
  | swap i j dir =>
      obtain ⟨hj, hfreshj, hvj, hput⟩ := (valid_put _ _).mp hvalid
      obtain ⟨hi, hfreshi, hvi, hdir⟩ := (valid_put _ _).mp hput
      rw [names_put, List.mem_cons, not_or] at hfreshj
      have hvalid' : ((dir.put j).put i).Valid := by
        refine (valid_put _ _).mpr ⟨hi, ?_, hvi, (valid_put _ _).mpr ⟨hj, hfreshj.2, hvj, hdir⟩⟩
        rw [names_put, List.mem_cons, not_or]
        exact ⟨Ne.symm hfreshj.1, hfreshi⟩
      refine ⟨hvalid', ?_, fun path => lookup_swap hvalid' hvalid path⟩
      rw [names_put, names_put, names_put, names_put]
      exact List.Perm.swap _ _ _
  | trans _ _ ih ih' =>
      obtain ⟨hvalid', hperm, hlookup⟩ := ih hvalid
      obtain ⟨hvalid'', hperm', hlookup'⟩ := ih' hvalid'
      exact ⟨hvalid'', hperm'.trans hperm, fun path => (hlookup' path).trans (hlookup path)⟩

end Dir

/-! ## Relative paths -/

/-- The text of an absolute path. -/
def rootText (root : List Name) : List Char := '/' :: ['/'].intercalate root

theorem parse_rootText {root : List Name} (hroot : ∀ n ∈ root, IsName n) :
    FilePath.parse (rootText root) =
      { absolute := true, components := root.map Component.normal } := by
  have hcomponents : ((['/'].intercalate root).splitOn '/').filterMap segment =
      root.map Component.normal := congrArg Path.components (parse_intercalate hroot)
  have hsplit : (rootText root).splitOn '/' = [] :: (['/'].intercalate root).splitOn '/' := by
    rw [rootText, List.splitOn_cons_eq_if_modifyHead, if_pos (by decide)]
  rw [FilePath.parse, hsplit, List.filterMap_cons_none (by decide), hcomponents]
  rfl

/-- Joining a file's relative path to the root gives its path. -/
theorem parse_push_relativePath {root path : List Name} (hroot : ∀ n ∈ root, IsName n)
    (hpath : ∀ n ∈ path, IsName n) :
    FilePath.parse (push (rootText root) (relativePath root (root ++ path)).toList) =
      FilePath.parse (rootText (root ++ path)) := by
  have hall : ∀ n ∈ root ++ path, IsName n := by
    intro n hn
    exact (List.mem_append.mp hn).elim (hroot n) (hpath n)
  rw [parse_push, parse_rootText hroot, parse_rootText hall, relativePath_append,
    String.toList_ofList, parse_intercalate hpath, Path.join, List.map_append]
  rfl

/-- The relative path says which file it is. -/
theorem relativePath_injective {root path path' : List Name} (hpath : ∀ n ∈ path, IsName n)
    (hpath' : ∀ n ∈ path', IsName n)
    (h : relativePath root (root ++ path) = relativePath root (root ++ path')) : path = path' := by
  rw [relativePath_append, relativePath_append] at h
  have hparse := congrArg FilePath.parse (String.ofList_injective h)
  rw [parse_intercalate hpath, parse_intercalate hpath'] at hparse
  have hnames := congrArg Path.components hparse
  exact List.map_injective_iff.mpr (fun _ _ => Component.normal.inj) hnames

/-! ## The sorted list -/

section

variable {C : Crates} {root : List Name}

/-- Two entries with one relative path are one entry. -/
theorem eq_of_relativePath_eq {tree : Tree} {x y : List Name × FileEntry}
    (hx : x ∈ walkDirectory C root tree.entries) (hy : y ∈ walkDirectory C root tree.entries)
    (h : x.2.relativePath = y.2.relativePath) : x = y := by
  obtain ⟨path, f, hlookup, -, rfl⟩ := mem_walkDirectory.mp hx
  obtain ⟨path', f', hlookup', -, rfl⟩ := mem_walkDirectory.mp hy
  obtain rfl := relativePath_injective (Dir.isName_of_lookup tree.valid hlookup)
    (Dir.isName_of_lookup tree.valid hlookup') h
  obtain rfl := Option.some.inj (hlookup.symm.trans hlookup')
  rfl

/-- Before, in the order of the relative paths. -/
def Before (a b : List Name × FileEntry) : Prop := a.2.relativePath < b.2.relativePath

instance : Std.Irrefl Before := ⟨fun a => String.lt_irrefl a.2.relativePath⟩

instance : Std.Antisymm Before := ⟨fun _ _ h h' => absurd h' (String.lt_asymm h)⟩

theorem walkDirectory_sorted (tree : Tree) :
    (walkDirectory C root tree.entries).Pairwise fun a b =>
      a.2.relativePath ≤ b.2.relativePath := by
  have : Std.Total fun a b : List Name × FileEntry => a.2.relativePath ≤ b.2.relativePath :=
    ⟨fun a b => String.le_total _ _⟩
  have : IsTrans (List Name × FileEntry) fun a b => a.2.relativePath ≤ b.2.relativePath :=
    ⟨fun _ _ _ => String.le_trans⟩
  exact List.pairwise_insertionSort _ _

theorem walkDirectory_strictlySorted (tree : Tree) :
    (walkDirectory C root tree.entries).Pairwise Before := by
  have hne : (walkDirectory C root tree.entries).Pairwise fun a b => a ≠ b :=
    List.Nodup.of_map _ (walkDirectory_nodup tree)
  refine ((walkDirectory_sorted tree).and hne).imp_of_mem fun hx hy h => ?_
  by_contra hlt
  exact h.2 (eq_of_relativePath_eq hx hy (String.le_antisymm h.1 (String.not_lt.mp hlt)))

/-- The walk of the same directory listed in another order. -/
theorem walkDirectory_relisted {tree tree' : Tree} (h : tree.entries.Relisted tree'.entries) :
    walkDirectory C root tree'.entries = walkDirectory C root tree.entries := by
  obtain ⟨-, -, hlookup⟩ := h.lookup_eq tree.valid
  -- a strictly sorted list is determined by its members
  have hmem : ∀ x, x ∈ walkDirectory C root tree'.entries ↔
      x ∈ walkDirectory C root tree.entries := by
    intro x
    rw [mem_walkDirectory, mem_walkDirectory]
    simp only [Tree.lookup, hlookup]
  exact (walkDirectory_strictlySorted tree').eq_of_mem_iff (walkDirectory_strictlySorted tree) hmem

/-- **The walk is exact**: the files that are not empty, each once and nothing else, with their
sizes and hashes, strictly increasing by the relative path, which leads from the root to the file;
and it does not depend on the order in which directories are listed. The root is canonical, and so
has names only. -/
theorem walk_exact (tree : Tree) (hroot : ∀ n ∈ root, IsName n) :
    (∀ p, p ∈ (walkDirectory C root tree.entries).map Prod.fst ↔
      ∃ path f, tree.lookup path = some f ∧ f.bytes ≠ [] ∧ p = root ++ path) ∧
    ((walkDirectory C root tree.entries).map Prod.fst).Nodup ∧
    (walkDirectory C root tree.entries).Pairwise (fun a b =>
      a.2.relativePath < b.2.relativePath) ∧
    (∀ x ∈ walkDirectory C root tree.entries, ∃ path f, tree.lookup path = some f ∧
      x.1 = root ++ path ∧
      FilePath.parse (push (rootText root) x.2.relativePath.toList) =
        FilePath.parse (rootText x.1) ∧
      x.2.fileSize = f.bytes.length ∧ x.2.blake3Hash = C.blake3 f.bytes) ∧
    ∀ tree' : Tree, tree.entries.Relisted tree'.entries →
      walkDirectory C root tree'.entries = walkDirectory C root tree.entries := by
  refine ⟨fun p => ?_, walkDirectory_nodup tree, walkDirectory_strictlySorted tree, ?_,
    fun tree' h => walkDirectory_relisted h⟩
  · rw [List.mem_map]
    constructor
    · rintro ⟨x, hx, rfl⟩
      obtain ⟨path, f, hlookup, hne, rfl⟩ := mem_walkDirectory.mp hx
      exact ⟨path, f, hlookup, hne, rfl⟩
    · rintro ⟨path, f, hlookup, hne, rfl⟩
      exact ⟨_, mem_walkDirectory.mpr ⟨path, f, hlookup, hne, rfl⟩, rfl⟩
  · intro x hx
    obtain ⟨path, f, hlookup, -, rfl⟩ := mem_walkDirectory.mp hx
    exact ⟨path, f, hlookup, rfl,
      parse_push_relativePath hroot (Dir.isName_of_lookup tree.valid hlookup), rfl, rfl⟩

end

namespace Small

/-- A folder with a file, a file and a symbolic link. -/
def nestedTree : Tree where
  entries := .folder "b".toList (.file "x".toList ⟨[1], by decide⟩ .empty) <|
    .file "a".toList ⟨[2, 3], by decide⟩ <| .other "link".toList .empty
  valid := ⟨⟨by decide, by decide⟩, by decide, ⟨⟨by decide, by decide⟩, by decide, trivial⟩,
    ⟨by decide, by decide⟩, by decide, ⟨by decide, by decide⟩, by decide, trivial⟩

theorem walk_exact_nested :
    ["s".toList, "b".toList, "x".toList] ∈
      (walkDirectory PlainCrates.plainCrates ["s".toList] nestedTree.entries).map Prod.fst := by
  have hroot : ∀ n ∈ ["s".toList], IsName n := by
    intro n hn
    rw [List.mem_singleton.mp hn]
    exact ⟨by decide, by decide⟩
  exact ((walk_exact nestedTree hroot).1 _).mpr
    ⟨["b".toList, "x".toList], ⟨[1], by decide⟩, rfl, by decide, rfl⟩

end Small

end Updown
