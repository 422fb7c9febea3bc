import Updown.Engine.Multi
import Updown.ServeOutputs

set_option autoImplicit false

/-! # Sending a directory

`send` asks for a transfer of each file `walk_directory` has found. The request names the file by
the last name of its path, and the endpoint joins that name to its output directory: a file directly
under the root arrives at its relative path if no other file has its name
(`SendDirectory.preserves_files_of_root`).
-/

namespace Updown

open FilePath Transition

/-- Where a relative path leads in the output directory. -/
def OutputDir.at (d : OutputDir) (path : List Name) : List Name :=
  resolve d.cwd (parse d.output.toList) ++ path

/-- The file name `negotiate_send` asks for: the last name of the path. -/
def requestedName (path : List Name) : String := String.ofList (path.getLast?.getD [])

/-- `send` on a directory: the endpoint has accepted a transfer of each file that was found. -/
structure SendDirectory (C : Crates) where
  root : List Name
  tree : Tree
  engine : SendEngine
  transfer : Fin (walkDirectory C root tree.entries).length → Served
  filename_eq : ∀ k, (transfer k).filename
    = requestedName ((walkDirectory C root tree.entries).get k).1
  engine_eq : ∀ k, (transfer k).engine = engine
  file_eq : ∀ k path, ((walkDirectory C root tree.entries).get k).1 = root ++ path →
    tree.lookup path = some (transfer k).file
  accepted : ∀ k, (transfer k).Accepted C

/-- No other file that is sent has the name, or that of its resume file, nor the other way. -/
structure Tree.KeepsApart (tree : Tree) (n : Name) : Prop where
  unique : ∀ folder f, tree.lookup (folder ++ [n]) = some f → f.bytes ≠ [] → folder = []
  resume : ∀ folder m f, tree.lookup (folder ++ [m]) = some f → f.bytes ≠ [] →
    m ≠ n ++ RESUME_SUFFIX ∧ n ≠ m ++ RESUME_SUFFIX

namespace SendDirectory

variable {C : Crates} (s : SendDirectory C) {d : OutputDir}

/-- The files that are sent, in their order. -/
def files : List (List Name × FileEntry) := walkDirectory C s.root s.tree.entries

/-- The name asked for is the last name of the path. -/
theorem filename_toList {k : Fin s.files.length} (folder : List Name) {n : Name}
    (h : (s.files.get k).1 = s.root ++ (folder ++ [n])) : (s.transfer k).filename.toList = n := by
  rw [s.filename_eq k, requestedName]
  show (String.ofList ((s.files.get k).1.getLast?.getD [])).toList = n
  rw [h]
  simp

/-- The file of a transfer is a file of the tree. -/
theorem exists_source (k : Fin s.files.length) :
    ∃ folder n, (s.files.get k).1 = s.root ++ (folder ++ [n]) ∧
      s.tree.lookup (folder ++ [n]) = some (s.transfer k).file ∧
      (s.transfer k).file.bytes ≠ [] := by
  obtain ⟨path, f, hlookup, hne, hx⟩ := mem_walkDirectory.mp (List.get_mem s.files k)
  have hpath : (s.files.get k).1 = s.root ++ path := congrArg Prod.fst hx
  have hfile : some f = some (s.transfer k).file := hlookup.symm.trans (s.file_eq k path hpath)
  obtain rfl := Option.some.inj hfile
  rcases path.eq_nil_or_concat' with rfl | ⟨folder, n, rfl⟩
  · rw [Tree.lookup, Dir.lookup_nil] at hlookup
    cases hlookup
  · exact ⟨folder, n, hpath, hlookup, hne⟩

/-- Each file that is not empty is sent. -/
theorem exists_transfer {path : List Name} {f : SourceFile} (h : s.tree.lookup path = some f)
    (hne : f.bytes ≠ []) : ∃ k : Fin s.files.length, (s.files.get k).1 = s.root ++ path ∧
      (s.transfer k).file = f := by
  obtain ⟨k, hk⟩ := List.get_of_mem (mem_walkDirectory.mpr ⟨path, f, h, hne, rfl⟩)
  have hpath : (s.files.get k).1 = s.root ++ path := congrArg Prod.fst hk
  refine ⟨k, hpath, ?_⟩
  exact Option.some.inj ((s.file_eq k path hpath).symm.trans h)

/-- The transfers of two files have two paths. -/
theorem eq_of_path_eq {k l : Fin s.files.length} (h : (s.files.get k).1 = (s.files.get l).1) :
    k = l := by
  have hnodup : (s.files.map Prod.fst).Nodup := walkDirectory_nodup s.tree
  have hget := List.inj_on_of_nodup_map hnodup (List.get_mem s.files k) (List.get_mem s.files l) h
  exact (List.nodup_iff_injective_get.mp (List.Nodup.of_map Prod.fst hnodup)) hget

/-! ## What arrives -/

/-- A file in the output directory is where its name leads. -/
theorem out_eq_at (k : Fin s.files.length) :
    (s.transfer k).out d = d.at [(s.transfer k).filename.toList] := by
  rw [Served.out, resolve_outputPath _ _ (s.accepted k).isName, OutputDir.at]

theorem resumeAt_eq_at (k : Fin s.files.length) :
    (s.transfer k).resumeAt d = d.at [(s.transfer k).filename.toList ++ RESUME_SUFFIX] := by
  rw [Served.resumeAt, resolve_resumePath _ _ (s.accepted k).isName, OutputDir.at]

/-- **The files end in one path exactly if they have one name**, in whichever folders they are. -/
theorem out_eq_iff {k l : Fin s.files.length} (folder folder' : List Name) {n m : Name}
    (hk : (s.files.get k).1 = s.root ++ (folder ++ [n]))
    (hl : (s.files.get l).1 = s.root ++ (folder' ++ [m])) :
    (s.transfer k).out d = (s.transfer l).out d ↔ n = m := by
  rw [Served.out_eq_iff (s.accepted k) (s.accepted l), ← String.toList_inj,
    s.filename_toList folder hk, s.filename_toList folder' hl]

section

variable {n : Name} {k : Fin s.files.length}

/-- A name that is kept apart has one transfer. -/
theorem eq_of_rival (hn : s.tree.KeepsApart n) (hk : (s.files.get k).1 = s.root ++ [n])
    (j : Rivals s.transfer k) : j = ⟨k, rfl⟩ := by
  obtain ⟨folder, m, hpath, hlookup, hne⟩ := s.exists_source j.1
  have hname : m = n := by
    rw [← s.filename_toList folder hpath, ← s.filename_toList [] hk]
    exact congrArg String.toList j.2
  subst hname
  obtain rfl := hn.unique folder _ hlookup hne
  exact Subtype.ext (s.eq_of_path_eq (hpath.trans hk.symm))

/-- **The other files keep out of its way.** -/
theorem apart (hn : s.tree.KeepsApart n) (hk : (s.files.get k).1 = s.root ++ [n])
    (hblock : s.engine.blockSize < 2 ^ 32)
    (hcount : Blocks.count (s.transfer k).file.bytes.length s.engine.blockSize < 2 ^ 32)
    (hraw : s.engine.SendsRaw C (s.transfer k).file.bytes) : Apart C s.transfer k where
  names := by
    intro j
    obtain ⟨folder, m, hpath, hlookup, hne⟩ := s.exists_source j
    have hkeeps := hn.resume folder m _ hlookup hne
    rw [s.filename_toList folder hpath, s.filename_toList [] hk]
    exact ⟨hkeeps.2, hkeeps.1⟩
  mergeable :=
    .of_unique (fun j => (s.accepted j).blockSize_pos) (s.eq_of_rival hn hk)
  blockSize_lt := by
    intro j
    rw [s.engine_eq]
    exact hblock
  count_lt := by
    intro j
    rw [s.engine_eq, s.eq_of_rival hn hk j]
    exact hcount
  sendsRaw := by
    intro j
    rw [s.engine_eq, s.eq_of_rival hn hk j]
    exact hraw

end

/-- The output directory holds every regular file of the tree where the tree has it, and no path is
that of two files. -/
structure TreePreserved (s : SendDirectory C) (d : OutputDir) (fs : Files) : Prop where
  read_eq : ∀ path f, s.tree.lookup path = some f → fs.read (d.at path) = some (.bytes f.bytes)
  injective : ∀ k l, (s.transfer k).out d = (s.transfer l).out d → k = l

/-- **Files directly under the root are preserved**: whatever the order in which the endpoint goes
on with its transfers, when all have ended complete, a file under the root that is not empty and
whose name is kept apart is at its relative path. No path is that of two files of the root. -/
theorem preserves_files_of_root (hC : C.Correct) {K : ResumeCodec} {fs : Files}
    (hempty : ∀ path, path ≠ [] → fs.read (d.at path) = none)
    (hblock : s.engine.blockSize < 2 ^ 32)
    {w : ServeTasks C.raptorq (Fin (walkDirectory C s.root s.tree.entries).length)}
    (hrun : Reaches (ServeTasks.step C K d s.transfer) (ServeTasks.Honest C s.transfer)
      (ServeTasks.start C.raptorq fs) w)
    (hfinished : ∀ k, w.Finished k) :
    (∀ n f, s.tree.lookup [n] = some f → f.bytes ≠ [] → s.tree.KeepsApart n →
      s.engine.SendsRaw C f.bytes → Blocks.count f.bytes.length s.engine.blockSize < 2 ^ 32 →
      w.fs.read (d.at [n]) = some (.bytes f.bytes)) ∧
    ∀ k l, (∃ n, (s.files.get k).1 = s.root ++ [n]) → (∃ n, (s.files.get l).1 = s.root ++ [n]) →
      (s.transfer k).out d = (s.transfer l).out d → k = l := by
  refine ⟨fun n f hlookup hne hn hraw hcount => ?_, ?_⟩
  · obtain ⟨k, hk, rfl⟩ := s.exists_transfer hlookup hne
    have hname : (s.transfer k).filename.toList = n := s.filename_toList [] hk
    have hout := s.out_eq_at (d := d) k
    obtain ⟨j, hj⟩ := ServeTasks.output_not_mixed (K := K) hC s.accepted
      (s.apart hn hk hblock hcount hraw) (by rw [hout]; exact hempty _ (by simp))
      (by rw [s.resumeAt_eq_at]; exact hempty _ (by simp)) hrun fun j => hfinished j
    rwa [s.eq_of_rival hn hk j, hout, hname] at hj
  · rintro k l ⟨n, hk⟩ ⟨m, hl⟩ hout
    have hnames := (s.out_eq_iff [] [] hk hl).mp hout
    exact s.eq_of_path_eq (by rw [hk, hl, hnames])

end SendDirectory

namespace Small

/-- A folder with a file `a.bin` of five bytes and an empty file. -/
def sourceTree : Tree where
  entries := .file "a.bin".toList file <| .file "none".toList ⟨[], by decide⟩ .empty
  valid := by
    refine ⟨⟨by decide, by decide⟩, by decide, ⟨by decide, by decide⟩, by decide, trivial⟩

/-- Its only file that is not empty. -/
theorem sourceTree_lookup {path : List Name} {f : SourceFile}
    (h : sourceTree.lookup path = some f) (hne : f.bytes ≠ []) : path = ["a.bin".toList] := by
  rcases (Dir.lookup_file_eq_some (by decide)).mp h with ⟨hpath, -⟩ | h
  · exact hpath
  · rcases (Dir.lookup_file_eq_some (by decide)).mp h with ⟨-, rfl⟩ | h
    · exact absurd rfl hne
    · cases h

theorem sourceTree_keepsApart : sourceTree.KeepsApart "a.bin".toList where
  unique := by
    intro folder f h hne
    rcases List.append_eq_singleton_iff.mp (sourceTree_lookup h hne) with ⟨hfolder, -⟩ | ⟨-, hnil⟩
    · exact hfolder
    · cases hnil
  resume := by
    intro folder m f h hne
    have hm : m = "a.bin".toList := by
      have hlast := congrArg List.getLast? (sourceTree_lookup h hne)
      rw [List.getLast?_concat] at hlast
      exact Option.some.inj hlast
    rw [hm]
    decide

/-- `send` on it: there is one transfer. -/
def directory : SendDirectory PlainCrates.plainCrates where
  root := [['s']]
  tree := sourceTree
  engine := engine
  transfer := fun _ => served file 9 7
  filename_eq := by decide
  engine_eq := fun _ => rfl
  file_eq := by
    intro k path hpath
    have hone : ∀ k : Fin (walkDirectory PlainCrates.plainCrates [['s']] sourceTree.entries).length,
        ((walkDirectory PlainCrates.plainCrates [['s']] sourceTree.entries).get k).1
          = [['s']] ++ ["a.bin".toList] := by decide
    rw [hone k, List.append_right_inj] at hpath
    rw [← hpath]
    rfl
  accepted := fun _ => rewrittenFile_accepted false

/-- The transfer of `a.bin`. -/
def only : Fin (walkDirectory PlainCrates.plainCrates [['s']] sourceTree.entries).length :=
  ⟨0, by decide⟩

/-- The two blocks arrive, are decoded and written. -/
def directoryEvents :
    List (ServeEvent (Fin (walkDirectory PlainCrates.plainCrates [['s']]
      sourceTree.entries).length)) :=
  let sent := (served file 9 7).sent PlainCrates.plainCrates
  [.load only, .openFile only 0,
    .recv only (.datagram clock (sent.getD 0 [])), .recv only .send, .recv only (.take .written),
    .recv only (.datagram clock (sent.getD 1 [])), .recv only .send, .recv only (.take .written),
    .recv only .exitAll, .recv only (.finish .written), .save only]

/-- The file arrives, and the empty one does not. -/
theorem directory_run :
    ∃ w, Reaches (ServeTasks.step PlainCrates.plainCrates codec outputDir directory.transfer)
        (ServeTasks.Honest PlainCrates.plainCrates directory.transfer)
        (ServeTasks.start PlainCrates.plainCrates.raptorq (FileSystem.empty _ _)) w ∧
      (∀ k, w.Finished k) ∧ w.fs.read (outputDir.at ["none".toList]) = none := by
  obtain ⟨w, hw, hcheck⟩ := exists_of_runAll
    (guarded (sentCheck directory.transfer)
      (ServeTasks.step PlainCrates.plainCrates codec outputDir directory.transfer))
    (ServeTasks.start PlainCrates.plainCrates.raptorq (FileSystem.empty _ _))
    directoryEvents
    (fun w => hasEnded w only && decide (w.fs.read (outputDir.at ["none".toList]) = none))
    (by decide +kernel)
  simp only [Bool.and_eq_true, decide_eq_true_eq] at hcheck
  refine ⟨w, Reaches.of_guarded _ honest_of_sentCheck hw, fun k => ?_, hcheck.2⟩
  obtain rfl : k = only := by
    have hlen : (walkDirectory PlainCrates.plainCrates [['s']] sourceTree.entries).length = 1 := by
      decide
    exact Fin.ext (Nat.lt_one_iff.mp (hlen ▸ k.2))
  exact finished_of_hasEnded hcheck.1

/-- **An empty file is not sent**: the only transfer ends complete, and the empty file of the tree
is not in the output directory. -/
theorem directory_not_preserved :
    ∃ w, Reaches (ServeTasks.step PlainCrates.plainCrates codec outputDir directory.transfer)
        (ServeTasks.Honest PlainCrates.plainCrates directory.transfer)
        (ServeTasks.start PlainCrates.plainCrates.raptorq (FileSystem.empty _ _)) w ∧
      (∀ k, w.Finished k) ∧ ¬ directory.TreePreserved outputDir w.fs := by
  obtain ⟨w, hrun, hfinished, hnone⟩ := directory_run
  refine ⟨w, hrun, hfinished, fun h => ?_⟩
  have hread := h.read_eq ["none".toList] ⟨[], by decide⟩ rfl
  rw [hnone] at hread
  cases hread

/-- The file of the folder arrives under its name. -/
theorem preserves_files_of_root_directory :
    ∃ w, Reaches (ServeTasks.step PlainCrates.plainCrates codec outputDir directory.transfer)
        (ServeTasks.Honest PlainCrates.plainCrates directory.transfer)
        (ServeTasks.start PlainCrates.plainCrates.raptorq (FileSystem.empty _ _)) w ∧
      w.fs.read (outputDir.at ["a.bin".toList]) = some (.bytes [1, 2, 3, 4, 5]) := by
  obtain ⟨w, hrun, hfinished, -⟩ := directory_run
  obtain ⟨hread, -⟩ := directory.preserves_files_of_root PlainCrates.plainCrates_correct
    (fun _ _ => FileSystem.read_empty _) (by decide) hrun hfinished
  exact ⟨w, hrun, hread _ file rfl (by decide) sourceTree_keepsApart
    (SendEngine.sendsRaw_of_off rfl) (by decide)⟩

end Small

end Updown
