import WireReplay.Proofs.ReportFiles

/-!
# Reports that fail

A report that fails has no message and claims no summary. It fails with the fault of the first step
that fails: to make its directory, or to write one of its files. What was written before that stays,
and what would have been written from there on, the summary among it, is as it was.

It is as it was once the directory was there. To make the directory adds no file, but directories,
and if its path goes through a name that the report uses as well, one of them stands in the place of
a file then.
-/

namespace WireReplay.Report

variable {t : FileTree} {directory : Path} {captures : List Capture} {failure : Failure}

theorem not_isLink_of_locate {p : Path} {found : Except Fault Spot}
    (h : t.locate .entry p = found)
    (hfound : ∀ place target, found ≠ .ok (.present place (.link target))) :
    ¬ t.IsLink p := by
  rintro ⟨place, target, hlink⟩
  exact hfound place target (h.symm.trans hlink)

theorem error_of_file (h : (file directory t captures).result = .error failure) :
    ∃ fault, failure = .io fault ∧ (file directory t captures).log = [] ∧
      (t.makeDirectories directory = ⟨(file directory t captures).files, some fault⟩ ∨
        (t.makeDirectories directory).fault = none ∧
          (t.makeDirectories directory).files.writeIn directory (contents captures) =
            ⟨(file directory t captures).files, some fault⟩) := by
  unfold file at h ⊢
  split at h
  · rename_i files fault hall
    cases h
    refine ⟨fault, rfl, rfl, ?_⟩
    rw [writeAll_eq] at hall
    cases hmade : (t.makeDirectories directory).fault with
    | some first =>
      rw [FileTree.Change.andThen_of_fault hmade] at hall
      exact .inl hall
    | none =>
      rw [FileTree.Change.andThen_of_no_fault hmade] at hall
      exact .inr ⟨rfl, hall⟩
  · cases h

/-- What is left of the files of a report that fails at one of them. -/
structure Abandoned (made left : FileTree) (directory : Path) (fault : Fault)
    (before : List (Bytes × Bytes)) (lost : Bytes × Bytes) (behind : List (Bytes × Bytes)) :
    Prop where
  first : made.write (directory.join lost.1) lost.2 = .error fault
  /-- The files before are there, unless they went where nothing is kept. -/
  written : ∀ file ∈ before, left.read (directory.join file.1) = .ok file.2 ∨
    made.node (directory.join file.1) = .ok .sink
  /-- At the paths of the others is what was there before. -/
  untouched : ∀ file ∈ lost :: behind,
    left.node (directory.join file.1) = made.node (directory.join file.1)
  elsewhere : ∃ around,
    made.root.Rewritten left.root (before.map fun file => around ++ [file.1])

theorem abandoned_of_writeIn {made : FileTree} {files : List (Bytes × Bytes)} {fault : Fault}
    (hroot : made.root.HasDirectory [])
    (hplain : ∀ file ∈ files, 0 ∉ file.1 → Path.IsPlain file.1)
    (hdistinct : (files.map (·.1)).Nodup)
    (hlinks : ∀ file ∈ files, ¬ made.IsLink (directory.join file.1)) {left : FileTree}
    (hfiles : made.writeIn directory files = ⟨left, some fault⟩) :
    ∃ before lost behind, files = before ++ lost :: behind ∧
      Abandoned made left directory fault before lost behind := by
  have hfault : (made.writeIn directory files).fault = some fault := by rw [hfiles]
  obtain ⟨before, lost, behind, rfl, hbefore, hlost⟩ := FileTree.writeIn_fails hfault
  rw [hfiles] at hbefore hlost
  dsimp only at hbefore hlost
  refine ⟨before, lost, behind, rfl, ?_⟩
  rw [List.map_append, List.nodup_append] at hdistinct
  obtain ⟨hdistinct, -, hapart⟩ := hdistinct
  have hnew (file : Bytes × Bytes) (hfile : file ∈ lost :: behind) :
      file.1 ∉ before.map (·.1) := fun hm => hapart _ hm _ (List.mem_map_of_mem hfile) rfl
  cases before with
  | nil =>
    cases hbefore
    exact ⟨hlost, nofun, fun _ _ => rfl, [], .refl _⟩
  | cons first others =>
    have hsplit (file : Bytes × Bytes) (hfile : file ∈ lost :: behind) :
        file ∈ first :: others ++ lost :: behind := List.mem_append_right _ hfile
    obtain ⟨t', hwrite, -⟩ : ∃ t', made.write (directory.join first.1) first.2 = .ok t' ∧
        made.writeIn directory (first :: others) = t'.writeIn directory others :=
      FileTree.writeIn_cons_of_no_fault (by rw [hbefore])
    obtain ⟨around, hhouses⟩ :=
      FileTree.houses_of_write hroot (hplain first List.mem_cons_self) hwrite
    have hfilled := FileTree.filled_of_writeIn hhouses
      (fun file hfile => hplain file (List.mem_append_left _ hfile)) hdistinct
      (fun file hfile => hlinks file (List.mem_append_left _ hfile)) (by rw [hbefore])
    rw [hbefore] at hfilled
    have hsame (file : Bytes × Bytes) (hfile : file ∈ lost :: behind) (purpose : Purpose) :
        left.locate purpose (directory.join file.1) = made.locate purpose (directory.join file.1) :=
      hfilled.locate_eq hhouses (hplain file (hsplit file hfile)) (hlinks file (hsplit file hfile))
        (hnew file hfile) purpose
    exact {
      first := FileTree.write_error_congr (hsame lost List.mem_cons_self .write) hlost
      written := fun file hfile => hfilled.read hhouses hfile
      untouched := fun file hfile => FileTree.node_congr (hsame file hfile .look)
      elsewhere := ⟨around, hfilled.rewritten⟩ }

/-- What is left of a report that fails. It fails with the fault of its first step that fails and
says nothing more. If the directory cannot be made, no file is written: there are only directories
more than before. If there are no links at the paths of the files then, and one of the files cannot
be written, those before it are there with what they hold, unless they went where nothing is kept;
and that file, those behind it, among them always the summary, and all that is elsewhere are as they
were once the directory was made. As a tree gives each file one name only, nothing is said of a file
that has two. -/
theorem file_fails (hroot : t.root.HasDirectory []) (hnames : (captures.map (·.name)).Nodup)
    (hresponses : ∀ c ∈ captures,
      ¬ (t.makeDirectories directory).files.IsLink (responsePath directory c.name))
    (hsummary : ¬ (t.makeDirectories directory).files.IsLink (summaryPath directory))
    (h : (file directory t captures).result = .error failure) :
    ∃ fault, failure = .io fault ∧ (file directory t captures).log = [] ∧
      t.root.Grows (t.makeDirectories directory).files.root [] ∧
      (t.makeDirectories directory = ⟨(file directory t captures).files, some fault⟩ ∨
        (t.makeDirectories directory).fault = none ∧
          ∃ before lost behind, contents captures = before ++ lost :: behind ∧
            Abandoned (t.makeDirectories directory).files (file directory t captures).files
              directory fault before lost behind) := by
  obtain ⟨fault, hfault, hlog, hstep⟩ := error_of_file h
  have hmade := FileTree.grows_of_makeDirectories hroot directory
  refine ⟨fault, hfault, hlog, hmade, hstep.imp_right fun hwritten => ⟨hwritten.1, ?_⟩⟩
  have hlinks : ∀ file ∈ contents captures,
      ¬ (t.makeDirectories directory).files.IsLink (directory.join file.1) := by
    intro file hm
    rcases List.mem_append.mp hm with hm | hm
    · obtain ⟨c, hc, rfl⟩ := List.mem_map.mp hm
      exact hresponses c hc
    · rw [List.mem_singleton.mp hm]
      exact hsummary
  exact abandoned_of_writeIn (hmade.kept.hasDirectory hroot) (fun _ => isPlain_of_mem_contents)
    (nodup_contents hnames) hlinks hwritten.2

def newAndLost : List Capture := [received "x" "new", received "k\x00" "lost"]

theorem file_fails_at_second :
    oneFile.root.HasDirectory [] ∧
      (file (Text.bytes "b") oneFile newAndLost).result = .error (.io .zeroByteInName) ∧
      (file (Text.bytes "b") oneFile newAndLost).files.read (Text.bytes "b/x.out") =
        .ok (Text.bytes "new") ∧
      (file (Text.bytes "b") oneFile newAndLost).files.node (Text.bytes "b/summary.json") =
        .error FileTree.noSuchEntry := by
  have hmade : (oneFile.makeDirectories (Text.bytes "b")) = ⟨oneFile, none⟩ := by cbv
  have hx : oneFile.locate .entry (responsePath (Text.bytes "b") "x") =
      .ok (.present [Text.bytes "b", Text.bytes "x.out"] (.file (Text.bytes "old"))) := by cbv
  have hk : oneFile.locate .entry (responsePath (Text.bytes "b") "k\x00") =
      .error .zeroByteInName := by cbv
  have hsummary : oneFile.locate .entry (summaryPath (Text.bytes "b")) =
      .ok (.absent [Text.bytes "b", Text.bytes "summary.json"]) := by cbv
  have hroot : oneFile.root.HasDirectory [] := ⟨_, rfl⟩
  have hresult : (file (Text.bytes "b") oneFile newAndLost).result =
      .error (.io .zeroByteInName) := by cbv
  have hresponses : ∀ c ∈ newAndLost, ¬ oneFile.IsLink (responsePath (Text.bytes "b") c.name) :=
    List.forall_mem_cons.mpr ⟨not_isLink_of_locate hx (by simp),
      List.forall_mem_singleton.mpr (not_isLink_of_locate hk (by simp))⟩
  have hnames : (newAndLost.map (·.name)).Nodup := by decide
  obtain ⟨fault, hfault, -, -, hcases⟩ := file_fails hroot hnames (hmade.symm ▸ hresponses)
    (hmade.symm ▸ not_isLink_of_locate hsummary (by simp)) hresult
  rw [hmade] at hcases
  rcases hcases with hmiss | ⟨-, before, lost, behind, hcontents, habandoned⟩
  · cases congrArg FileTree.Change.fault hmiss
  have hx : (oneFile.write (responsePath (Text.bytes "b") "x") (Text.bytes "new")).isOk = true := by
    cbv
  have hold : oneFile.node (responsePath (Text.bytes "b") "x") =
      .ok (.file (Text.bytes "old")) := by cbv
  have hmissing : oneFile.node (Text.bytes "b/summary.json") = .error FileTree.noSuchEntry := by cbv
  have hzero (t : FileTree) : t.node (responsePath (Text.bytes "b") "k\x00") =
      .error .zeroByteInName := by
    rw [FileTree.node, FileTree.locate, if_pos (by decide +kernel)]
  rcases before with _ | ⟨first, _ | ⟨other, others⟩⟩
  · obtain ⟨rfl, -⟩ := List.cons.inj hcontents
    have hfails : oneFile.write (responsePath (Text.bytes "b") "x") (Text.bytes "new") =
        .error fault := habandoned.first
    rw [hfails] at hx
    cases hx
  · obtain ⟨rfl, hrest⟩ := List.cons.inj hcontents
    obtain ⟨rfl, rfl⟩ := List.cons.inj hrest
    refine ⟨hroot, hresult, ?_, ?_⟩
    · rcases habandoned.written _ List.mem_cons_self with hread | hsink
      · exact hread
      · cases hold.symm.trans hsink
    · exact (habandoned.untouched _ (List.mem_cons_of_mem _ List.mem_cons_self)).trans hmissing
  · obtain ⟨rfl, hrest⟩ := List.cons.inj hcontents
    obtain ⟨rfl, -⟩ := List.cons.inj hrest
    rcases habandoned.written _ (List.mem_cons_of_mem _ List.mem_cons_self) with hread | hsink
    · have hlost : FileTree.read _ (responsePath (Text.bytes "b") "k\x00") = .ok _ := hread
      rw [FileTree.read, hzero] at hlost
      cases hlost
    · cases (hzero oneFile).symm.trans hsink

example :
    (file (Text.bytes "o") ⟨.directory [(Text.bytes "o", .directory [(Text.bytes "x.out", .sink)])]⟩
      newAndLost).files.read (Text.bytes "o/x.out") = .ok [] := by
  cbv

def emptyDirectory : FileTree := ⟨.directory [(Text.bytes "o", .directory [])]⟩

/-- The path of the directory goes through the name of the summary, and back. There is nothing at
the path of the summary before, and the report fails, and yet there is a directory then. -/
theorem file_fails_with_directory_for_summary :
    ([received "k\x00" "lost"].map (·.name)).Nodup ∧
      ¬ emptyDirectory.IsLink (responsePath (Text.bytes "o/summary.json/..") "k\x00") ∧
      ¬ emptyDirectory.HasEntry (summaryPath (Text.bytes "o/summary.json/..")) ∧
      (file (Text.bytes "o/summary.json/..") emptyDirectory [received "k\x00" "lost"]).result =
        .error (.io .zeroByteInName) ∧
      (file (Text.bytes "o/summary.json/..") emptyDirectory [received "k\x00" "lost"]).files.node
        (summaryPath (Text.bytes "o/summary.json/..")) = .ok (.directory []) := by
  have hk : emptyDirectory.locate .entry (responsePath (Text.bytes "o/summary.json/..") "k\x00") =
      .error .zeroByteInName := by cbv
  have hsummary : emptyDirectory.locate .entry (summaryPath (Text.bytes "o/summary.json/..")) =
      .error FileTree.noSuchEntry := by cbv
  refine ⟨List.nodup_singleton _, not_isLink_of_locate hk (by simp),
    FileTree.not_hasEntry_of_locate hsummary (by simp), ?_, ?_⟩
  all_goals cbv

end WireReplay.Report
