import Mathlib
import WireReplay.Proofs.Overwriting
import WireReplay.Proofs.ResponseNames

/-!
# The files that a report adds

A report is a list of files for one directory, and no two of them have the same name. Once the
directory is there, the path of each of them leads into it, whatever is written before: so where
there was nothing at these paths, each write adds its file and nothing else, and takes nothing from
the files that were written before or from those of others.

To look for the paths before the directory is made is not enough: a path may go through a directory
that is only made then, and back out of it.
-/

namespace WireReplay

namespace FileTree

/-- There is something at a path, if only a link that leads nowhere. -/
def HasEntry (t : FileTree) (p : Path) : Prop :=
  ∃ place node, t.locate .entry p = .ok (.present place node)

theorem not_hasEntry_of_locate {t : FileTree} {p : Path} {found : Except Fault Spot}
    (h : t.locate .entry p = found) (hfound : ∀ place node, found ≠ .ok (.present place node)) :
    ¬ t.HasEntry p := by
  rintro ⟨place, node, hentry⟩
  exact hfound place node (h.symm.trans hentry)

section Houses

variable {t t' : FileTree} {directory : Path} {around : List Bytes} {name bytes : Bytes}

theorem Houses.at?_eq_none (h : t.Houses directory around) (hname : Path.IsPlain name)
    (hfits : Fits directory name) (hnew : ¬ t.HasEntry (directory.join name)) :
    t.root.at? (around ++ [name]) = none := by
  obtain ⟨links, hlocate⟩ := h.locate hname
  cases hnode : t.root.at? (around ++ [name]) with
  | none => rfl
  | some node =>
    refine absurd ?_ hnew
    have hentry := hlocate .entry
    rw [if_pos hfits, hnode] at hentry
    cases node with
    | directory entries =>
      rw [enter, walk] at hentry
      exact ⟨_, _, hentry⟩
    | file | link | pipe | sink => exact ⟨_, _, hentry⟩

end Houses

end FileTree

namespace Report

theorem zero_mem_encodeName {name : List Char} (h : '\x00' ∈ name) : '\x00' ∈ encodeName name := by
  fun_induction encodeName name with
  | case1 => cases h
  | case2 rest ih | case3 rest ih | case4 rest ih | case5 c rest hmark hslash hback ih => grind

theorem isPlain_of_not_mem_zero {name : String} (h : 0 ∉ Text.bytes (responseName name)) :
    Path.IsPlain (Text.bytes (responseName name)) := by
  refine isPlain_responseName fun hzero => h ?_
  rw [bytes_responseName]
  exact List.mem_append_left _
    (List.mem_flatMap.mpr ⟨'\x00', zero_mem_encodeName hzero, by decide⟩)

/-- The files of a report: their names in its directory, and what they hold. -/
def contents (captures : List Capture) : List (Bytes × Bytes) :=
  (captures.map fun c => (Text.bytes (responseName c.name), c.received)) ++
    [(Text.bytes "summary.json", Text.bytes (summary captures))]

variable {t : FileTree} {directory : Path} {captures : List Capture}

theorem isPlain_of_mem_contents {file : Bytes × Bytes} (h : file ∈ contents captures)
    (hzero : 0 ∉ file.1) : Path.IsPlain file.1 := by
  rcases List.mem_append.mp h with hm | hm
  · obtain ⟨c, -, rfl⟩ := List.mem_map.mp hm
    dsimp only at hzero ⊢
    exact isPlain_of_not_mem_zero hzero
  · rw [List.mem_singleton.mp hm]
    exact isPlain_summary

theorem nodup_contents (h : (captures.map (·.name)).Nodup) :
    ((contents captures).map (·.1)).Nodup := by
  have hnames : (contents captures).map (·.1) =
      ((captures.map (·.name)).map fun name => Text.bytes (responseName name)) ++
        [Text.bytes "summary.json"] := by
    simp only [contents, List.map_append, List.map_map, List.map_singleton, Function.comp_def]
  rw [hnames, List.nodup_append]
  refine ⟨h.map fun _ _ hsame => responseName_injective (Text.bytes_injective hsame),
    List.nodup_singleton _, fun response hm other hother => ?_⟩
  obtain ⟨name, -, rfl⟩ := List.mem_map.mp hm
  rw [List.mem_singleton.mp hother]
  exact responseName_ne_summary name

theorem writeEach_eq (directory : Path) (t : FileTree) (captures : List Capture) :
    writeEach directory t captures = t.writeIn directory
      (captures.map fun c => (Text.bytes (responseName c.name), c.received)) := by
  induction captures generalizing t with
  | nil => rfl
  | cons c captures ih =>
    rw [writeEach, List.map_cons, FileTree.writeIn]
    simp only [ih]
    rfl

theorem writeAll_eq (directory : Path) (t : FileTree) (captures : List Capture) :
    writeAll directory t captures =
      (t.makeDirectories directory).andThen (·.writeIn directory (contents captures)) := by
  have hsummary (t : FileTree) :
      t.after (t.write (summaryPath directory) (Text.bytes (summary captures))) =
        t.writeIn directory [(Text.bytes "summary.json", Text.bytes (summary captures))] := by
    rw [FileTree.writeIn, summaryPath]
    cases t.write (directory.join (Text.bytes "summary.json")) (Text.bytes (summary captures)) <;>
      rfl
  simp only [writeAll, contents, FileTree.writeIn_append, FileTree.Change.andThen_assoc,
    writeEach_eq, hsummary]

theorem writeIn_of_file {path : Path} (h : (file directory t captures).result = .ok path) :
    path = summaryPath directory ∧
      (t.makeDirectories directory).files.writeIn directory (contents captures) =
        ⟨(file directory t captures).files, none⟩ := by
  unfold file at h ⊢
  split at h
  · cases h
  · rename_i files hall
    rw [writeAll_eq] at hall
    have hwritten := FileTree.Change.fault_of_andThen (congrArg FileTree.Change.fault hall)
    exact ⟨(Except.ok.inj h).symm, hwritten.symm.trans hall⟩

/-- What a report adds, and what it leaves alone. If there is nothing at the paths of its files once
the directory is made, and it succeeds, each response and the summary is read at its path. Of the
files in the tree these are new, one for each name, all in the directory to which the path leads;
the others are where they were, and whichever path led to one of them still does. -/
theorem file_adds (hroot : t.root.HasDirectory []) (hnames : (captures.map (·.name)).Nodup)
    (hresponses : ∀ c ∈ captures,
      ¬ (t.makeDirectories directory).files.HasEntry (responsePath directory c.name))
    (hsummary : ¬ (t.makeDirectories directory).files.HasEntry (summaryPath directory))
    {path : Path} (h : (file directory t captures).result = .ok path) :
    path = summaryPath directory ∧
      (∀ c ∈ captures, (file directory t captures).files.read (responsePath directory c.name) =
        .ok c.received) ∧
      (file directory t captures).files.read (summaryPath directory) =
        .ok (Text.bytes (summary captures)) ∧
      ((contents captures).map (·.1)).Nodup ∧
      (∃ around, t.root.Grows (file directory t captures).files.root
        ((contents captures).map fun file => (around ++ [file.1], file.2))) ∧
      ∀ p bytes, t.read p = .ok bytes → (file directory t captures).files.read p = .ok bytes := by
  obtain ⟨hpath, hfiles⟩ := writeIn_of_file h
  have hmade := FileTree.grows_of_makeDirectories hroot directory
  generalize (t.makeDirectories directory).files = made at hresponses hsummary hfiles hmade
  have hfault : (made.writeIn directory (contents captures)).fault = none := by rw [hfiles]
  have hentry : ∀ file ∈ contents captures, ¬ made.HasEntry (directory.join file.1) := by
    intro file hm
    rcases List.mem_append.mp hm with hm | hm
    · obtain ⟨c, hc, rfl⟩ := List.mem_map.mp hm
      simpa only [responsePath] using hresponses c hc
    · rw [List.mem_singleton.mp hm]
      simpa only [summaryPath] using hsummary
  obtain ⟨first, rest, hcontents⟩ : ∃ first rest, contents captures = first :: rest :=
    List.exists_cons_of_ne_nil (by simp [contents])
  obtain ⟨around, hhouses⟩ : ∃ around, made.Houses directory around := by
    rw [hcontents] at hfault
    obtain ⟨_, hwrite, -⟩ := FileTree.writeIn_cons_of_no_fault hfault
    have hfirst : first ∈ contents captures := hcontents ▸ List.mem_cons_self
    exact FileTree.houses_of_write (hmade.kept.hasDirectory hroot)
      (isPlain_of_mem_contents hfirst) hwrite
  obtain ⟨hgrows, hreads⟩ := FileTree.grows_of_writeIn hhouses
    (fun _ hm => isPlain_of_mem_contents hm) (nodup_contents hnames)
    (fun file hm hname hfits => hhouses.at?_eq_none hname hfits (hentry file hm)) hfault
  rw [hfiles] at hgrows hreads
  have hall := hmade.trans hgrows
  refine ⟨hpath, fun c hc => ?_, ?_, nodup_contents hnames, ⟨around, hall⟩, fun p bytes => ?_⟩
  · have hread := hreads _ (List.mem_append_left _ (List.mem_map_of_mem hc))
    simpa only [responsePath] using hread
  · have hread := hreads _ (List.mem_append_right _ (List.mem_singleton_self _))
    simpa only [summaryPath] using hread
  · exact FileTree.read_of_extends hroot hall.kept

def oneFile : FileTree :=
  ⟨.directory [(Text.bytes "b", .directory [(Text.bytes "x.out", .file (Text.bytes "old"))])]⟩

def received (name reply : String) : Capture where
  name
  sent := []
  received := Text.bytes reply
  outcome := .ok
  error := none
  elapsed := .ofMillis 0

/-- The name of the payload has a way out of the directory, which is not taken. -/
theorem file_adds_beside :
    oneFile.root.HasDirectory [] ∧
      (file (Text.bytes "b") oneFile [received "../x" "new"]).result =
        .ok (summaryPath (Text.bytes "b")) ∧
      (file (Text.bytes "b") oneFile [received "../x" "new"]).files.read
        (Text.bytes "b/..%2Fx.out") = .ok (Text.bytes "new") ∧
      (file (Text.bytes "b") oneFile [received "../x" "new"]).files.read (Text.bytes "b/x.out") =
        .ok (Text.bytes "old") := by
  have hmade : (oneFile.makeDirectories (Text.bytes "b")).files = oneFile := by cbv
  have hresponse : oneFile.locate .entry (responsePath (Text.bytes "b") "../x") =
      .ok (.absent [Text.bytes "b", Text.bytes "..%2Fx.out"]) := by cbv
  have hsummary : oneFile.locate .entry (summaryPath (Text.bytes "b")) =
      .ok (.absent [Text.bytes "b", Text.bytes "summary.json"]) := by cbv
  have hold : oneFile.read (Text.bytes "b/x.out") = .ok (Text.bytes "old") := by cbv
  have hpath : responsePath (Text.bytes "b") "../x" = Text.bytes "b/..%2Fx.out" := by cbv
  have hroot : oneFile.root.HasDirectory [] := ⟨_, rfl⟩
  have hresult : (file (Text.bytes "b") oneFile [received "../x" "new"]).result =
      .ok (summaryPath (Text.bytes "b")) := by cbv
  have hresponses : ∀ c ∈ [received "../x" "new"],
      ¬ oneFile.HasEntry (responsePath (Text.bytes "b") c.name) :=
    List.forall_mem_singleton.mpr (FileTree.not_hasEntry_of_locate hresponse (by simp))
  have hnames : ([received "../x" "new"].map (·.name)).Nodup := List.nodup_singleton _
  have hadds := file_adds hroot hnames (hmade.symm ▸ hresponses)
    (hmade.symm ▸ FileTree.not_hasEntry_of_locate hsummary (by simp)) hresult
  refine ⟨hroot, hresult, ?_, hadds.2.2.2.2.2 _ _ hold⟩
  rw [← hpath]
  exact hadds.2.1 (received "../x" "new") (List.mem_singleton_self _)

/-- The path of the directory goes through one that is missing. So there is nothing at the paths of
the files before it is made, and yet a file is replaced. -/
theorem file_replaces_behind_missing :
    ([received "x" "new"].map (·.name)).Nodup ∧
      (∀ c ∈ [received "x" "new"],
        ¬ oneFile.HasEntry (responsePath (Text.bytes "a/../b") c.name)) ∧
      ¬ oneFile.HasEntry (summaryPath (Text.bytes "a/../b")) ∧
      (file (Text.bytes "a/../b") oneFile [received "x" "new"]).result =
        .ok (summaryPath (Text.bytes "a/../b")) ∧
      oneFile.read (Text.bytes "b/x.out") = .ok (Text.bytes "old") ∧
      (file (Text.bytes "a/../b") oneFile [received "x" "new"]).files.read (Text.bytes "b/x.out") =
        .ok (Text.bytes "new") := by
  have hresponse : oneFile.locate .entry (responsePath (Text.bytes "a/../b") "x") =
      .error FileTree.noSuchEntry := by cbv
  have hsummary : oneFile.locate .entry (summaryPath (Text.bytes "a/../b")) =
      .error FileTree.noSuchEntry := by cbv
  refine ⟨List.nodup_singleton _,
    List.forall_mem_singleton.mpr (FileTree.not_hasEntry_of_locate hresponse (by simp)),
    FileTree.not_hasEntry_of_locate hsummary (by simp), ?_, ?_, ?_⟩
  all_goals cbv

end Report

end WireReplay
