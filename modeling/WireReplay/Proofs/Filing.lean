import Mathlib
import WireReplay.Proofs.Loading
import WireReplay.Proofs.OneCaptureEach
import WireReplay.Proofs.ResponseNames

/-!
# Filing a report

A report on a loaded corpus goes into a new directory with one file for each payload and the
summary, if the names of the files are not too long. The first one that is ends the report: the
responses in front of it are there, those behind it and the summary are not. That a name is not too
long for the file of a payload does not say that it is not too long for the file of a response.
-/

namespace WireReplay

namespace Corpus

variable {files : FileTree} {directory : Path} {names : List Bytes} {payloads : List Payload}

theorem read_of_readAll {l : Loaded} {log : List LogLine}
    (h : readAll files directory l names = (.ok payloads, log)) {name : Bytes} (hm : name ∈ names) :
    ∃ bytes, files.read (directory.join name) = .ok bytes := by
  induction names generalizing l with
  | nil => cases hm
  | cons first rest ih =>
    rw [readAll] at h
    cases hread : files.read (directory.join first) with
    | error fault =>
      rw [hread] at h
      cases h
    | ok bytes =>
      rw [hread] at h
      obtain rfl | hm := List.mem_cons.1 hm
      · exact ⟨bytes, hread⟩
      · exact ih h hm

theorem loaded_of_load {log : List LogLine} (h : load files directory = (.ok payloads, log)) :
    ∃ names contents, payloads = (loaded directory contents names).payloads ∧
      ∀ name ∈ names, files.read (directory.join name) = .ok (contents name) := by
  unfold load at h
  split at h
  · split at h
    · rename_i entries _
      have hread (name : Bytes) (hm : name ∈ fileNames files directory entries) :
          files.read (directory.join name) =
            .ok ((files.read (directory.join name)).toOption.getD []) := by
        obtain ⟨bytes, hread⟩ := read_of_readAll h hm
        rw [hread]
        rfl
      rw [readAll_of_readable {} hread] at h
      cases h
      exact ⟨_, _, rfl, hread⟩
    · cases h
  · cases h

theorem not_mem_zero_of_read {name bytes : Bytes}
    (h : files.read (directory.join name) = .ok bytes) : 0 ∉ name := by
  have hpath : 0 ∉ directory.join name := by
    intro hm
    rw [FileTree.read, FileTree.node, FileTree.locate, if_pos hm] at h
    cases h
  exact Path.not_mem_of_join hpath

theorem not_mem_zero_stem {name : Bytes} (h : 0 ∉ name) : 0 ∉ Path.stem name := by
  unfold Path.stem
  dsimp only
  split
  · exact h
  · exact fun hm => h (List.mem_of_mem_take hm)

/-- Loaded payloads have different names, and names that can be parts of those of files. -/
theorem names_of_load {log : List LogLine} (h : load files directory = (.ok payloads, log)) :
    (payloads.map (·.name)).Nodup ∧ ∀ p ∈ payloads, '\x00' ∉ p.name.toList := by
  obtain ⟨names, contents, rfl, hread⟩ := loaded_of_load h
  refine ⟨loaded_names_nodup directory contents names, fun p hp => ?_⟩
  rw [loaded_payloads] at hp
  obtain ⟨name, hm, rfl⟩ := List.mem_map.1 hp
  have hname : name ∈ names := List.pwFilter_subset names hm
  exact Text.zero_not_mem_lossy (not_mem_zero_stem (not_mem_zero_of_read (hread name hname)))

end Corpus

namespace Replay

variable {net : Network} {settings : Settings} {payloads : List Payload} {cancelAt : Option Nat}
variable {account : Account}

theorem names_of_run (h : run net settings payloads cancelAt = some account) :
    account.captures.map (·.name) = payloads.map (·.name) := by
  obtain ⟨hline, rfl⟩ := run_eq_some_iff.1 h
  obtain hstuck | ⟨cs, hcs, he⟩ :=
    foldl_replay_accounts payloads _ (start_suits net settings payloads.length cancelAt)
  · exact absurd hstuck hline
  · have hcap : (State.after net settings payloads.length cancelAt payloads).captures = cs := he
    simp only [State.account, hcap]
    rw [eq_comm, ← List.forall₂_eq_eq_eq, List.forall₂_map_left_iff, List.forall₂_map_right_iff]
    exact hcs.imp fun p c hc => hc.name_eq.symm

end Replay

namespace Report

def responseEntries (captures : List Capture) : List (Bytes × Node) :=
  captures.map fun c => (Text.bytes (responseName c.name), .file c.received)

/-- The captures in front of the first whose response can have no file. -/
def filed (directory : Path) (captures : List Capture) : List Capture :=
  captures.takeWhile fun c => FileTree.Fits directory (Text.bytes (responseName c.name))

variable {t : FileTree} {directory : Path} {place : List Bytes}

theorem keys_responseEntries (captures : List Capture) :
    (responseEntries captures).map (·.1) =
      (captures.map (·.name)).map fun name => Text.bytes (responseName name) := by
  rw [responseEntries, List.map_map, List.map_map]
  rfl

theorem lookup_responseEntries {captures : List Capture} {key : Bytes}
    (h : ∀ c ∈ captures, key ≠ Text.bytes (responseName c.name)) :
    (responseEntries captures).lookup key = none := by
  induction captures with
  | nil => rfl
  | cons c captures ih =>
    obtain ⟨hc, hrest⟩ := List.forall_mem_cons.1 h
    rw [responseEntries, List.map_cons, List.lookup_cons, beq_false_of_ne hc]
    exact ih hrest

theorem writeEach_of_awaits (h : t.Awaits directory place) (written : List Capture)
    {captures : List Capture} (hnames : ((written ++ captures).map (·.name)).Nodup)
    (hzero : ∀ c ∈ captures, '\x00' ∉ c.name.toList) :
    writeEach directory (t.put place (.directory (responseEntries written))) captures =
      ⟨t.put place (.directory (responseEntries (written ++ filed directory captures))),
        if ∀ c ∈ captures, FileTree.Fits directory (Text.bytes (responseName c.name)) then none
        else some FileTree.nameTooLong⟩ := by
  induction captures generalizing written with
  | nil => rw [writeEach, filed, List.takeWhile_nil, List.append_nil, if_pos nofun]
  | cons c captures ih =>
    have hnew (other : Capture) (hm : other ∈ written) :
        Text.bytes (responseName c.name) ≠ Text.bytes (responseName other.name) := by
      rw [List.map_append, List.map_cons, List.nodup_append] at hnames
      intro hsame
      exact hnames.2.2 _ (List.mem_map_of_mem hm) _ List.mem_cons_self
        (responseName_injective (Text.bytes_injective hsame)).symm
    rw [writeEach, responsePath, h.write_join (isPlain_responseName (hzero c List.mem_cons_self))
      (lookup_responseEntries hnew), filed]
    by_cases hfits : FileTree.Fits directory (Text.bytes (responseName c.name))
    · have hrest := ih (written ++ [c]) (by rwa [List.append_assoc]) fun other hm =>
        hzero other (List.mem_cons_of_mem _ hm)
      rw [responseEntries, List.map_append, List.append_assoc] at hrest
      rw [if_pos hfits, FileTree.after, FileTree.Change.andThen_of_no_fault rfl,
        List.takeWhile_cons_of_pos (by rwa [decide_eq_true_iff])]
      simp only [List.forall_mem_cons, hfits, true_and]
      exact hrest
    · rw [if_neg hfits, FileTree.after, FileTree.Change.andThen_of_fault rfl,
        List.takeWhile_cons_of_neg (by rwa [decide_eq_true_iff]), List.append_nil,
        if_neg fun hall => hfits (hall c List.mem_cons_self)]

theorem writeAll_of_long (h : t.Awaits directory place)
    (hlong : FileTree.pathLimit ≤ directory.length) (captures : List Capture) :
    writeAll directory t captures = ⟨t, some FileTree.nameTooLong⟩ := by
  rw [writeAll, h.makeDirectories_of_long hlong, FileTree.Change.andThen_of_fault rfl,
    FileTree.Change.andThen_of_fault rfl]

/-- What comes of the files of a report on these captures in a new directory. -/
theorem writeAll_of_awaits (h : t.Awaits directory place) {captures : List Capture}
    (hnames : (captures.map (·.name)).Nodup) (hzero : ∀ c ∈ captures, '\x00' ∉ c.name.toList) :
    writeAll directory t captures =
      if (∀ c ∈ captures, FileTree.Fits directory (Text.bytes (responseName c.name))) ∧
          FileTree.Fits directory (Text.bytes "summary.json") then
        ⟨t.put place (.directory (responseEntries captures ++
          [(Text.bytes "summary.json", .file (Text.bytes (summary captures)))])), none⟩
      else
        ⟨if directory.length < FileTree.pathLimit then
            t.put place (.directory (responseEntries (filed directory captures)))
          else t,
          some FileTree.nameTooLong⟩ := by
  by_cases hlong : FileTree.pathLimit ≤ directory.length
  · have hsummary : ¬ FileTree.Fits directory (Text.bytes "summary.json") := fun hfits =>
      Nat.not_lt.2 hlong (hfits.length_lt isPlain_summary.notSlashed)
    rw [writeAll_of_long h hlong, if_neg fun hfits => hsummary hfits.2,
      if_neg (Nat.not_lt.2 hlong)]
  have hshort := Nat.not_le.1 hlong
  rw [if_pos hshort]
  have heach := writeEach_of_awaits h [] hnames hzero
  have hresponses : (t.makeDirectories directory).andThen (writeEach directory · captures) =
      ⟨t.put place (.directory (responseEntries (filed directory captures))),
        if ∀ c ∈ captures, FileTree.Fits directory (Text.bytes (responseName c.name)) then none
        else some FileTree.nameTooLong⟩ := by
    rw [h.makeDirectories hshort, FileTree.Change.andThen_of_no_fault rfl]
    exact heach
  rw [writeAll, hresponses]
  by_cases hall : ∀ c ∈ captures, FileTree.Fits directory (Text.bytes (responseName c.name))
  · have hfiled : filed directory captures = captures :=
      List.takeWhile_eq_self_iff.2 fun c hc => decide_eq_true (hall c hc)
    rw [if_pos hall, FileTree.Change.andThen_of_no_fault rfl, hfiled, summaryPath,
      h.write_join isPlain_summary
        (lookup_responseEntries fun c _ => (responseName_ne_summary c.name).symm)]
    by_cases hsummary : FileTree.Fits directory (Text.bytes "summary.json")
    · rw [if_pos hsummary, if_pos ⟨hall, hsummary⟩]
      rfl
    · rw [if_neg hsummary, if_neg fun h => hsummary h.2]
      rfl
  · rw [if_neg hall, FileTree.Change.andThen_of_fault rfl, if_neg fun h => hall h.1]

theorem file_of_awaits (h : t.Awaits directory place) {payloads : List Payload}
    {captures : List Capture} (hnames : captures.map (·.name) = payloads.map (·.name))
    (hdistinct : (payloads.map (·.name)).Nodup)
    (hzero : ∀ p ∈ payloads, '\x00' ∉ p.name.toList) :
    file directory t captures =
      if (∀ p ∈ payloads, FileTree.Fits directory (Text.bytes (responseName p.name))) ∧
          FileTree.Fits directory (Text.bytes "summary.json") then
        ⟨.ok (summaryPath directory),
          t.put place (.directory (responseEntries captures ++
            [(Text.bytes "summary.json", .file (Text.bytes (summary captures)))])),
          [.info s!"Wrote {payloads.length} responses to {directory.display}"]⟩
      else
        ⟨.error (.io FileTree.nameTooLong),
          if directory.length < FileTree.pathLimit then
            t.put place (.directory (responseEntries (filed directory captures)))
          else t,
          []⟩ := by
  have hlength : captures.length = payloads.length := by
    rw [← List.length_map, hnames, List.length_map]
  have hcaptures (P : String → Prop) : (∀ c ∈ captures, P c.name) ↔ ∀ p ∈ payloads, P p.name := by
    rw [← List.forall_mem_map, hnames, List.forall_mem_map]
  rw [← hnames] at hdistinct
  rw [file, writeAll_of_awaits h hdistinct ((hcaptures ('\x00' ∉ ·.toList)).2 hzero), hlength]
  simp only [hcaptures fun name => FileTree.Fits directory (Text.bytes (responseName name))]
  by_cases hfits : (∀ p ∈ payloads, FileTree.Fits directory (Text.bytes (responseName p.name))) ∧
      FileTree.Fits directory (Text.bytes "summary.json")
  · rw [if_pos hfits, if_pos hfits]
  · rw [if_neg hfits, if_neg hfits]

/-- What a report on a run of a loaded corpus leaves in a new directory. If all names are short
enough, that is one file with what was received for each payload, under different names, and the
summary. Else the report fails at the first name that is not, or before that, without a directory,
if its path is too long on its own. -/
theorem file_of_run {files t : FileTree} {corpus directory : Path} {payloads : List Payload}
    {log : List LogLine} {net : Network} {settings : Replay.Settings}
    {cancelAt : Option Nat} {account : Replay.Account} {place : List Bytes}
    (hload : Corpus.load files corpus = (.ok payloads, log))
    (hrun : Replay.run net settings payloads cancelAt = some account)
    (hawaits : t.Awaits directory place) :
    account.captures.map (·.name) = payloads.map (·.name) ∧
      ((responseEntries account.captures).map (·.1)).Nodup ∧
      file directory t account.captures =
        if (∀ p ∈ payloads, FileTree.Fits directory (Text.bytes (responseName p.name))) ∧
            FileTree.Fits directory (Text.bytes "summary.json") then
          ⟨.ok (summaryPath directory),
            t.put place (.directory (responseEntries account.captures ++
              [(Text.bytes "summary.json", .file (Text.bytes (summary account.captures)))])),
            [.info s!"Wrote {payloads.length} responses to {directory.display}"]⟩
        else
          ⟨.error (.io FileTree.nameTooLong),
            if directory.length < FileTree.pathLimit then
              t.put place (.directory (responseEntries (filed directory account.captures)))
            else t,
            []⟩ := by
  have hnames := Replay.names_of_run hrun
  obtain ⟨hdistinct, hzero⟩ := Corpus.names_of_load hload
  refine ⟨hnames, ?_, file_of_awaits hawaits hnames hdistinct hzero⟩
  rw [keys_responseEntries, hnames]
  exact hdistinct.map fun _ _ hsame => responseName_injective (Text.bytes_injective hsame)

theorem awaits_new : FileTree.Awaits {} (Text.bytes "o") [Text.bytes "o"] where
  root := ⟨[], rfl⟩
  absent := by cbv

/-- Two payloads, one of them with a sign in its name that has to be replaced. -/
def twoCorpus : FileTree :=
  ⟨.directory [(Text.bytes "d", .directory
    [(Text.bytes "c.txt", .file [0x63]), (Text.bytes "a%b.bin", .file [0x61])])]⟩

theorem file_of_run_of_two :
    ∃ account, Corpus.load twoCorpus (Text.bytes "d") =
        (.ok [⟨"a%b", [0x61]⟩, ⟨"c", [0x63]⟩], []) ∧
      Replay.run ⟨"peer", [{ read := [.act .eof] }]⟩ {} [⟨"a%b", [0x61]⟩, ⟨"c", [0x63]⟩] =
        some account ∧
      FileTree.Awaits {} (Text.bytes "o") [Text.bytes "o"] ∧
      (responseEntries account.captures).map (·.1) = [Text.bytes "a%25b.out", Text.bytes "c.out"] ∧
      (file (Text.bytes "o") {} account.captures).result = .ok (Text.bytes "o/summary.json") := by
  have hload : Corpus.load twoCorpus (Text.bytes "d") =
      (.ok [⟨"a%b", [0x61]⟩, ⟨"c", [0x63]⟩], []) := by cbv
  have hsome : (Replay.run ⟨"peer", [{ read := [.act .eof] }]⟩ {}
      [⟨"a%b", [0x61]⟩, ⟨"c", [0x63]⟩]).isSome = true := by decide +kernel
  obtain ⟨account, hrun⟩ := Option.isSome_iff_exists.1 hsome
  obtain ⟨hnames, -, hfile⟩ := file_of_run hload hrun awaits_new
  have hpath : summaryPath (Text.bytes "o") = Text.bytes "o/summary.json" := by decide +kernel
  refine ⟨account, hload, hrun, awaits_new, ?_, ?_⟩
  · rw [keys_responseEntries, hnames]
    decide +kernel
  · rw [hfile, if_pos (by decide +kernel), hpath]

def signCorpus : FileTree :=
  ⟨.directory [(Text.bytes "d", .directory [(List.replicate 84 0x25, .file [0x73])])]⟩

def signPayload : Payload := ⟨String.ofList (List.replicate 84 '%'), [0x73]⟩

theorem not_fits_signs :
    ¬ FileTree.Fits (Text.bytes "o") (Text.bytes (responseName signPayload.name)) := by
  have hsigns : signPayload.name.toList = List.replicate 84 '%' := String.toList_ofList
  rw [bytes_responseName, hsigns]
  decide +kernel

/-- The name of the file is not too long, but that of the response is. -/
theorem file_fails_of_signs :
    ∃ account, Corpus.load signCorpus (Text.bytes "d") = (.ok [signPayload], []) ∧
      Replay.run ⟨"peer", []⟩ {} [signPayload] (some 0) = some account ∧
      FileTree.Awaits {} (Text.bytes "o") [Text.bytes "o"] ∧
      (file (Text.bytes "o") {} account.captures).result = .error (.io FileTree.nameTooLong) := by
  have hload : Corpus.load signCorpus (Text.bytes "d") = (.ok [signPayload], []) := by cbv
  have hsome : (Replay.run ⟨"peer", []⟩ {} [signPayload] (some 0)).isSome = true := by
    decide +kernel
  obtain ⟨account, hrun⟩ := Option.isSome_iff_exists.1 hsome
  obtain ⟨hdistinct, hzero⟩ := Corpus.names_of_load hload
  have hfile := file_of_awaits awaits_new (Replay.names_of_run hrun) hdistinct hzero
  rw [if_neg fun h => not_fits_signs (h.1 signPayload (List.mem_singleton_self _))] at hfile
  exact ⟨account, hload, hrun, awaits_new, congrArg Filed.result hfile⟩

end Report

end WireReplay
