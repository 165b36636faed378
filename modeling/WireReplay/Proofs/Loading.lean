import Mathlib
import WireReplay.Corpus
import WireReplay.Proofs.Rearranged

/-!
# What a corpus loads

The files of a corpus are read in the order of the bytes of their names. Each takes the place of
those before it of which the payload has the same name, so what is loaded are the files behind which
no other of that name comes, and each of the others leaves a warning. The order in which the
directory enumerates its entries cannot be told.
-/

namespace WireReplay

section LastOfEach

variable {α : Type} {R : α → α → Prop} [DecidableRel R]

theorem forall_mem_pwFilter_iff (htrans : ∀ x y z, R x z → R x y ∨ R y z) (x : α) (l : List α) :
    (∀ y ∈ l.pwFilter R, R x y) ↔ ∀ y ∈ l, R x y :=
  List.forall_mem_pwFilter (fun {x y z} h => htrans x y z h) x l

/-- An element at the end displaces those of the kept ones that do not get on with it. -/
theorem pwFilter_concat (htrans : ∀ x y z, R x z → R x y ∨ R y z) (l : List α) (a : α) :
    (l ++ [a]).pwFilter R = (l.pwFilter R).filter (R · a) ++ [a] := by
  induction l with
  | nil => rfl
  | cons x l ih =>
    rw [List.cons_append]
    by_cases hx : ∀ y ∈ l.pwFilter R, R x y
    · rw [List.pwFilter_cons_of_pos hx]
      by_cases ha : R x a
      · rw [List.pwFilter_cons_of_pos, ih, List.filter_cons_of_pos (by rwa [decide_eq_true_iff]),
          List.cons_append]
        intro y hy
        rw [ih, List.mem_append, List.mem_singleton] at hy
        obtain hy | rfl := hy
        · exact hx y (List.mem_filter.1 hy).1
        · exact ha
      · rw [List.pwFilter_cons_of_neg, ih,
          List.filter_cons_of_neg (by rwa [decide_eq_true_iff])]
        exact fun h => ha (h a (by rw [ih]; simp))
    · rw [List.pwFilter_cons_of_neg hx, List.pwFilter_cons_of_neg, ih]
      intro h
      apply hx
      rw [forall_mem_pwFilter_iff htrans] at h ⊢
      exact fun y hy => h y (List.mem_append_left _ hy)

/-- The kept elements are those that get on with all that come behind them. -/
theorem pwFilter_eq_filter_finRange (htrans : ∀ x y z, R x z → R x y ∨ R y z) (l : List α) :
    l.pwFilter R =
      ((List.finRange l.length).filter fun i => decide (∀ j, i < j → R (l.get i) (l.get j))).map
        l.get := by
  induction l with
  | nil => rfl
  | cons x l ih =>
    have hhead : (∀ j, (0 : Fin (l.length + 1)) < j → R x ((x :: l).get j)) ↔
        ∀ y ∈ l.pwFilter R, R x y := by
      rw [forall_mem_pwFilter_iff htrans, List.forall_mem_iff_get, Fin.forall_fin_succ]
      exact ⟨fun h i => h.2 i (Fin.succ_pos i), fun h => ⟨nofun, fun i _ => h i⟩⟩
    have hrest : (((List.finRange l.length).map Fin.succ).filter fun i : Fin (l.length + 1) =>
          decide (∀ j, i < j → R ((x :: l).get i) ((x :: l).get j))).map (x :: l).get =
        l.pwFilter R := by
      rw [ih, List.filter_map, List.map_map]
      refine congrArg (List.map _) (List.filter_congr fun i _ => ?_)
      rw [Function.comp_apply, decide_eq_decide, Fin.forall_fin_succ]
      exact ⟨fun h j hj => h.2 j (Fin.succ_lt_succ_iff.2 hj),
        fun h => ⟨nofun, fun j hj => h j (Fin.succ_lt_succ_iff.1 hj)⟩⟩
    change _ = ((List.finRange (l.length + 1)).filter fun i : Fin (l.length + 1) =>
      decide (∀ j, i < j → R ((x :: l).get i) ((x :: l).get j))).map (x :: l).get
    rw [List.finRange_succ]
    by_cases hx : ∀ y ∈ l.pwFilter R, R x y
    · rw [List.pwFilter_cons_of_pos hx, List.filter_cons_of_pos, List.map_cons, hrest]
      · rfl
      · rw [decide_eq_true_iff]
        exact hhead.2 hx
    · rw [List.pwFilter_cons_of_neg hx, List.filter_cons_of_neg, hrest]
      rw [decide_eq_true_iff]
      exact fun h => hx (hhead.1 h)

end LastOfEach

namespace Corpus

def payloadName (name : Bytes) : String := Text.lossy (Path.stem name)

def payload (contents : Bytes → Bytes) (name : Bytes) : Payload := ⟨payloadName name, contents name⟩

def duplicate (directory : Path) (name : Bytes) : LogLine :=
  .warn s!"Duplicate test name '{payloadName name}', keeping {(directory.join name).display}"

def Apart (name other : Bytes) : Prop := payloadName name ≠ payloadName other

instance : DecidableRel Apart := fun name other =>
  inferInstanceAs (Decidable (payloadName name ≠ payloadName other))

theorem apart_or_apart (x y z : Bytes) (h : Apart x z) : Apart x y ∨ Apart y z :=
  Classical.or_iff_not_imp_left.2 fun hxy hyz => h ((Classical.not_not.1 hxy).trans hyz)

/-- What is loaded from files of a directory that hold these contents. -/
def loaded (directory : Path) (contents : Bytes → Bytes) (names : List Bytes) : Loaded :=
  names.foldl (fun l name => l.add (payload contents name) (directory.join name)) {}

section Loaded

variable {directory : Path} {contents : Bytes → Bytes} {names : List Bytes}

theorem loaded_concat (directory : Path) (contents : Bytes → Bytes) (names : List Bytes)
    (name : Bytes) :
    loaded directory contents (names ++ [name]) =
      (loaded directory contents names).add (payload contents name) (directory.join name) := by
  rw [loaded, List.foldl_concat]
  rfl

theorem add_payloads (l : Loaded) (p : Payload) (path : Path) :
    (l.add p path).payloads = l.payloads.filter (·.name != p.name) ++ [p] := by
  unfold Loaded.add
  split_ifs with hany
  · rfl
  · refine congrArg (· ++ [p]) (List.filter_eq_self.2 fun other hm => ?_).symm
    rw [bne_iff_ne]
    exact fun hn => hany (List.any_eq_true.2 ⟨other, hm, beq_iff_eq.2 hn⟩)

theorem loaded_payloads (directory : Path) (contents : Bytes → Bytes) (names : List Bytes) :
    (loaded directory contents names).payloads = (names.pwFilter Apart).map (payload contents) := by
  induction names using List.reverseRecOn with
  | nil => rfl
  | append_singleton names name ih =>
    rw [loaded_concat, add_payloads, ih, pwFilter_concat apart_or_apart, List.map_append,
      List.filter_map]
    refine congrArg (List.map _ · ++ _) (List.filter_congr fun other _ => ?_)
    rw [Function.comp_apply, Bool.eq_iff_iff, bne_iff_ne, decide_eq_true_iff]
    exact Iff.rfl

theorem loaded_names_nodup (directory : Path) (contents : Bytes → Bytes) (names : List Bytes) :
    ((loaded directory contents names).payloads.map (·.name)).Nodup := by
  rw [loaded_payloads, List.map_map]
  exact List.pairwise_map.2 (List.pairwise_pwFilter names)

theorem length_filter_name {payloads : List Payload} (hd : (payloads.map (·.name)).Nodup)
    {name : String} (hany : payloads.any (·.name == name) = true) :
    (payloads.filter (·.name != name)).length + 1 = payloads.length := by
  obtain ⟨p, hp, hname⟩ := List.any_eq_true.1 hany
  have hone : payloads.countP (·.name == name) = 1 := by
    have hcount := List.count_eq_one_of_mem hd (List.mem_map_of_mem hp)
    rw [← beq_iff_eq.1 hname, ← hcount, List.count, List.countP_map]
    rfl
  have hothers : payloads.countP (fun other => decide ¬(other.name == name) = true) =
      (payloads.filter (·.name != name)).length := by
    rw [List.countP_eq_length_filter]
    refine congrArg List.length (List.filter_congr fun other _ => ?_)
    cases hn : other.name == name <;> simp [bne, hn]
  rw [List.length_eq_countP_add_countP (·.name == name) (l := payloads), hone, hothers,
    Nat.add_comm]

/-- Each file either adds a payload or leaves a warning. -/
theorem loaded_length (directory : Path) (contents : Bytes → Bytes) (names : List Bytes) :
    (loaded directory contents names).log.length +
      (loaded directory contents names).payloads.length = names.length := by
  induction names using List.reverseRecOn with
  | nil => rfl
  | append_singleton names name ih =>
    rw [loaded_concat, List.length_append, List.length_singleton, ← ih]
    unfold Loaded.add
    split_ifs with hany
    · have hone := length_filter_name (loaded_names_nodup directory contents names) hany
      simp only [List.length_append, List.length_singleton]
      omega
    · simp only [List.length_append, List.length_singleton]
      omega

theorem mem_loaded_log {line : LogLine} (h : line ∈ (loaded directory contents names).log) :
    ∃ name ∈ names, line = duplicate directory name := by
  induction names using List.reverseRecOn with
  | nil => exact absurd h List.not_mem_nil
  | append_singleton names name ih =>
    have hearlier (hm : line ∈ (loaded directory contents names).log) :
        ∃ other ∈ names ++ [name], line = duplicate directory other := by
      obtain ⟨other, hother, hline⟩ := ih hm
      exact ⟨other, List.mem_append_left _ hother, hline⟩
    rw [loaded_concat] at h
    unfold Loaded.add at h
    split_ifs at h with hany
    · obtain hm | hm := List.mem_append.1 h
      · exact hearlier hm
      · exact ⟨name, by simp, List.mem_singleton.1 hm⟩
    · exact hearlier h

end Loaded

section Reading

variable {files : FileTree} {directory : Path} {contents : Bytes → Bytes} {names : List Bytes}

theorem readAll_of_readable (l : Loaded)
    (h : ∀ name ∈ names, files.read (directory.join name) = .ok (contents name)) :
    readAll files directory l names =
      (.ok (names.foldl (fun l name => l.add (payload contents name) (directory.join name))
          l).payloads,
        (names.foldl (fun l name => l.add (payload contents name) (directory.join name)) l).log) := by
  induction names generalizing l with
  | nil => rfl
  | cons name names ih =>
    rw [readAll, h name List.mem_cons_self, List.foldl_cons]
    exact ih _ fun other hm => h other (List.mem_cons_of_mem _ hm)

theorem isDirectory_of_entries {entries : List (Bytes × Node)}
    (h : files.entries directory = .ok entries) : files.isDirectory directory = true := by
  unfold FileTree.entries at h
  unfold FileTree.isDirectory
  split at h <;> cases h
  rename_i hnode
  rw [hnode]
  rfl

theorem pairwise_fileNames (files : FileTree) (directory : Path) (entries : List (Bytes × Node)) :
    (fileNames files directory entries).Pairwise (· ≤ ·) := by
  have hsorted : (fileNames files directory entries).Pairwise fun a b => decide (a ≤ b) = true := by
    refine List.pairwise_mergeSort (fun a b c hab hbc => ?_) (fun a b => ?_) _
    · exact decide_eq_true (List.le_trans (of_decide_eq_true hab) (of_decide_eq_true hbc))
    · rw [Bool.or_eq_true, decide_eq_true_iff, decide_eq_true_iff]
      exact List.le_total a b
  exact hsorted.imp of_decide_eq_true

theorem eq_of_perm_of_pairwise {names names' : List Bytes} (h : names.Pairwise (· ≤ ·))
    (h' : names'.Pairwise (· ≤ ·)) (hp : names.Perm names') : names = names' :=
  hp.eq_of_pairwise (fun _ _ _ _ hab hba => List.le_antisymm hab hba) h h'

/-- A regular file or a link to one, with a name that is not hidden. -/
def IsSeed (files : FileTree) (directory : Path) (name : Bytes) (node : Node) : Prop :=
  name.head? ≠ some Path.dot ∧ ((∃ bytes, node = .file bytes) ∨
    (∃ target, node = .link target) ∧ files.isFile (directory.join name) = true)

theorem holdsPayload_iff {name : Bytes} {node : Node} :
    holdsPayload files directory (name, node) = true ↔ IsSeed files directory name node := by
  rw [holdsPayload, Bool.and_eq_true, bne_iff_ne, IsSeed]
  cases node <;> simp

theorem mem_fileNames_iff {entries : List (Bytes × Node)} {name : Bytes} :
    name ∈ fileNames files directory entries ↔
      ∃ node, (name, node) ∈ entries ∧ IsSeed files directory name node := by
  rw [fileNames, List.mem_mergeSort, List.mem_map]
  constructor
  · rintro ⟨⟨first, node⟩, hm, rfl⟩
    obtain ⟨hm, hseed⟩ := List.mem_filter.1 hm
    exact ⟨node, hm, holdsPayload_iff.1 hseed⟩
  · rintro ⟨node, hm, hseed⟩
    exact ⟨(name, node), List.mem_filter.2 ⟨hm, holdsPayload_iff.2 hseed⟩, rfl⟩

theorem fileNames_eq {entries : List (Bytes × Node)} (hd : (entries.map (·.1)).Nodup)
    (hsorted : names.Pairwise (· < ·))
    (hnames : ∀ name, name ∈ names ↔
      ∃ node, (name, node) ∈ entries ∧ IsSeed files directory name node) :
    fileNames files directory entries = names := by
  refine eq_of_perm_of_pairwise (pairwise_fileNames files directory entries)
    (hsorted.imp fun h => List.le_of_lt h) ?_
  have hdistinct : ((entries.filter (holdsPayload files directory)).map (·.1)).Nodup :=
    hd.sublist (List.filter_sublist.map _)
  refine (List.perm_ext_iff_of_nodup ?_ (hsorted.imp fun h => ?_)).2 fun name => ?_
  · exact (List.mergeSort_perm _ _).nodup_iff.2 hdistinct
  · rintro rfl
    exact List.lt_irrefl _ h
  · rw [mem_fileNames_iff, hnames]

end Reading

section Order

variable {files files' : FileTree} {directory : Path}

theorem holdsPayload_of_rearranged (h : files.root.Rearranged files'.root) {name : Bytes}
    {node node' : Node} (hnode : node.Rearranged node') :
    holdsPayload files' directory (name, node') = holdsPayload files directory (name, node) := by
  unfold holdsPayload
  cases hnode with
  | directory => rfl
  | refl => rw [FileTree.isFile_eq_of_rearranged h]

theorem filter_names_of_rearranged (h : files.root.Rearranged files'.root)
    {moved entries' : List (Bytes × Node)} (hnames : entries'.map (·.1) = moved.map (·.1))
    (hnodes : List.Forall₂ Node.Rearranged (moved.map (·.2)) (entries'.map (·.2))) :
    (entries'.filter (holdsPayload files' directory)).map (·.1) =
      (moved.filter (holdsPayload files directory)).map (·.1) := by
  induction moved generalizing entries' with
  | nil =>
    cases List.map_eq_nil_iff.1 hnames
    rfl
  | cons entry rest ih =>
    obtain ⟨entry', rest', rfl, hfirst, hrest⟩ := List.map_eq_cons_iff.1 hnames
    obtain ⟨first, other⟩ := entry
    obtain ⟨first', other'⟩ := entry'
    obtain rfl : first' = first := hfirst
    obtain ⟨hother, hothers⟩ := List.forall₂_cons.1 hnodes
    rw [List.filter_cons, List.filter_cons, holdsPayload_of_rearranged h hother]
    split_ifs
    · exact congrArg (first' :: ·) (ih hrest hothers)
    · exact ih hrest hothers

theorem fileNames_of_rearranged (h : files.root.Rearranged files'.root)
    {entries entries' : List (Bytes × Node)}
    (hnode : (Node.directory entries).Rearranged (.directory entries')) :
    fileNames files' directory entries' = fileNames files directory entries := by
  have hperm : ((entries'.filter (holdsPayload files' directory)).map (·.1)).Perm
      ((entries.filter (holdsPayload files directory)).map (·.1)) := by
    cases hnode with
    | refl =>
      refine .of_eq (congrArg _ (List.filter_congr fun entry _ => ?_))
      exact holdsPayload_of_rearranged h (.refl entry.2)
    | directory _ hmoved hnames hnodes =>
      rw [filter_names_of_rearranged h hnames hnodes]
      exact ((hmoved.filter _).map _).symm
  refine eq_of_perm_of_pairwise (pairwise_fileNames _ _ _) (pairwise_fileNames _ _ _) ?_
  exact ((List.mergeSort_perm _ _).trans hperm).trans (List.mergeSort_perm _ _).symm

theorem readAll_of_rearranged (h : files.root.Rearranged files'.root) (l : Loaded)
    (names : List Bytes) :
    readAll files' directory l names = readAll files directory l names := by
  induction names generalizing l with
  | nil => rfl
  | cons name names ih =>
    rw [readAll, readAll, FileTree.read_eq_of_rearranged h]
    cases files.read (directory.join name) with
    | error fault => rfl
    | ok bytes => exact ih _

theorem load_of_rearranged (h : files.root.Rearranged files'.root) (directory : Path) :
    load files' directory = load files directory := by
  unfold load
  rw [FileTree.isDirectory_eq_of_rearranged h]
  have hentries : (∃ fault, files.entries directory = .error fault ∧
      files'.entries directory = .error fault) ∨
      ∃ entries entries', files.entries directory = .ok entries ∧
        files'.entries directory = .ok entries' ∧
        (Node.directory entries).Rearranged (.directory entries') := by
    unfold FileTree.entries
    obtain ⟨fault, hn, hn'⟩ | ⟨node, node', hn, hn', hnode⟩ := FileTree.node_alike h directory
    · rw [hn, hn']
      exact .inl ⟨fault, rfl, rfl⟩
    · rw [hn, hn']
      cases hnode with
      | directory hd hm hnames hnodes => exact .inr ⟨_, _, rfl, rfl, .directory hd hm hnames hnodes⟩
      | refl =>
        cases node with
        | directory entries => exact .inr ⟨_, _, rfl, rfl, .refl _⟩
        | file | link | pipe | sink => exact .inl ⟨_, rfl, rfl⟩
  obtain ⟨fault, he, he'⟩ | ⟨entries, entries', he, he', hnode⟩ := hentries
  · rw [he, he']
  · rw [he, he']
    dsimp only
    rw [fileNames_of_rearranged h hnode, readAll_of_rearranged h]

end Order

/-- What is loaded from a directory of which all seeds can be read: for each name of a payload the
last of the seeds that have it, in their order, and a warning for each of the others. The order in
which directories are enumerated makes no difference, and nothing but a directory is a corpus. -/
theorem load_keeps_last (files : FileTree) (directory : Path) :
    (∀ (entries : List (Bytes × Node)) (names : List Bytes) (contents : Bytes → Bytes),
      files.entries directory = .ok entries → (entries.map (·.1)).Nodup →
      names.Pairwise (· < ·) →
      (∀ name, name ∈ names ↔
        ∃ node, (name, node) ∈ entries ∧ IsSeed files directory name node) →
      (∀ name ∈ names, files.read (directory.join name) = .ok (contents name)) →
      ∃ payloads log, load files directory = (.ok payloads, log) ∧
        payloads = ((List.finRange names.length).filter fun i =>
            ∀ j, i < j → payloadName (names.get j) ≠ payloadName (names.get i)).map
          (fun i => ⟨payloadName (names.get i), contents (names.get i)⟩) ∧
        (payloads.map (·.name)).Nodup ∧
        log.length = names.length - payloads.length ∧ payloads.length ≤ names.length ∧
        ∀ line ∈ log, ∃ name ∈ names, line = duplicate directory name) ∧
    (∀ files', files.root.Rearranged files'.root →
      load files' directory = load files directory) ∧
    ((∀ entries, files.node directory ≠ .ok (.directory entries)) →
      load files directory = (.error (.corpusNotFound directory.display), [])) := by
  refine ⟨?_, fun files' h => load_of_rearranged h directory, ?_⟩
  · intro entries names contents hentries hd hsorted hnames hread
    have hload : load files directory = (.ok (loaded directory contents names).payloads,
        (loaded directory contents names).log) := by
      rw [load, if_pos (isDirectory_of_entries hentries), hentries]
      dsimp only
      rw [fileNames_eq hd hsorted hnames]
      exact readAll_of_readable {} hread
    have hlength := loaded_length directory contents names
    refine ⟨_, _, hload, ?_, loaded_names_nodup directory contents names, by omega, by omega,
      fun line hm => mem_loaded_log hm⟩
    rw [loaded_payloads, pwFilter_eq_filter_finRange apart_or_apart, List.map_map]
    refine congrArg (List.map _) (List.filter_congr fun i _ => ?_)
    rw [decide_eq_decide]
    exact forall₂_congr fun j _ => ne_comm
  · intro hnot
    rw [load, if_neg]
    unfold FileTree.isDirectory
    split
    · rename_i node hnode
      cases node with
      | directory entries => exact absurd hnode (hnot entries)
      | _ => exact Bool.false_ne_true
    · exact Bool.false_ne_true

/-- A hidden file, a directory, two files with one name, a link to a file, and two names that are
no texts: in the order of the bytes, `a-b` comes before both of the files that are called `a`. -/
def mixedEntries : List (Bytes × Node) :=
  [([0xFF], .file [6]), (Text.bytes "a.txt", .file [2]), (Text.bytes ".a", .file [1]),
    (Text.bytes "b", .link (Text.bytes "a.bin")), ([0xFE], .file [5]),
    (Text.bytes "a-b", .file [4]), (Text.bytes "c", .directory []),
    (Text.bytes "a.bin", .file [3])]

def mixedCorpus (entries : List (Bytes × Node)) : FileTree :=
  ⟨.directory [(Text.bytes "d", .directory entries)]⟩

def mixedContents (name : Bytes) : Bytes :=
  match (mixedCorpus mixedEntries).read (Path.join (Text.bytes "d") name) with
  | .ok bytes => bytes
  | .error _ => []

theorem load_keeps_last_of_mixed :
    ∃ payloads log, load (mixedCorpus mixedEntries) (Text.bytes "d") = (.ok payloads, log) ∧
      load (mixedCorpus mixedEntries.reverse) (Text.bytes "d") = (.ok payloads, log) ∧
      payloads = [⟨"a-b", [4]⟩, ⟨"a", [2]⟩, ⟨"b", [3]⟩, ⟨"\uFFFD", [6]⟩] ∧ log.length = 2 ∧
      load (mixedCorpus mixedEntries) (Text.bytes "d/a.txt") =
        (.error (.corpusNotFound "d/a.txt"), []) := by
  obtain ⟨hload, hrearranged, -⟩ := load_keeps_last (mixedCorpus mixedEntries) (Text.bytes "d")
  obtain ⟨-, -, hnone⟩ := load_keeps_last (mixedCorpus mixedEntries) (Text.bytes "d/a.txt")
  have hentries : (mixedCorpus mixedEntries).entries (Text.bytes "d") = .ok mixedEntries := by cbv
  have hdistinct : (mixedEntries.map (·.1)).Nodup := by decide +kernel
  have hnames : fileNames (mixedCorpus mixedEntries) (Text.bytes "d") mixedEntries =
      [Text.bytes "a-b", Text.bytes "a.bin", Text.bytes "a.txt", Text.bytes "b", [0xFE],
        [0xFF]] := by cbv
  obtain ⟨payloads, log, hloaded, hpayloads, -, hlength, -⟩ := hload mixedEntries
    [Text.bytes "a-b", Text.bytes "a.bin", Text.bytes "a.txt", Text.bytes "b", [0xFE], [0xFF]]
    mixedContents hentries hdistinct (by decide +kernel)
    (fun name => by rw [← hnames, mem_fileNames_iff])
    (by
      simp only [List.forall_mem_cons]
      refine ⟨?_, ?_, ?_, ?_, ?_, ?_, fun _ hm => absurd hm List.not_mem_nil⟩ <;> cbv)
  have hfile : (mixedCorpus mixedEntries).node (Text.bytes "d/a.txt") = .ok (.file [2]) := by cbv
  have hreversed : (mixedCorpus mixedEntries).root.Rearranged
      (mixedCorpus mixedEntries.reverse).root :=
    .directory (by decide +kernel) (.refl _) rfl (.cons (.directory hdistinct
      (List.reverse_perm _).symm rfl
      (List.forall₂_same.2 fun node _ => .refl node)) .nil)
  have hkept : payloads = [⟨"a-b", [4]⟩, ⟨"a", [2]⟩, ⟨"b", [3]⟩, ⟨"\uFFFD", [6]⟩] := by
    rw [hpayloads]
    cbv
  refine ⟨payloads, log, hloaded, (hrearranged _ hreversed).trans hloaded, hkept, ?_, ?_⟩
  · rw [hlength, hkept]
    rfl
  · have hmissing := hnone fun entries h => by cases hfile.symm.trans h
    exact hmissing.trans (by decide +kernel)

end Corpus

end WireReplay
