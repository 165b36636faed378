import WireReplay.Proofs.Places

/-!
# Names behind a path

Joining a name to a path adds one part to the parts of the path, however many slashes the path ends
with. So a file with that name is looked for in the directory to which the path leads; and where
a path leads to nothing yet, but could, a directory is made to which it leads then.
-/

namespace WireReplay

namespace Path

theorem parts_ne_nil (p : Path) : p.parts ≠ [] := by
  induction p with
  | nil => exact List.cons_ne_nil _ _
  | cons b rest ih =>
    rw [parts]
    split
    · contradiction
    · split <;> exact List.cons_ne_nil _ _

theorem parts_slash_cons (p : Path) : parts (slash :: p) = [] :: p.parts := by
  rw [parts]
  split
  · exact absurd ‹_› (parts_ne_nil p)
  · rw [if_pos rfl, ‹p.parts = _›]

theorem parts_append_slash_cons (p q : Path) : parts (p ++ slash :: q) = p.parts ++ q.parts := by
  induction p with
  | nil => exact parts_slash_cons q
  | cons b rest ih =>
    rw [List.cons_append, parts, ih, parts]
    cases hp : Path.parts rest with
    | nil => exact absurd hp (parts_ne_nil rest)
    | cons part others =>
      by_cases hb : b = slash
      · simp [hb]
      · simp [hb]

theorem parts_replicate_append (n : Nat) (p : Path) :
    parts (List.replicate n slash ++ p) = List.replicate n [] ++ p.parts := by
  induction n with
  | zero => rfl
  | succ n ih => rw [List.replicate_succ, List.cons_append, parts_slash_cons, ih]; rfl

theorem parts_of_not_mem {name : Bytes} (h : slash ∉ name) : parts name = [name] := by
  induction name with
  | nil => rfl
  | cons b rest ih =>
    obtain ⟨hb, hrest⟩ := not_or.1 fun hm => h (List.mem_cons.2 hm)
    rw [parts, ih hrest]
    exact if_neg (Ne.symm hb)

variable {p : Path} {name : Bytes}

theorem join_of_not_mem (h : slash ∉ name) (hp : p ≠ []) :
    p.join name = if p.getLast? = some slash then p ++ name else p ++ slash :: name := by
  have hrelative : isAbsolute name = false := by
    cases name with
    | nil => rfl
    | cons b rest =>
      have hb : b ≠ slash := fun hb => h (hb ▸ List.mem_cons_self)
      simp [isAbsolute, hb]
  simp [join, hrelative, hp]

theorem length_le_join (h : slash ∉ name) : p.length ≤ (p.join name).length := by
  by_cases hp : p = []
  · rw [hp]
    exact Nat.zero_le _
  · rw [join_of_not_mem h hp]
    split <;> simp

theorem mem_join_iff {b : UInt8} (h : slash ∉ name) (hb : b ≠ slash) :
    b ∈ p.join name ↔ b ∈ p ∨ b ∈ name := by
  by_cases hp : p = []
  · simp [hp, join]
  · rw [join_of_not_mem h hp]
    split <;> simp [hb]

theorem not_mem_of_join {b : UInt8} (h : b ∉ p.join name) : b ∉ name := by
  intro hm
  unfold join at h
  split at h
  · exact h hm
  · split at h
    · exact h (List.mem_append_right _ hm)
    · exact h (List.mem_append_right _ (List.mem_cons_of_mem _ hm))

theorem trimSlashes_append (hp : ¬ p.all (· = slash)) :
    ∃ n, p = FileTree.trimSlashes p ++ List.replicate n slash ∧
      (FileTree.trimSlashes p).getLast? ≠ some slash := by
  rw [FileTree.trimSlashes, if_neg hp]
  refine ⟨(p.reverse.takeWhile (· = slash)).length, ?_, ?_⟩
  · have hends : p.reverse.takeWhile (· = slash) =
        List.replicate (p.reverse.takeWhile (· = slash)).length slash := by
      rw [List.eq_replicate_iff]
      exact ⟨rfl, fun b hb => of_decide_eq_true (List.all_eq_true.1 List.all_takeWhile b hb)⟩
    have hparts := congrArg List.reverse
      (List.takeWhile_append_dropWhile (p := (· = slash)) (l := p.reverse))
    rw [List.reverse_reverse, List.reverse_append, hends, List.reverse_replicate] at hparts
    exact hparts.symm
  · rw [List.getLast?_reverse]
    intro hslash
    have hhead := List.head?_dropWhile_not (fun b => decide (b = slash)) p.reverse
    rw [hslash] at hhead
    exact absurd hhead (by decide)

theorem parts_join (h : slash ∉ name) (hp : ¬ p.all (· = slash)) :
    ∃ n, (p.join name).parts =
      (FileTree.trimSlashes p).parts ++ (List.replicate n [] ++ [name]) := by
  have hne : p ≠ [] := by
    rintro rfl
    exact hp rfl
  obtain ⟨n, hends, hlast⟩ := trimSlashes_append hp
  rw [join_of_not_mem h hne]
  cases n with
  | zero =>
    rw [List.replicate_zero, List.append_nil] at hends
    rw [← hends] at hlast ⊢
    refine ⟨0, ?_⟩
    rw [if_neg hlast, parts_append_slash_cons, parts_of_not_mem h]
    rfl
  | succ n =>
    refine ⟨n, ?_⟩
    have hslash : p.getLast? = some slash := by
      rw [hends, List.replicate_succ', ← List.append_assoc, List.getLast?_concat]
    rw [if_pos hslash]
    generalize FileTree.trimSlashes p = trimmed at hends
    subst hends
    rw [List.replicate_succ, List.append_assoc, List.cons_append, parts_append_slash_cons,
      parts_replicate_append, parts_of_not_mem h]

theorem names_eq_filter (p : Path) :
    p.names = p.parts.filter fun part => part ≠ [] ∧ part ≠ [dot] := rfl

/-- What stands in front of a name that is joined to a path does not depend on the name. -/
theorem exists_base (p : Path) :
    ∃ base, (base.filter fun part => part ≠ [] ∧ part ≠ [dot]) = p.names ∧
      ∀ name, slash ∉ name → (p.join name).parts = base ++ [name] := by
  cases p with
  | nil =>
    refine ⟨[], rfl, fun name hname => ?_⟩
    have hjoin : join [] name = name := by simp [join]
    rw [hjoin, parts_of_not_mem hname]
    rfl
  | cons first rest =>
    by_cases hends : (first :: rest).getLast? = some slash
    · obtain ⟨init, hinit⟩ := List.getLast?_eq_some_iff.mp hends
      refine ⟨parts init, ?_, fun name hname => ?_⟩
      · have hnone : parts [] = [[]] := rfl
        rw [hinit, names_eq_filter, parts_append_slash_cons, List.filter_append, hnone]
        simp
      · rw [join_of_not_mem hname (List.cons_ne_nil _ _), if_pos hends, hinit, List.append_assoc,
          List.singleton_append, parts_append_slash_cons, parts_of_not_mem hname]
    · refine ⟨parts (first :: rest), rfl, fun name hname => ?_⟩
      rw [join_of_not_mem hname (List.cons_ne_nil _ _), if_neg hends, parts_append_slash_cons,
        parts_of_not_mem hname]

theorem names_join (p : Path) (hslash : slash ∉ name) (hname : ¬ (name = [] ∨ name = [dot])) :
    (p.join name).names = p.names ++ [name] := by
  obtain ⟨base, hbase, hparts⟩ := p.exists_base
  have hkept : ([name].filter fun part => part ≠ [] ∧ part ≠ [dot]) = [name] := by
    simpa only [List.filter_eq_self, List.forall_mem_singleton, decide_eq_true_iff, not_or]
      using hname
  rw [names_eq_filter, hparts name hslash, List.filter_append, hbase, hkept]

/-- A name that can only be meant as that of an entry. -/
structure IsPlain (name : Bytes) : Prop where
  notSlashed : slash ∉ name
  notZeroed : 0 ∉ name
  leads : ¬ (name = [] ∨ name = [dot])
  notUp : name ≠ [dot, dot]

end Path

namespace FileTree

/-- Neither the name of an entry in a directory nor its path is too long. -/
def Fits (directory : Path) (name : Bytes) : Prop :=
  (directory.join name).length < pathLimit ∧ name.length ≤ nameLimit

instance (directory : Path) (name : Bytes) : Decidable (Fits directory name) :=
  inferInstanceAs (Decidable (_ ∧ _))

theorem Fits.length_lt {directory : Path} {name : Bytes} (h : Fits directory name)
    (hname : Path.slash ∉ name) : directory.length < pathLimit :=
  Nat.lt_of_le_of_lt (Path.length_le_join hname) h.1

/-- Nothing is at a path yet, and there is the directory in which it would be. -/
structure Awaits (t : FileTree) (p : Path) (place : List Bytes) : Prop where
  root : t.root.HasDirectory []
  absent : t.locate .entry (trimSlashes p) = .ok (.absent place)

theorem walk_of_locate {t : FileTree} {purpose : Purpose} {p : Path} {spot : Spot}
    (h : t.locate purpose p = .ok spot) :
    0 ∉ p ∧ p ≠ [] ∧ walk t.root purpose linkLimit [] p.parts = .ok spot := by
  rw [locate] at h
  split at h
  · cases h
  · split at h
    · cases h
    · split at h
      · cases h
      · exact ⟨‹_›, ‹_›, h⟩

theorem leads_replicate (root : Node) (links : Nat) (here : List Bytes) (n : Nat) :
    Leads root links here (List.replicate n []) links here := by
  induction n with
  | zero => exact .arrive links here
  | succ n ih => exact .stay (.inl rfl) ih

/-- What is joined to the path is in the directory at this place. -/
structure Houses (t : FileTree) (directory : Path) (around : List Bytes) : Prop where
  notZeroed : 0 ∉ directory
  leads : ∀ name, Path.slash ∉ name → ∃ base fewer, (directory.join name).parts = base ++ [name] ∧
    Leads t.root linkLimit [] base fewer around
  there : t.root.HasDirectory around

section Houses

variable {t t' : FileTree} {directory : Path} {around : List Bytes} {name : Bytes}

theorem Houses.guided (h : t.Houses directory around) (hroot : t.root.Guides t'.root) :
    t'.Houses directory around where
  notZeroed := h.notZeroed
  leads name hname := by
    obtain ⟨base, fewer, hbase, hleads⟩ := h.leads name hname
    exact ⟨base, fewer, hbase, hleads.guided hroot⟩
  there := hroot.hasDirectory around h.there

/-- A name is looked for in the directory, unless it or its path is too long. -/
theorem Houses.locate (h : t.Houses directory around) (hname : Path.IsPlain name) :
    ∃ links, ∀ purpose, t.locate purpose (directory.join name) =
      if Fits directory name then
        enter t.root purpose links around name [] (t.root.at? (around ++ [name]))
      else .error nameTooLong := by
  obtain ⟨base, fewer, hparts, hleads⟩ := h.leads name hname.notSlashed
  refine ⟨fewer, fun purpose => ?_⟩
  have hne : name ≠ [] := fun hn => hname.leads (.inl hn)
  have hzero : 0 ∉ directory.join name := by
    rw [Path.mem_join_iff hname.notSlashed (by decide), not_or]
    exact ⟨h.notZeroed, hname.notZeroed⟩
  have hjoin : directory.join name ≠ [] := by
    intro hjoin
    rw [hjoin] at hparts
    have hends : [] ++ [[]] = base ++ [name] := hparts
    exact hne (List.singleton_inj.mp (List.append_inj' hends rfl).2).symm
  have hwalk : walk t.root purpose linkLimit [] (directory.join name).parts =
      if nameLimit < name.length then .error nameTooLong
      else enter t.root purpose fewer around name [] (t.root.at? (around ++ [name])) := by
    rw [hparts, walk_of_leads hleads ⟨name, List.mem_singleton_self name, hne⟩]
    split
    · rw [walk, if_neg hname.leads, if_neg hname.notUp, if_neg fun h => h.2.1 rfl, if_pos ‹_›]
    · rw [walk_eq_enter ⟨hname.leads, hname.notUp, fun h => h.2.1 rfl, ‹_›⟩, Node.at?_concat]
  rw [FileTree.locate, if_neg hzero, if_neg hjoin, hwalk]
  by_cases hpath : pathLimit ≤ (directory.join name).length
  · rw [if_pos hpath, if_neg fun h => Nat.not_lt.2 hpath h.1]
  · by_cases hlong : nameLimit < name.length
    · rw [if_neg hpath, if_pos hlong, if_neg fun h => Nat.not_lt.2 h.2 hlong]
    · rw [if_neg hpath, if_neg hlong, if_pos ⟨Nat.not_le.1 hpath, Nat.not_lt.1 hlong⟩]

end Houses

section Awaits

variable {t : FileTree} {p : Path} {place : List Bytes}

theorem Awaits.not_all_slash (h : t.Awaits p place) : ¬ p.all (· = Path.slash) := by
  intro hall
  have hp : p = List.replicate p.length Path.slash ++ [] := by
    rw [List.append_nil, List.eq_replicate_iff]
    exact ⟨rfl, fun b hb => of_decide_eq_true (List.all_eq_true.1 hall b hb)⟩
  obtain ⟨-, -, hwalk⟩ := walk_of_locate h.absent
  obtain ⟨front, name, fewer, around, entries, hparts, hname, -⟩ := misses_of_absent h.root hwalk
  rw [trimSlashes, if_pos hall, hp, Path.parts_replicate_append] at hparts
  exact hname.leads (.inl (List.singleton_inj.1 (List.append_inj' hparts rfl).2).symm)

theorem Awaits.not_mem_zero (h : t.Awaits p place) : 0 ∉ p := by
  obtain ⟨n, hends, -⟩ := Path.trimSlashes_append h.not_all_slash
  rw [hends, List.mem_append, not_or]
  exact ⟨(walk_of_locate h.absent).1, fun hm => absurd (List.eq_of_mem_replicate hm) (by decide)⟩

theorem Awaits.ne_nil (h : t.Awaits p place) : p ≠ [] := by
  rintro rfl
  exact h.not_all_slash rfl

theorem makeDirectories_of_not_lacksParent (hp : p ≠ []) (h : t.lacksParent p = false) :
    t.makeDirectories p = t.ensureDirectory p := by
  rw [FileTree.makeDirectories, if_neg hp]
  cases p.ancestors with
  | nil => rfl
  | cons parent others => rw [makeWithin, h, if_neg Bool.false_ne_true]

theorem Awaits.makeDirectories (h : t.Awaits p place) (hshort : p.length < pathLimit) :
    t.makeDirectories p = ⟨t.put place (.directory []), none⟩ := by
  have hmade : t.makeDirectory p = .ok (t.put place (.directory [])) := by
    rw [makeDirectory, if_neg fun hlong => Nat.not_lt.2 hlong.2 hshort, h.absent]
  rw [makeDirectories_of_not_lacksParent h.ne_nil (by rw [lacksParent, hmade]), ensureDirectory,
    hmade]

/-- Without the slashes at its end the path may be short enough to be followed, and yet no
directory is made. -/
theorem Awaits.makeDirectories_of_long (h : t.Awaits p place) (hlong : pathLimit ≤ p.length) :
    t.makeDirectories p = ⟨t, some nameTooLong⟩ := by
  have hmade : t.makeDirectory p = .error nameTooLong := by
    rw [makeDirectory, if_pos ⟨h.not_mem_zero, hlong⟩]
  have hthere : t.isDirectory p = false := by
    rw [isDirectory, node, locate, if_neg h.not_mem_zero, if_neg h.ne_nil, if_pos hlong]
  rw [makeDirectories_of_not_lacksParent h.ne_nil (by rw [lacksParent, hmade]; rfl),
    ensureDirectory, hmade, hthere]
  rfl

theorem Awaits.leads (h : t.Awaits p place) (entries : List (Bytes × Node)) :
    (t.put place (.directory entries)).root.at? place = some (.directory entries) ∧
      ∃ fewer, Leads (t.put place (.directory entries)).root linkLimit [] (trimSlashes p).parts
        fewer place := by
  obtain ⟨-, -, hwalk⟩ := walk_of_locate h.absent
  obtain ⟨front, name, fewer, around, others, hparts, hname, hleads, haround, hnew, rfl⟩ :=
    misses_of_absent h.root hwalk
  have hmissing : t.root.at? (around ++ [name]) = none := by
    rw [Node.at?_concat, haround]
    exact hnew
  have hthere : (t.put (around ++ [name]) (.directory entries)).root.at? (around ++ [name]) =
      some (.directory entries) := Node.at?_put_concat haround name _
  refine ⟨hthere, fewer, ?_⟩
  rw [hparts]
  exact (hleads.guided (Node.extends_put hmissing _).guides).append
    (.enter hname ⟨entries, hthere⟩ (.arrive _ _))

theorem Awaits.houses (h : t.Awaits p place) (entries : List (Bytes × Node)) :
    (t.put place (.directory entries)).Houses p place where
  notZeroed := h.not_mem_zero
  leads name hname := by
    obtain ⟨-, fewer, hleads⟩ := h.leads entries
    obtain ⟨n, hparts⟩ := Path.parts_join hname h.not_all_slash
    rw [← List.append_assoc] at hparts
    exact ⟨_, fewer, hparts, hleads.append (leads_replicate _ _ _ n)⟩
  there := ⟨entries, (h.leads entries).1⟩

theorem Awaits.write_join (h : t.Awaits p place) {entries : List (Bytes × Node)} {name : Bytes}
    (hname : Path.IsPlain name) (hnew : entries.lookup name = none) (bytes : Bytes) :
    (t.put place (.directory entries)).write (p.join name) bytes =
      if Fits p name then .ok (t.put place (.directory (entries ++ [(name, .file bytes)])))
      else .error nameTooLong := by
  obtain ⟨links, hlocate⟩ := (h.houses entries).locate hname
  have hthere := (h.leads entries).1
  have hnone : (t.put place (.directory entries)).root.at? (place ++ [name]) = none := by
    rw [Node.at?_concat, hthere]
    exact hnew
  have hput : (t.put place (.directory entries)).put (place ++ [name]) (.file bytes) =
      t.put place (.directory (entries ++ [(name, .file bytes)])) := by
    rw [put, Node.put_concat hthere, Node.setEntry_of_lookup_none hnew, put, Node.put_put]
    rfl
  rw [write, hlocate, hnone]
  by_cases hfits : Fits p name
  · rw [if_pos hfits, if_pos hfits]
    exact congrArg Except.ok hput
  · rw [if_neg hfits, if_neg hfits]

end Awaits

end FileTree

end WireReplay
