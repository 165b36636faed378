import WireReplay.Proofs.Growth

/-!
# Files written over others

To write a file changes the entry under its name and nothing else, whether there was a file before
or none. Directories and links are never replaced, so every path leads where it led. Of files that
are written into one directory under different names, each is in the way of no other: what is under
the other names is found as before, by the writes that follow and by whoever reads the files. Where
nothing was under their names, the tree has these files more then, and that is all.
-/

namespace WireReplay

namespace Node

def Alike (found found' : Option Node) : Prop :=
  found' = found ∨ ∃ entries entries', found = some (.directory entries) ∧
    found' = some (.directory entries')

def isPassage : Node → Bool
  | directory _ => true
  | link _ => true
  | _ => false

/-- Nothing is found that a path could go through. -/
def IsFlat (found : Option Node) : Prop := found.any isPassage = false

variable {root root' root'' new node : Node} {place other here : List Bytes} {name : Bytes}
  {found found' found'' : Option Node}

theorem Alike.trans (h : Alike found found') (h' : Alike found' found'') :
    Alike found found'' := by
  rcases h with rfl | ⟨entries, entries', rfl, rfl⟩
  · exact h'
  · rcases h' with rfl | ⟨_, entries'', -, rfl⟩
    · exact .inr ⟨_, _, rfl, rfl⟩
    · exact .inr ⟨_, _, rfl, rfl⟩

theorem Alike.isFlat_iff (h : Alike found found') : IsFlat found ↔ IsFlat found' := by
  rcases h with rfl | ⟨entries, entries', rfl, rfl⟩
  · rfl
  · exact Iff.rfl

theorem IsFlat.ne_some (h : IsFlat found) (hnode : node.isPassage = true) : found ≠ some node := by
  rintro rfl
  rw [IsFlat, Option.any_some, hnode] at h
  cases h

theorem IsFlat.entry?_eq_none (h : IsFlat (some node)) (name : Bytes) : node.entry? name = none := by
  cases node with
  | directory entries => exact absurd rfl (h.ne_some rfl)
  | file | link | pipe | sink => rfl

theorem at?_cons_of_leaf (hleaf : ∀ name, new.entry? name = none) (first : Bytes)
    (more : List Bytes) : new.at? (first :: more) = none := by
  rw [at?, hleaf]
  rfl

theorem at?_put_ne (h : root.HasDirectory here) {first : Bytes} (hne : first ≠ name) (new : Node) :
    (put new (here ++ [name]) root).at? (here ++ [first]) = root.at? (here ++ [first]) := by
  obtain ⟨entries, h⟩ := h
  rw [put_concat h, at?_concat, at?_concat, at?_put_self h, h]
  exact lookup_setEntry_ne hne new entries

theorem alike_put (hnew : ∀ name, new.entry? name = none)
    (hold : ∀ node, root.at? place = some node → ∀ name, node.entry? name = none)
    (hne : other ≠ place) : Alike (root.at? other) ((put new place root).at? other) := by
  induction place generalizing root other with
  | nil =>
    obtain ⟨first, more, rfl⟩ := List.exists_cons_of_ne_nil hne
    left
    exact (at?_cons_of_leaf hnew first more).trans (at?_cons_of_leaf (hold root rfl) first more).symm
  | cons name rest ih =>
    cases root with
    | directory entries =>
      cases other with
      | nil =>
        right
        have hroot := isDirectory_put new name rest entries
        cases hput : put new (name :: rest) (directory entries) with
        | directory entries' => exact ⟨entries, entries', rfl, rfl⟩
        | file | link | pipe | sink =>
          rw [hput] at hroot
          cases hroot
      | cons first more =>
        by_cases hn : first = name
        · subst hn
          have hmore : more ≠ rest := fun hmore => hne (hmore ▸ rfl)
          cases hsub : entries.lookup first with
          | some sub =>
            rw [put_cons new hsub, at?_cons, at?_cons, lookup_setEntry_self, hsub]
            refine ih (fun node hnode => hold node ?_) hmore
            rw [at?_cons, hsub]
            exact hnode
          | none =>
            left
            cases rest with
            | nil =>
              obtain ⟨second, others, rfl⟩ := List.exists_cons_of_ne_nil hmore
              rw [put, at?_cons, at?_cons, lookup_setEntry_self, hsub]
              exact at?_cons_of_leaf hnew second others
            | cons next rest => simp only [put, hsub]
        · exact .inl (at?_put_cons_ne hn new rest more entries)
    | file | link | pipe | sink => exact .inl rfl

/-- The one tree is the other but for what stands at these places, which is nothing that a path
could go through, neither before nor behind. -/
structure Rewritten (root root' : Node) (places : List (List Bytes)) : Prop where
  elsewhere : ∀ place, place ∉ places → Alike (root.at? place) (root'.at? place)
  before : ∀ place ∈ places, IsFlat (root.at? place)
  behind : ∀ place ∈ places, IsFlat (root'.at? place)

theorem Rewritten.refl (root : Node) : root.Rewritten root [] where
  elsewhere _ _ := .inl rfl
  before := nofun
  behind := nofun

theorem Rewritten.isFlat_iff {places : List (List Bytes)} (h : root.Rewritten root' places)
    (place : List Bytes) : IsFlat (root.at? place) ↔ IsFlat (root'.at? place) := by
  by_cases hplace : place ∈ places
  · exact iff_of_true (h.before place hplace) (h.behind place hplace)
  · exact (h.elsewhere place hplace).isFlat_iff

theorem Rewritten.trans {places more : List (List Bytes)} (h : root.Rewritten root' places)
    (h' : root'.Rewritten root'' more) : root.Rewritten root'' (places ++ more) where
  elsewhere place hplace := by
    rw [List.mem_append, not_or] at hplace
    exact (h.elsewhere place hplace.1).trans (h'.elsewhere place hplace.2)
  before place hplace := by
    rcases List.mem_append.mp hplace with hm | hm
    · exact h.before place hm
    · exact (h.isFlat_iff place).mpr (h'.before place hm)
  behind place hplace := by
    rcases List.mem_append.mp hplace with hm | hm
    · exact (h'.isFlat_iff place).mp (h.behind place hm)
    · exact h'.behind place hm

theorem Rewritten.guides {places : List (List Bytes)} (h : root.Rewritten root' places) :
    root.Guides root' where
  hasDirectory place := by
    rintro ⟨entries, hentries⟩
    have hplace : place ∉ places := fun hm => (h.before place hm).ne_some rfl hentries
    rcases h.elsewhere place hplace with hsame | ⟨-, entries', -, hentries'⟩
    · exact ⟨entries, hsame.trans hentries⟩
    · exact ⟨entries', hentries'⟩
  link place target hlink := by
    have hplace : place ∉ places := fun hm => (h.before place hm).ne_some rfl hlink
    rcases h.elsewhere place hplace with hsame | ⟨entries, -, hentries, -⟩
    · exact hsame.trans hlink
    · rw [hentries] at hlink
      cases hlink

theorem Rewritten.at?_eq_of_flat {places : List (List Bytes)} (h : root.Rewritten root' places)
    (hplace : place ∉ places) (hnode : root'.at? place = some node)
    (hflat : node.isDirectory = false) : root.at? place = some node := by
  rcases h.elsewhere place hplace with hsame | ⟨_, entries', -, hthere⟩
  · exact hsame.symm.trans hnode
  · rw [hthere] at hnode
    cases hnode
    cases hflat

theorem Rewritten.extends {places : List (List Bytes)} (h : root.Rewritten root' places)
    (hnew : ∀ place ∈ places, root.at? place = none) : root.Extends root' := by
  intro place node hnode
  have hplace : place ∉ places := fun hm => by
    rw [hnew place hm] at hnode
    cases hnode
  rcases h.elsewhere place hplace with hsame | ⟨entries, entries', hold, hthere⟩
  · exact ⟨node, hsame.trans hnode, .inl rfl⟩
  · rw [hnode] at hold
    cases hold
    exact ⟨_, hthere, .inr ⟨rfl, rfl⟩⟩

theorem rewritten_put_file (hhere : root.HasDirectory here)
    (hold : IsFlat (root.at? (here ++ [name]))) (bytes : Bytes) :
    root.Rewritten (put (.file bytes) (here ++ [name]) root) [here ++ [name]] where
  elsewhere place hplace := by
    refine alike_put (fun _ => rfl) (fun node hnode => ?_) (List.ne_of_not_mem_cons hplace)
    rw [hnode] at hold
    exact hold.entry?_eq_none
  before place hplace := by
    rw [List.mem_singleton.mp hplace]
    exact hold
  behind place hplace := by
    obtain ⟨entries, hentries⟩ := hhere
    rw [List.mem_singleton.mp hplace, at?_put_concat hentries]
    rfl

end Node

namespace FileTree

/-- There is a link at a path, whatever it stands for. -/
def IsLink (t : FileTree) (p : Path) : Prop :=
  ∃ place target, t.locate .entry p = .ok (.present place (.link target))

variable {t t' : FileTree} {directory p : Path} {around : List Bytes} {name bytes : Bytes}
  {fault : Fault}

theorem locate_of_write (h : t.write p bytes = .ok t') :
    ∃ spot, t.locate .write p = .ok spot := by
  cases hlocate : t.locate .write p with
  | ok spot => exact ⟨spot, rfl⟩
  | error fault =>
    rw [write, hlocate] at h
    cases h

theorem node_congr (h : t'.locate .look p = t.locate .look p) : t'.node p = t.node p := by
  rw [node, node, h]

theorem write_error_congr (h : t'.locate .write p = t.locate .write p)
    (hwrite : t'.write p bytes = .error fault) : t.write p bytes = .error fault := by
  rw [FileTree.write, h] at hwrite
  rw [FileTree.write]
  cases hspot : t.locate .write p with
  | error first =>
    rw [hspot] at hwrite
    exact hwrite
  | ok spot =>
    rw [hspot] at hwrite
    cases spot with
    | absent place => cases hwrite
    | present place node =>
      cases node with
      | file | sink => cases hwrite
      | directory | link | pipe => exact hwrite

section Houses

theorem Houses.read (h : t.Houses directory around) (hname : Path.IsPlain name)
    (hfits : Fits directory name) (hfile : t.root.at? (around ++ [name]) = some (.file bytes)) :
    t.read (directory.join name) = .ok bytes := by
  obtain ⟨links, hlocate⟩ := h.locate hname
  have hlook := hlocate .look
  rw [if_pos hfits, hfile] at hlook
  rw [FileTree.read, node, hlook]
  rfl

theorem houses_of_write (hroot : t.root.HasDirectory [])
    (hname : 0 ∉ name → Path.IsPlain name)
    (hwrite : t.write (directory.join name) bytes = .ok t') :
    ∃ around, t.Houses directory around := by
  obtain ⟨spot, hspot⟩ := locate_of_write hwrite
  obtain ⟨hzero, -, hwalk⟩ := walk_of_locate hspot
  replace hname := (hname (Path.not_mem_of_join hzero)).notSlashed
  rw [Path.mem_join_iff hname (by decide), not_or] at hzero
  obtain ⟨base, -, hbase⟩ := directory.exists_base
  rw [hbase name hname] at hwalk
  obtain ⟨fewer, around, hleads, haround⟩ := leads_of_walk hroot hwalk
  exact ⟨around, hzero.1, fun other hother => ⟨base, fewer, hbase other hother, hleads⟩, haround⟩

/-- What is found under a name does not depend on the rest of the tree, unless it is a link. -/
theorem enter_congr {root root' : Node} {found : Option Node}
    (hfound : root.at? (around ++ [name]) = found) (hfound' : root'.at? (around ++ [name]) = found)
    (hlink : ∀ target, found ≠ some (.link target)) (purpose : Purpose) (links links' : Nat) :
    enter root' purpose links' around name [] found =
      enter root purpose links around name [] found := by
  cases found with
  | none => rfl
  | some node =>
    cases node with
    | directory entries => rw [enter, enter, walk, walk, hfound, hfound']; rfl
    | link target => exact absurd rfl (hlink target)
    | file | pipe | sink => rfl

theorem Houses.notLink (h : t.Houses directory around) (hname : Path.IsPlain name)
    (hfits : Fits directory name) (hlink : ¬ t.IsLink (directory.join name)) (target : Path) :
    t.root.at? (around ++ [name]) ≠ some (.link target) := by
  intro hnode
  obtain ⟨links, hlocate⟩ := h.locate hname
  have hentry := hlocate .entry
  rw [if_pos hfits, hnode] at hentry
  exact hlink ⟨_, target, hentry⟩

theorem Houses.locate_congr (h : t.Houses directory around) (h' : t'.Houses directory around)
    (hname : 0 ∉ name → Path.IsPlain name) (hlink : ¬ t.IsLink (directory.join name))
    (hsame : t'.root.at? (around ++ [name]) = t.root.at? (around ++ [name])) (purpose : Purpose) :
    t'.locate purpose (directory.join name) = t.locate purpose (directory.join name) := by
  by_cases hzero : 0 ∈ name
  · have hjoin : 0 ∈ directory.join name :=
      Decidable.byContradiction fun hjoin => Path.not_mem_of_join hjoin hzero
    rw [FileTree.locate, FileTree.locate, if_pos hjoin, if_pos hjoin]
  · obtain ⟨links, hlocate⟩ := h.locate (hname hzero)
    obtain ⟨links', hlocate'⟩ := h'.locate (hname hzero)
    rw [hlocate, hlocate']
    by_cases hfits : Fits directory name
    · rw [if_pos hfits, if_pos hfits, hsame]
      exact enter_congr rfl hsame (h.notLink (hname hzero) hfits hlink) purpose links links'
    · rw [if_neg hfits, if_neg hfits]

/-- A write that succeeds puts its file under the name, where a file was or nothing; or what is
there is always empty. -/
theorem Houses.write_cases (h : t.Houses directory around) (hname : Path.IsPlain name)
    (hlink : ¬ t.IsLink (directory.join name))
    (hwrite : t.write (directory.join name) bytes = .ok t') :
    Fits directory name ∧
      (t' = t.put (around ++ [name]) (.file bytes) ∧
          Node.IsFlat (t.root.at? (around ++ [name])) ∨
        t' = t ∧ t.root.at? (around ++ [name]) = some .sink) := by
  obtain ⟨links, hlocate⟩ := h.locate hname
  rw [FileTree.write, hlocate] at hwrite
  by_cases hfits : Fits directory name
  · refine ⟨hfits, ?_⟩
    rw [if_pos hfits] at hwrite
    cases hnode : t.root.at? (around ++ [name]) with
    | none =>
      rw [hnode] at hwrite
      cases hwrite
      exact .inl ⟨rfl, rfl⟩
    | some node =>
      rw [hnode] at hwrite
      cases node with
      | file old =>
        cases hwrite
        exact .inl ⟨rfl, rfl⟩
      | sink =>
        cases hwrite
        exact .inr ⟨rfl, rfl⟩
      | directory entries =>
        rw [enter, walk, hnode] at hwrite
        cases hwrite
      | link target => exact absurd hnode (h.notLink hname hfits hlink target)
      | pipe => cases hwrite
  · rw [if_neg hfits] at hwrite
    cases hwrite

end Houses

def writeIn (t : FileTree) (directory : Path) : List (Bytes × Bytes) → Change
  | [] => ⟨t, none⟩
  | (name, bytes) :: files =>
    (t.after (t.write (directory.join name) bytes)).andThen fun t => t.writeIn directory files

theorem Change.andThen_assoc (c : Change) (f g : FileTree → Change) :
    (c.andThen f).andThen g = c.andThen fun t => (f t).andThen g := by
  cases hfault : c.fault with
  | none => rw [andThen_of_no_fault hfault, andThen_of_no_fault hfault]
  | some fault =>
    rw [andThen_of_fault hfault, andThen_of_fault hfault, andThen_of_fault hfault]

theorem Change.fault_of_andThen {c : Change} {next : FileTree → Change}
    (h : (c.andThen next).fault = none) : c.andThen next = next c.files := by
  cases hfault : c.fault with
  | none => exact andThen_of_no_fault hfault next
  | some fault =>
    rw [andThen_of_fault hfault, hfault] at h
    cases h

theorem writeIn_append (t : FileTree) (directory : Path) (files more : List (Bytes × Bytes)) :
    t.writeIn directory (files ++ more) =
      (t.writeIn directory files).andThen (writeIn · directory more) := by
  induction files generalizing t with
  | nil => rfl
  | cons file files ih =>
    simp only [List.cons_append, writeIn, ih, Change.andThen_assoc]

theorem writeIn_cons_of_no_fault {t : FileTree} {directory : Path} {file : Bytes × Bytes}
    {files : List (Bytes × Bytes)} (h : (t.writeIn directory (file :: files)).fault = none) :
    ∃ t', t.write (directory.join file.1) file.2 = .ok t' ∧
      t.writeIn directory (file :: files) = t'.writeIn directory files := by
  rw [writeIn] at h ⊢
  cases hwrite : t.write (directory.join file.1) file.2 with
  | error fault =>
    rw [hwrite] at h
    cases h
  | ok t' => exact ⟨t', rfl, rfl⟩

/-- The one tree is the other with files in the directory at a place, each of them as it was
written, unless what is under its name is always empty. -/
structure Filled (t t' : FileTree) (directory : Path) (around : List Bytes)
    (files : List (Bytes × Bytes)) : Prop where
  rewritten : t.root.Rewritten t'.root (files.map fun file => around ++ [file.1])
  beside : ∀ name, name ∉ files.map (·.1) →
    t'.root.at? (around ++ [name]) = t.root.at? (around ++ [name])
  named : ∀ file ∈ files, Path.IsPlain file.1 ∧ Fits directory file.1
  filled : ∀ file ∈ files, t'.root.at? (around ++ [file.1]) = some (.file file.2) ∨
    t.root.at? (around ++ [file.1]) = some .sink

variable {t'' : FileTree} {file : Bytes × Bytes} {files : List (Bytes × Bytes)}

theorem Filled.refl (t : FileTree) (directory : Path) (around : List Bytes) :
    t.Filled t directory around [] where
  rewritten := .refl _
  beside _ _ := rfl
  named := nofun
  filled := nofun

theorem Filled.cons (h : t.Filled t' directory around [file])
    (h' : t'.Filled t'' directory around files) (hnew : file.1 ∉ files.map (·.1)) :
    t.Filled t'' directory around (file :: files) where
  rewritten := h.rewritten.trans h'.rewritten
  beside name hname := by
    rw [List.map_cons, List.mem_cons, not_or] at hname
    exact (h'.beside name hname.2).trans (h.beside name (mt List.mem_singleton.mp hname.1))
  named := List.forall_mem_cons.mpr ⟨h.named file (List.mem_singleton_self _), h'.named⟩
  filled := by
    rw [List.forall_mem_cons]
    constructor
    · rw [h'.beside file.1 hnew]
      exact h.filled file (List.mem_singleton_self _)
    · intro other hother
      have hne : other.1 ≠ file.1 := fun hsame => hnew (hsame ▸ List.mem_map_of_mem hother)
      rw [← h.beside other.1 (mt List.mem_singleton.mp hne)]
      exact h'.filled other hother

theorem filled_of_write (h : t.Houses directory around) (hname : 0 ∉ file.1 → Path.IsPlain file.1)
    (hlink : ¬ t.IsLink (directory.join file.1))
    (hwrite : t.write (directory.join file.1) file.2 = .ok t') :
    t.Filled t' directory around [file] := by
  obtain ⟨spot, hspot⟩ := locate_of_write hwrite
  have hplain := hname (Path.not_mem_of_join (walk_of_locate hspot).1)
  obtain ⟨hfits, hcases⟩ := h.write_cases hplain hlink hwrite
  have hnamed : ∀ other ∈ [file], Path.IsPlain other.1 ∧ Fits directory other.1 :=
    List.forall_mem_singleton.mpr ⟨hplain, hfits⟩
  rcases hcases with ⟨rfl, hflat⟩ | ⟨rfl, hsink⟩
  · obtain ⟨entries, hentries⟩ := h.there
    exact {
      rewritten := Node.rewritten_put_file h.there hflat file.2
      beside := fun name hmem => Node.at?_put_ne h.there (List.ne_of_not_mem_cons hmem) _
      named := hnamed
      filled := List.forall_mem_singleton.mpr (.inl (Node.at?_put_concat hentries _ _)) }
  · have hflat : Node.IsFlat (t'.root.at? (around ++ [file.1])) := by
      rw [hsink]
      rfl
    exact {
      rewritten := {
        elsewhere := fun _ _ => .inl rfl
        before := List.forall_mem_singleton.mpr hflat
        behind := List.forall_mem_singleton.mpr hflat }
      beside := fun _ _ => rfl
      named := hnamed
      filled := List.forall_mem_singleton.mpr (.inr hsink) }

theorem Filled.houses (hfilled : t.Filled t' directory around files)
    (h : t.Houses directory around) : t'.Houses directory around :=
  h.guided hfilled.rewritten.guides

theorem Filled.locate_eq (hfilled : t.Filled t' directory around files)
    (h : t.Houses directory around) (hname : 0 ∉ name → Path.IsPlain name)
    (hlink : ¬ t.IsLink (directory.join name)) (hnew : name ∉ files.map (·.1))
    (purpose : Purpose) :
    t'.locate purpose (directory.join name) = t.locate purpose (directory.join name) :=
  h.locate_congr (hfilled.houses h) hname hlink (hfilled.beside name hnew) purpose

/-- What was written is read, unless it went where nothing is kept. -/
theorem Filled.read (hfilled : t.Filled t' directory around files) (h : t.Houses directory around)
    (hfile : file ∈ files) : t'.read (directory.join file.1) = .ok file.2 ∨
      t.node (directory.join file.1) = .ok .sink := by
  obtain ⟨hname, hfits⟩ := hfilled.named file hfile
  refine (hfilled.filled file hfile).imp ((hfilled.houses h).read hname hfits) fun hsink => ?_
  obtain ⟨links, hlocate⟩ := h.locate hname
  have hlook := hlocate .look
  rw [if_pos hfits, hsink] at hlook
  rw [node, hlook]
  rfl

theorem writeIn_cons_of_write (hwrite : t.write (directory.join file.1) file.2 = .ok t')
    (files : List (Bytes × Bytes)) :
    t.writeIn directory (file :: files) = t'.writeIn directory files := by
  rw [writeIn, hwrite]
  rfl

theorem filled_of_writeIn (h : t.Houses directory around)
    (hplain : ∀ file ∈ files, 0 ∉ file.1 → Path.IsPlain file.1)
    (hdistinct : (files.map (·.1)).Nodup)
    (hlinks : ∀ file ∈ files, ¬ t.IsLink (directory.join file.1))
    (hfault : (t.writeIn directory files).fault = none) :
    t.Filled (t.writeIn directory files).files directory around files := by
  induction files generalizing t with
  | nil => exact .refl t directory around
  | cons file files ih =>
    rw [List.map_cons, List.nodup_cons] at hdistinct
    obtain ⟨t', hwrite, hrest⟩ := writeIn_cons_of_no_fault hfault
    have hfirst := filled_of_write h (hplain file List.mem_cons_self)
      (hlinks file List.mem_cons_self) hwrite
    have hlater (other : Bytes × Bytes) (hother : other ∈ files) :
        ¬ t'.IsLink (directory.join other.1) := by
      have hne : other.1 ≠ file.1 := fun hsame => hdistinct.1 (hsame ▸ List.mem_map_of_mem hother)
      rw [IsLink, hfirst.locate_eq h (hplain other (List.mem_cons_of_mem _ hother))
        (hlinks other (List.mem_cons_of_mem _ hother)) (mt List.mem_singleton.mp hne)]
      exact hlinks other (List.mem_cons_of_mem _ hother)
    rw [hrest] at hfault ⊢
    exact hfirst.cons (ih (hfirst.houses h)
      (fun other hother => hplain other (List.mem_cons_of_mem _ hother)) hdistinct.2 hlater hfault)
      hdistinct.1

theorem Filled.grows (hfilled : t.Filled t' directory around files)
    (hnew : ∀ file ∈ files, t.root.at? (around ++ [file.1]) = none) :
    t.root.Grows t'.root (files.map fun file => (around ++ [file.1], file.2)) where
  kept := hfilled.rewritten.extends (List.forall_mem_map.mpr hnew)
  new := List.forall_mem_map.mpr hnew
  there := List.forall_mem_map.mpr fun file hfile =>
    (hfilled.filled file hfile).resolve_right (by rw [hnew file hfile]; exact nofun)
  only place node hnode hflat := by
    rw [List.map_map]
    by_cases hplace : place ∈ files.map fun file => around ++ [file.1]
    · exact .inr hplace
    · exact .inl (hfilled.rewritten.at?_eq_of_flat hplace hnode hflat)

/-- Files with different names that are written into a directory without them are what it has more
behind that, and they hold what was written. -/
theorem grows_of_writeIn (h : t.Houses directory around)
    (hplain : ∀ file ∈ files, 0 ∉ file.1 → Path.IsPlain file.1)
    (hdistinct : (files.map (·.1)).Nodup)
    (hnew : ∀ file ∈ files, Path.IsPlain file.1 → Fits directory file.1 →
      t.root.at? (around ++ [file.1]) = none)
    (hfault : (t.writeIn directory files).fault = none) :
    t.root.Grows (t.writeIn directory files).files.root
        (files.map fun file => (around ++ [file.1], file.2)) ∧
      ∀ file ∈ files,
        (t.writeIn directory files).files.read (directory.join file.1) = .ok file.2 := by
  have hlinks (file : Bytes × Bytes) (hfile : file ∈ files) :
      ¬ t.IsLink (directory.join file.1) := by
    rintro ⟨place, target, hlink⟩
    have hname := hplain file hfile (Path.not_mem_of_join (walk_of_locate hlink).1)
    obtain ⟨links, hlocate⟩ := h.locate hname
    rw [hlocate] at hlink
    by_cases hfits : Fits directory file.1
    · rw [if_pos hfits, hnew file hfile hname hfits] at hlink
      cases hlink
    · rw [if_neg hfits] at hlink
      cases hlink
  have hfilled := filled_of_writeIn h hplain hdistinct hlinks hfault
  have habsent (file : Bytes × Bytes) (hfile : file ∈ files) :
      t.root.at? (around ++ [file.1]) = none :=
    hnew file hfile (hfilled.named file hfile).1 (hfilled.named file hfile).2
  have hgrows := hfilled.grows habsent
  refine ⟨hgrows, fun file hfile => ?_⟩
  exact (hfilled.houses h).read (hfilled.named file hfile).1 (hfilled.named file hfile).2
    (hgrows.there _ (List.mem_map_of_mem hfile))

/-- If not all files can be written, there is a first one that cannot, and all before it are. -/
theorem writeIn_fails (hfault : (t.writeIn directory files).fault = some fault) :
    ∃ before lost behind, files = before ++ lost :: behind ∧
      t.writeIn directory before = ⟨(t.writeIn directory files).files, none⟩ ∧
      (t.writeIn directory files).files.write (directory.join lost.1) lost.2 = .error fault := by
  induction files generalizing t with
  | nil => cases hfault
  | cons file files ih =>
    cases hwrite : t.write (directory.join file.1) file.2 with
    | error first =>
      have hlost : t.writeIn directory (file :: files) = ⟨t, some first⟩ := by
        rw [writeIn, hwrite]
        rfl
      rw [hlost] at hfault ⊢
      cases hfault
      exact ⟨[], file, files, rfl, rfl, hwrite⟩
    | ok t' =>
      rw [writeIn_cons_of_write hwrite] at hfault ⊢
      obtain ⟨before, lost, behind, rfl, hbefore, hlost⟩ := ih hfault
      exact ⟨file :: before, lost, behind, rfl, (writeIn_cons_of_write hwrite before).trans hbefore,
        hlost⟩

end FileTree

end WireReplay
