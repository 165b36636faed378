import WireReplay.Proofs.Paths

/-!
# Growing trees

A file tree grows when files and directories are added and nothing is taken away. To make a
directory with all those around it adds no file. A file that was there is read as before, whichever
path leads to it.
-/

namespace WireReplay

namespace Node

variable {root root' root'' new node : Node} {place other here : List Bytes} {name : Bytes}

theorem Extends.trans (h : root.Extends root') (h' : root'.Extends root'') :
    root.Extends root'' := by
  intro place node hnode
  obtain ⟨node', hnode', hsame⟩ := h place node hnode
  obtain ⟨node'', hnode'', hsame'⟩ := h' place node' hnode'
  refine ⟨node'', hnode'', ?_⟩
  rcases hsame with rfl | ⟨hdirectory, hdirectory'⟩
  · exact hsame'
  · rcases hsame' with rfl | ⟨-, hdirectory''⟩
    · exact .inr ⟨hdirectory, hdirectory'⟩
    · exact .inr ⟨hdirectory, hdirectory''⟩

theorem Extends.at?_eq (h : root.Extends root') (hnode : root.at? place = some node)
    (hflat : node.isDirectory = false) : root'.at? place = some node := by
  obtain ⟨node', hnode', rfl | ⟨hdirectory, -⟩⟩ := h place node hnode
  · exact hnode'
  · rw [hflat] at hdirectory
    cases hdirectory

theorem Extends.at?_eq_none (h : root.Extends root') (hnone : root'.at? place = none) :
    root.at? place = none := by
  cases hnode : root.at? place with
  | none => rfl
  | some node =>
    obtain ⟨node', hnode', -⟩ := h place node hnode
    rw [hnone] at hnode'
    cases hnode'

theorem at?_of_leaf (hleaf : ∀ name, new.entry? name = none) (h : new.at? place = some node) :
    place = [] ∧ node = new := by
  cases place with
  | nil => exact ⟨rfl, (Option.some.inj h).symm⟩
  | cons first rest =>
    rw [at?, hleaf] at h
    cases h

theorem isDirectory_put (new : Node) (name : Bytes) (rest : List Bytes)
    (entries : List (Bytes × Node)) :
    (put new (name :: rest) (directory entries)).isDirectory = true := by
  unfold put
  split
  · rfl
  · split <;> rfl

theorem at?_put_cons_ne {first : Bytes} (hne : first ≠ name) (new : Node) (rest more : List Bytes)
    (entries : List (Bytes × Node)) :
    (put new (name :: rest) (directory entries)).at? (first :: more) =
      (directory entries).at? (first :: more) := by
  cases rest with
  | nil => rw [put, at?_cons, lookup_setEntry_ne hne, at?_cons]
  | cons next rest =>
    cases hsub : entries.lookup name with
    | none => simp only [put, hsub]
    | some sub => rw [put_cons new hsub, at?_cons, lookup_setEntry_ne hne, at?_cons]

/-- After a node without entries is put at a place, all that is no directory was there before, but
for that node. -/
theorem at?_put (hleaf : ∀ name, new.entry? name = none)
    (h : (put new place root).at? other = some node) (hflat : node.isDirectory = false) :
    root.at? other = some node ∨ other = place ∧ node = new := by
  induction place generalizing root other with
  | nil => exact .inr (at?_of_leaf hleaf h)
  | cons name rest ih =>
    cases root with
    | directory entries =>
      cases other with
      | nil =>
        have hroot := isDirectory_put new name rest entries
        rw [Option.some.inj h, hflat] at hroot
        cases hroot
      | cons first more =>
        by_cases hn : first = name
        · subst hn
          cases hsub : entries.lookup first with
          | some sub =>
            rw [put_cons new hsub, at?_cons, lookup_setEntry_self, Option.bind_some] at h
            obtain hold | ⟨rfl, rfl⟩ := ih h
            · left
              rw [at?_cons, hsub]
              exact hold
            · exact .inr ⟨rfl, rfl⟩
          | none =>
            cases rest with
            | nil =>
              rw [put, at?_cons, lookup_setEntry_self, Option.bind_some] at h
              obtain ⟨rfl, rfl⟩ := at?_of_leaf hleaf h
              exact .inr ⟨rfl, rfl⟩
            | cons next rest =>
              simp only [put, hsub] at h
              exact .inl h
        · rw [at?_put_cons_ne hn] at h
          exact .inl h
    | _ => exact .inl h

/-- The one tree has all that the other has. Beyond that it has these files, and directories. -/
structure Grows (root root' : Node) (added : List (List Bytes × Bytes)) : Prop where
  kept : root.Extends root'
  new : ∀ file ∈ added, root.at? file.1 = none
  there : ∀ file ∈ added, root'.at? file.1 = some (.file file.2)
  only : ∀ place node, root'.at? place = some node → node.isDirectory = false →
    root.at? place = some node ∨ place ∈ added.map (·.1)

theorem Grows.refl (root : Node) : root.Grows root [] where
  kept := .refl root
  new := nofun
  there := nofun
  only _ _ h _ := .inl h

theorem Grows.trans {added more : List (List Bytes × Bytes)} (h : root.Grows root' added)
    (h' : root'.Grows root'' more) : root.Grows root'' (added ++ more) where
  kept := h.kept.trans h'.kept
  new file hm := by
    rcases List.mem_append.mp hm with hm | hm
    · exact h.new file hm
    · exact h.kept.at?_eq_none (h'.new file hm)
  there file hm := by
    rcases List.mem_append.mp hm with hm | hm
    · exact h'.kept.at?_eq (h.there file hm) rfl
    · exact h'.there file hm
  only place node hnode hflat := by
    rw [List.map_append, List.mem_append]
    obtain hnode | hm := h'.only place node hnode hflat
    · exact (h.only place node hnode hflat).imp_right .inl
    · exact .inr (.inr hm)

theorem grows_put_directory (hnew : root.at? place = none) :
    root.Grows (put (.directory []) place root) [] where
  kept := extends_put hnew _
  new := nofun
  there := nofun
  only other node hnode hflat := by
    obtain hold | ⟨-, rfl⟩ := at?_put (fun _ => rfl) hnode hflat
    · exact .inl hold
    · cases hflat

end Node

namespace FileTree

section Walks

variable {root root' node : Node} {links : Nat} {here path place : List Bytes}

/-- What is no directory is found where it was, behind the same links. -/
theorem walk_of_extends (hroot : root.Extends root') (hhere : root.HasDirectory here)
    (h : walk root .look links here path = .ok (.present place node))
    (hflat : node.isDirectory = false) :
    walk root' .look links here path = .ok (.present place node) := by
  induction links using Nat.strongRecOn generalizing here path with
  | ind links ihlinks =>
    induction path generalizing here with
    | nil =>
      obtain ⟨entries, hhere⟩ := hhere
      rw [walk, hhere] at h
      cases h
      cases hflat
    | cons part rest ih =>
      replace h := walk_cons_cases h
      rcases h with ⟨hstay, h⟩ | ⟨rfl, h⟩ | ⟨hname, h⟩
      · rw [walk, if_pos hstay]
        exact ih hhere h
      · rw [walk, if_neg (by decide), if_pos rfl]
        exact ih (Node.hasDirectory_dropLast hhere) h
      · rw [walk_eq_enter hname, ← Node.at?_concat]
        cases hfound : root.at? (here ++ [part]) with
        | none =>
          rw [hfound, enter] at h
          split at h <;> cases h
        | some entry =>
          rw [hfound] at h
          cases entry with
          | directory entries =>
            obtain ⟨entries', hentries'⟩ := hroot.hasDirectory ⟨entries, hfound⟩
            rw [hentries']
            exact ih ⟨entries, hfound⟩ h
          | link target =>
            rw [hroot.at?_eq hfound rfl]
            dsimp only [enter] at h ⊢
            rw [if_neg (by simp)] at h ⊢
            cases links with
            | zero => cases h
            | succ links =>
              exact ihlinks links (Nat.lt_succ_self links)
                (Node.hasDirectory_start hhere target) h
          | file | pipe | sink =>
            rw [hroot.at?_eq hfound rfl]
            exact h

end Walks

variable {t t' : FileTree} {p : Path} {spot : Spot} {purpose : Purpose}

theorem locate_of_locate (h : t.locate purpose p = .ok spot) {t' : FileTree} {other : Purpose} :
    t'.locate other p = walk t'.root other linkLimit [] p.parts := by
  rw [locate] at h ⊢
  split at h
  · cases h
  · split at h
    · cases h
    · split at h
      · cases h
      · rw [if_neg ‹_›, if_neg ‹_›, if_neg ‹_›]

theorem read_of_extends (hroot : t.root.HasDirectory []) (h : t.root.Extends t'.root)
    {bytes : Bytes} (hread : t.read p = .ok bytes) : t'.read p = .ok bytes := by
  have hlocate (place : List Bytes) (node : Node) (hflat : node.isDirectory = false)
      (hnode : t.locate .look p = .ok (.present place node)) :
      t'.locate .look p = .ok (.present place node) := by
    rw [locate_of_locate hnode]
    exact walk_of_extends h hroot (walk_of_locate hnode).2.2 hflat
  unfold read node at hread ⊢
  cases hspot : t.locate .look p with
  | error fault => rw [hspot] at hread; cases hread
  | ok spot =>
    rw [hspot] at hread
    cases spot with
    | absent => cases hread
    | present place node =>
      cases node with
      | file | sink =>
        rw [hlocate place _ rfl hspot]
        exact hread
      | directory | link | pipe => cases hread

/-! ### Directories that are made -/

theorem grows_of_makeDirectory (hroot : t.root.HasDirectory [])
    (h : t.makeDirectory p = .ok t') : t.root.Grows t'.root [] := by
  rw [makeDirectory] at h
  split at h
  · cases h
  · split at h
    · cases h
    · rename_i place hplace
      cases h
      obtain ⟨-, -, hwalk⟩ := walk_of_locate hplace
      obtain ⟨front, name, fewer, around, entries, -, -, -, haround, hnew, rfl⟩ :=
        misses_of_absent hroot hwalk
      refine Node.grows_put_directory ?_
      rw [Node.at?_concat, haround]
      exact hnew
    · cases h

theorem grows_of_ensureDirectory (hroot : t.root.HasDirectory []) (p : Path) :
    t.root.Grows (t.ensureDirectory p).files.root [] := by
  unfold ensureDirectory
  split
  · exact grows_of_makeDirectory hroot ‹_›
  · split <;> exact .refl _

theorem grows_of_makeWithin (hroot : t.root.HasDirectory []) (p : Path) (parents : List Path) :
    t.root.Grows (t.makeWithin p parents).files.root [] := by
  induction parents generalizing p with
  | nil => exact grows_of_ensureDirectory hroot p
  | cons parent others ih =>
    rw [makeWithin]
    split
    · have haround := ih parent
      cases hfault : (t.makeWithin parent others).fault with
      | none =>
        rw [Change.andThen_of_no_fault hfault]
        exact haround.trans (grows_of_ensureDirectory (haround.kept.hasDirectory hroot) p)
      | some fault =>
        rw [Change.andThen_of_fault hfault]
        exact haround
    · exact grows_of_ensureDirectory hroot p

theorem grows_of_makeDirectories (hroot : t.root.HasDirectory []) (p : Path) :
    t.root.Grows (t.makeDirectories p).files.root [] := by
  unfold makeDirectories
  split
  · exact .refl _
  · exact grows_of_makeWithin hroot p _

end FileTree

end WireReplay
