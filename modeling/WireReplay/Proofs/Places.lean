import WireReplay.Files.Tree

/-!
# Places in a file tree

A change at one place of a file tree is seen there, and leaves what it does not replace. Where no
entry stood before, it takes nothing away, so every path that led to a directory still leads there;
and what stands behind the directory in a path is found there.
-/

namespace WireReplay

namespace Node

variable {entries : List (Bytes × Node)} {name other : Bytes} {node new : Node}

theorem lookup_setEntry_self (name : Bytes) (new : Node) (entries : List (Bytes × Node)) :
    (setEntry name new entries).lookup name = some new := by
  induction entries with
  | nil => simp [setEntry]
  | cons entry rest ih =>
    obtain ⟨first, node⟩ := entry
    by_cases hn : first = name
    · simp [setEntry, hn]
    · rw [setEntry, if_neg hn, List.lookup_cons, beq_false_of_ne (Ne.symm hn)]
      exact ih

theorem lookup_setEntry_ne (h : other ≠ name) (new : Node) (entries : List (Bytes × Node)) :
    (setEntry name new entries).lookup other = entries.lookup other := by
  induction entries with
  | nil => simp [setEntry, h]
  | cons entry rest ih =>
    obtain ⟨first, node⟩ := entry
    by_cases hn : first = name
    · subst hn
      simp [setEntry, List.lookup_cons, beq_false_of_ne h]
    · rw [setEntry, if_neg hn, List.lookup_cons, List.lookup_cons, ih]

theorem setEntry_of_lookup_none (h : entries.lookup name = none) (new : Node) :
    setEntry name new entries = entries ++ [(name, new)] := by
  induction entries with
  | nil => rfl
  | cons entry rest ih =>
    obtain ⟨first, node⟩ := entry
    rw [List.lookup_cons] at h
    by_cases hn : name = first
    · simp [hn] at h
    · rw [beq_false_of_ne hn] at h
      rw [setEntry, if_neg (Ne.symm hn), ih h]
      rfl

theorem setEntry_setEntry (name : Bytes) (node new : Node) (entries : List (Bytes × Node)) :
    setEntry name new (setEntry name node entries) = setEntry name new entries := by
  induction entries with
  | nil => simp [setEntry]
  | cons entry rest ih =>
    obtain ⟨first, old⟩ := entry
    by_cases hn : first = name
    · simp [setEntry, hn]
    · simp [setEntry, hn, ih]

theorem at?_append (node : Node) (place more : List Bytes) :
    node.at? (place ++ more) = (node.at? place).bind (at? more) := by
  induction place generalizing node with
  | nil => rfl
  | cons name rest ih =>
    rw [List.cons_append, at?, at?]
    cases node.entry? name with
    | none => rfl
    | some sub => exact ih sub

theorem at?_concat (node : Node) (place : List Bytes) (name : Bytes) :
    node.at? (place ++ [name]) = (node.at? place).bind (Node.entry? name) := by
  rw [at?_append]
  cases node.at? place with
  | none => rfl
  | some found =>
    rw [Option.bind_some, Option.bind_some, at?]
    cases found.entry? name <;> rfl

theorem put_put (node new : Node) (place : List Bytes) (root : Node) :
    put new place (put node place root) = put new place root := by
  induction place generalizing root with
  | nil => rfl
  | cons name rest ih =>
    cases root with
    | directory entries =>
      cases rest with
      | nil => simp only [put, setEntry_setEntry]
      | cons next rest =>
        cases hsub : entries.lookup name with
        | none => simp only [put, hsub]
        | some sub => simp only [put, hsub, lookup_setEntry_self, setEntry_setEntry, ih]
    | _ => rfl

variable {root : Node} {here place : List Bytes}

theorem put_concat (h : root.at? here = some (.directory entries)) (name : Bytes) (new : Node) :
    put new (here ++ [name]) root = put (.directory (setEntry name new entries)) here root := by
  induction here generalizing root with
  | nil =>
    cases h
    rfl
  | cons first rest ih =>
    cases root with
    | directory others =>
      rw [at?] at h
      obtain ⟨sub, hsub, h⟩ := Option.bind_eq_some_iff.1 h
      have hlookup : others.lookup first = some sub := hsub
      cases rest with
      | nil =>
        cases h
        simp only [put, List.cons_append, List.nil_append, hlookup]
      | cons next rest =>
        simp only [put, List.cons_append, hlookup]
        rw [← List.cons_append, ih h]
    | _ => cases h

theorem at?_cons (entries : List (Bytes × Node)) (name : Bytes) (rest : List Bytes) :
    (directory entries).at? (name :: rest) = (entries.lookup name).bind (at? rest) := rfl

theorem put_cons (new : Node) {sub : Node} (h : entries.lookup name = some sub)
    (rest : List Bytes) :
    put new (name :: rest) (directory entries) =
      directory (setEntry name (put new rest sub) entries) := by
  cases rest with
  | nil => rfl
  | cons => simp only [put, h]

theorem at?_put_self {old : Node} (h : root.at? place = some old) (new : Node) :
    (put new place root).at? place = some new := by
  induction place generalizing root with
  | nil => rfl
  | cons name rest ih =>
    cases root with
    | directory entries =>
      rw [at?_cons] at h
      obtain ⟨sub, hsub, h⟩ := Option.bind_eq_some_iff.1 h
      rw [put_cons new hsub, at?_cons, lookup_setEntry_self]
      exact ih h
    | _ => cases h

theorem at?_put_concat (h : root.at? here = some (.directory entries)) (name : Bytes)
    (new : Node) : (put new (here ++ [name]) root).at? (here ++ [name]) = some new := by
  rw [put_concat h, at?_concat, at?_put_self h]
  exact lookup_setEntry_self name new entries

/-- The one node has all that the other has; its directories may have more in them. -/
def Extends (root root' : Node) : Prop :=
  ∀ place node, root.at? place = some node → ∃ node', root'.at? place = some node' ∧
    (node' = node ∨ node.isDirectory = true ∧ node'.isDirectory = true)

theorem Extends.refl (root : Node) : root.Extends root :=
  fun _ node h => ⟨node, h, .inl rfl⟩

theorem extends_setEntry (h : ∀ sub, entries.lookup name = some sub → sub.Extends new) :
    (directory entries).Extends (directory (setEntry name new entries)) := by
  intro place node hnode
  cases place with
  | nil =>
    cases hnode
    exact ⟨_, rfl, .inr ⟨rfl, rfl⟩⟩
  | cons first rest =>
    rw [at?_cons] at hnode ⊢
    obtain ⟨sub, hsub, hnode⟩ := Option.bind_eq_some_iff.1 hnode
    by_cases hn : first = name
    · subst hn
      rw [lookup_setEntry_self]
      exact h sub hsub rest node hnode
    · rw [lookup_setEntry_ne hn, hsub]
      exact ⟨node, hnode, .inl rfl⟩

theorem extends_put (h : root.at? place = none) (new : Node) :
    root.Extends (put new place root) := by
  induction place generalizing root with
  | nil => cases h
  | cons name rest ih =>
    cases root with
    | directory entries =>
      rw [at?_cons] at h
      cases hsub : entries.lookup name with
      | none =>
        cases rest with
        | nil => exact extends_setEntry fun sub hs => by rw [hsub] at hs; cases hs
        | cons =>
          simp only [put, hsub]
          exact .refl _
      | some sub =>
        rw [hsub] at h
        rw [put_cons new hsub]
        refine extends_setEntry fun other hs => ?_
        cases hsub.symm.trans hs
        exact ih h
    | _ => exact .refl _

def HasDirectory (root : Node) (place : List Bytes) : Prop :=
  ∃ entries, root.at? place = some (.directory entries)

theorem Extends.hasDirectory {root' : Node} (h : root.Extends root')
    (hd : root.HasDirectory place) : root'.HasDirectory place := by
  obtain ⟨entries, hd⟩ := hd
  obtain ⟨node', hnode', rfl | ⟨-, hdirectory⟩⟩ := h place _ hd
  · exact ⟨entries, hnode'⟩
  · cases node' with
    | directory entries' => exact ⟨entries', hnode'⟩
    | _ => cases hdirectory

/-- What paths are followed by: each directory and each link of the one tree is in the other. -/
structure Guides (root root' : Node) : Prop where
  hasDirectory : ∀ place, root.HasDirectory place → root'.HasDirectory place
  link : ∀ place target, root.at? place = some (.link target) →
    root'.at? place = some (.link target)

theorem Extends.guides {root' : Node} (h : root.Extends root') : root.Guides root' where
  hasDirectory _ := h.hasDirectory
  link place target hlink := by
    obtain ⟨node', hnode', rfl | ⟨hdirectory, -⟩⟩ := h place _ hlink
    · exact hnode'
    · cases hdirectory

theorem hasDirectory_root (h : root.HasDirectory place) : root.HasDirectory [] := by
  obtain ⟨entries, h⟩ := h
  cases root with
  | directory others => exact ⟨others, rfl⟩
  | _ => cases place <;> cases h

theorem hasDirectory_dropLast (h : root.HasDirectory place) : root.HasDirectory place.dropLast := by
  rcases List.eq_nil_or_concat place with rfl | ⟨init, last, rfl⟩
  · exact h
  · obtain ⟨entries, h⟩ := h
    rw [List.concat_eq_append, at?_concat] at h
    obtain ⟨around, haround, h⟩ := Option.bind_eq_some_iff.1 h
    rw [List.concat_eq_append, List.dropLast_concat]
    cases around with
    | directory others => exact ⟨others, haround⟩
    | _ => cases h

theorem hasDirectory_start (h : root.HasDirectory here) (target : Path) :
    root.HasDirectory (if target.isAbsolute then [] else here) := by
  split
  · exact hasDirectory_root h
  · exact h

end Node

namespace FileTree

/-- A walk takes this part of a path for the name of an entry, and one that there can be. -/
structure IsName (purpose : Purpose) (part : Bytes) (rest : List Bytes) : Prop where
  leads : ¬ (part = [] ∨ part = [Path.dot])
  notUp : part ≠ [Path.dot, Path.dot]
  notSlashed : ¬ (purpose = .write ∧ rest ≠ [] ∧ rest.all (· = []))
  short : ¬ nameLimit < part.length

def enter (root : Node) (purpose : Purpose) (links : Nat) (here : List Bytes) (part : Bytes)
    (rest : List Bytes) : Option Node → Except Fault Spot
  | none => if rest = [] then .ok (.absent (here ++ [part])) else .error noSuchEntry
  | some (.directory _) => walk root purpose links (here ++ [part]) rest
  | some (.link target) =>
    if rest = [] ∧ purpose = .entry then .ok (.present (here ++ [part]) (.link target))
    else
      match links with
      | 0 => .error tooManyLinks
      | links + 1 =>
        walk root purpose links (if target.isAbsolute then [] else here) (target.parts ++ rest)
  | some node => if rest = [] then .ok (.present (here ++ [part]) node) else .error notDirectory

theorem walk_eq_enter {purpose : Purpose} {part : Bytes} {rest : List Bytes}
    (h : IsName purpose part rest) (root : Node) (links : Nat) (here : List Bytes) :
    walk root purpose links here (part :: rest) =
      enter root purpose links here part rest ((root.at? here).bind (Node.entry? part)) := by
  rw [walk, if_neg h.leads, if_neg h.notUp, if_neg h.notSlashed, if_neg h.short]
  cases (root.at? here).bind (Node.entry? part) with
  | none => rfl
  | some node => cases node <;> rfl

theorem IsName.append {purpose other : Purpose} {part : Bytes} {rest tail : List Bytes}
    (h : IsName other part rest) (htail : ∃ last ∈ tail, last ≠ []) :
    IsName purpose part (rest ++ tail) where
  leads := h.leads
  notUp := h.notUp
  notSlashed := by
    rintro ⟨-, -, hall⟩
    obtain ⟨last, hm, hne⟩ := htail
    exact hne (of_decide_eq_true (List.all_eq_true.1 hall last (List.mem_append_right _ hm)))
  short := h.short

theorem IsName.look {part : Bytes} {rest : List Bytes} {purpose : Purpose}
    (h : IsName purpose part rest) (others : List Bytes) : IsName .look part others :=
  ⟨h.leads, h.notUp, fun h => absurd h.1 (by decide), h.short⟩

/-- The steps of a walk that arrives somewhere: it stays, goes up, or finds something at a name. -/
theorem walk_cons_cases {root : Node} {purpose : Purpose} {links : Nat} {here : List Bytes}
    {part : Bytes} {rest : List Bytes} {spot : Spot}
    (h : walk root purpose links here (part :: rest) = .ok spot) :
    ((part = [] ∨ part = [Path.dot]) ∧ walk root purpose links here rest = .ok spot) ∨
      (part = [Path.dot, Path.dot] ∧ walk root purpose links here.dropLast rest = .ok spot) ∨
      (IsName purpose part rest ∧
        enter root purpose links here part rest (root.at? (here ++ [part])) = .ok spot) := by
  by_cases hstay : part = [] ∨ part = [Path.dot]
  · rw [walk, if_pos hstay] at h
    exact .inl ⟨hstay, h⟩
  by_cases hup : part = [Path.dot, Path.dot]
  · rw [walk, if_neg hstay, if_pos hup] at h
    exact .inr (.inl ⟨hup, h⟩)
  by_cases hslashed : purpose = .write ∧ rest ≠ [] ∧ rest.all (· = [])
  · rw [walk, if_neg hstay, if_neg hup, if_pos hslashed] at h
    cases h
  by_cases hlong : nameLimit < part.length
  · rw [walk, if_neg hstay, if_neg hup, if_neg hslashed, if_pos hlong] at h
    cases h
  have hname : IsName purpose part rest := ⟨hstay, hup, hslashed, hlong⟩
  rw [walk_eq_enter hname, ← Node.at?_concat] at h
  exact .inr (.inr ⟨hname, h⟩)

/-- A path leads from one place to another through directories only. It may follow so many links,
and those that are left may be followed behind it. -/
inductive Leads (root : Node) : Nat → List Bytes → List Bytes → Nat → List Bytes → Prop
  | arrive (links : Nat) (here : List Bytes) : Leads root links here [] links here
  | stay {links fewer : Nat} {here place rest : List Bytes} {part : Bytes}
      (h : part = [] ∨ part = [Path.dot]) (hrest : Leads root links here rest fewer place) :
      Leads root links here (part :: rest) fewer place
  | up {links fewer : Nat} {here place rest : List Bytes}
      (hrest : Leads root links here.dropLast rest fewer place) :
      Leads root links here ([Path.dot, Path.dot] :: rest) fewer place
  | enter {links fewer : Nat} {here place rest : List Bytes} {part : Bytes}
      (h : IsName .look part rest) (hentry : root.HasDirectory (here ++ [part]))
      (hrest : Leads root links (here ++ [part]) rest fewer place) :
      Leads root links here (part :: rest) fewer place
  | follow {links fewer : Nat} {here place rest : List Bytes} {part : Bytes} {target : Path}
      (h : IsName .look part rest) (hentry : root.at? (here ++ [part]) = some (.link target))
      (hrest : Leads root links (if target.isAbsolute then [] else here) (target.parts ++ rest)
        fewer place) :
      Leads root (links + 1) here (part :: rest) fewer place

section Leads

variable {root root' : Node} {links fewer last : Nat} {here place there path more : List Bytes}

/-- What stands behind such a path is looked for at its end. -/
theorem walk_of_leads (h : Leads root links here path fewer place) {tail : List Bytes}
    (htail : ∃ last ∈ tail, last ≠ []) (purpose : Purpose) :
    walk root purpose links here (path ++ tail) = walk root purpose fewer place tail := by
  induction h with
  | arrive => rfl
  | stay h _ ih => rw [List.cons_append, walk, if_pos h, ih]
  | up _ ih =>
    rw [List.cons_append, walk, if_neg (by decide), if_pos rfl, ih]
  | @enter links fewer here place rest part h hentry _ ih =>
    obtain ⟨entries, hentry⟩ := hentry
    rw [Node.at?_concat] at hentry
    rw [List.cons_append, walk_eq_enter (h.append htail), hentry]
    exact ih
  | @follow links fewer here place rest part target h hentry _ ih =>
    have hmore : ¬ (rest ++ tail = [] ∧ purpose = .entry) := by
      rintro ⟨hnil, -⟩
      obtain ⟨last, hm, -⟩ := htail
      rw [(List.append_eq_nil_iff.1 hnil).2] at hm
      exact absurd hm List.not_mem_nil
    rw [Node.at?_concat] at hentry
    rw [List.cons_append, walk_eq_enter (h.append htail), hentry, enter, if_neg hmore,
      ← List.append_assoc]
    exact ih

theorem Leads.append (h : Leads root links here path fewer place)
    (hmore : Leads root fewer place more last there) :
    Leads root links here (path ++ more) last there := by
  induction h with
  | arrive => exact hmore
  | stay h _ ih => exact .stay h (ih hmore)
  | up _ ih => exact .up (ih hmore)
  | enter h hentry _ ih => exact .enter (h.look _) hentry (ih hmore)
  | follow h hentry _ ih =>
    have hbehind := ih hmore
    rw [List.append_assoc] at hbehind
    exact .follow (h.look _) hentry hbehind

theorem Leads.guided (hroot : root.Guides root') (h : Leads root links here path fewer place) :
    Leads root' links here path fewer place := by
  induction h with
  | arrive => exact .arrive _ _
  | stay h _ ih => exact .stay h ih
  | up _ ih => exact .up ih
  | enter h hentry _ ih => exact .enter h (hroot.hasDirectory _ hentry) ih
  | follow h hentry _ ih => exact .follow h (hroot.link _ _ hentry) ih

/-- A path leads to a directory, and there its last name is that of an entry that is missing. -/
def Misses (root : Node) (links : Nat) (here path place : List Bytes) : Prop :=
  ∃ front name fewer around entries, path = front ++ [name] ∧ IsName .look name [] ∧
    Leads root links here front fewer around ∧
    root.at? around = some (.directory entries) ∧ entries.lookup name = none ∧
    place = around ++ [name]

theorem Misses.cons {left : Nat} {start : List Bytes} {part : Bytes}
    (hstep : ∀ front fewer around, Leads root left start front fewer around →
      Leads root links here (part :: front) fewer around)
    (h : Misses root left start path place) : Misses root links here (part :: path) place := by
  obtain ⟨front, name, fewer, around, entries, rfl, hname, hleads, hmissing⟩ := h
  exact ⟨part :: front, name, fewer, around, entries, rfl, hname, hstep _ _ _ hleads, hmissing⟩

theorem Misses.follow {part : Bytes} {target : Path} (h : IsName .look part path)
    (hentry : root.at? (here ++ [part]) = some (.link target)) (hpath : path ≠ [])
    (hmissing : Misses root links (if target.isAbsolute then [] else here) (target.parts ++ path)
      place) : Misses root (links + 1) here (part :: path) place := by
  obtain ⟨front, name, fewer, around, entries, hparts, hname, hleads, hmissing⟩ := hmissing
  rcases List.eq_nil_or_concat path with rfl | ⟨init, last, rfl⟩
  · exact absurd rfl hpath
  · rw [List.concat_eq_append, ← List.append_assoc] at hparts
    obtain ⟨rfl, hsame⟩ := List.append_inj' hparts rfl
    cases hsame
    exact ⟨part :: init, name, fewer, around, entries, by simp, hname,
      .follow (h.look _) hentry hleads, hmissing⟩

/-- Behind a link the path may be longer, but fewer links may be followed than before. -/
theorem misses_of_absent (hhere : root.HasDirectory here)
    (h : walk root .entry links here path = .ok (.absent place)) :
    Misses root links here path place := by
  induction links using Nat.strongRecOn generalizing here path with
  | ind links ihlinks =>
    induction path generalizing here with
    | nil =>
      rw [walk] at h
      cases h
    | cons part rest ih =>
      replace h := walk_cons_cases h
      rcases h with ⟨hstay, h⟩ | ⟨rfl, h⟩ | ⟨hname, h⟩
      · exact (ih hhere h).cons fun _ _ _ => .stay hstay
      · exact (ih (Node.hasDirectory_dropLast hhere) h).cons fun _ _ _ => .up
      · cases hfound : root.at? (here ++ [part]) with
        | none =>
          rw [hfound, enter] at h
          split at h
          · subst rest
            obtain ⟨entries, hdirectory⟩ := hhere
            rw [Node.at?_concat, hdirectory] at hfound
            cases h
            exact ⟨[], part, links, here, entries, rfl, hname.look _, .arrive _ _, hdirectory,
              hfound, rfl⟩
          · cases h
        | some entry =>
          rw [hfound] at h
          cases entry with
          | directory entries =>
            have hentry : root.HasDirectory (here ++ [part]) := ⟨entries, hfound⟩
            exact (ih hentry h).cons fun _ _ _ => .enter (hname.look _) hentry
          | link target =>
            dsimp only [enter] at h
            split at h
            · cases h
            · rename_i hmore
              cases links with
              | zero => cases h
              | succ links =>
                exact (ihlinks links (Nat.lt_succ_self links)
                  (Node.hasDirectory_start hhere target) h).follow (hname.look _) hfound
                  fun hrest => hmore ⟨hrest, rfl⟩
          | file | pipe | sink => dsimp only [enter] at h; split at h <;> cases h

theorem leads_of_walk {purpose : Purpose} {name : Bytes} {spot : Spot}
    (hhere : root.HasDirectory here)
    (h : walk root purpose links here (path ++ [name]) = .ok spot) :
    ∃ fewer around, Leads root links here path fewer around ∧ root.HasDirectory around := by
  induction links using Nat.strongRecOn generalizing here path with
  | ind links ihlinks =>
    induction path generalizing here with
    | nil => exact ⟨links, here, .arrive links here, hhere⟩
    | cons part rest ih =>
      have hmore : rest ++ [name] ≠ [] := by simp
      rw [List.cons_append] at h
      replace h := walk_cons_cases h
      rcases h with ⟨hstay, h⟩ | ⟨rfl, h⟩ | ⟨hpart, h⟩
      · obtain ⟨fewer, around, hleads, haround⟩ := ih hhere h
        exact ⟨fewer, around, .stay hstay hleads, haround⟩
      · obtain ⟨fewer, around, hleads, haround⟩ := ih (Node.hasDirectory_dropLast hhere) h
        exact ⟨fewer, around, .up hleads, haround⟩
      · cases hfound : root.at? (here ++ [part]) with
        | none =>
          rw [hfound, enter, if_neg hmore] at h
          cases h
        | some entry =>
          rw [hfound] at h
          cases entry with
          | directory entries =>
            have hentry : root.HasDirectory (here ++ [part]) := ⟨entries, hfound⟩
            obtain ⟨fewer, around, hleads, haround⟩ := ih hentry h
            exact ⟨fewer, around, .enter (hpart.look _) hentry hleads, haround⟩
          | link target =>
            dsimp only [enter] at h
            rw [if_neg fun hend => hmore hend.1] at h
            cases links with
            | zero => cases h
            | succ links =>
              rw [← List.append_assoc] at h
              obtain ⟨fewer, around, hleads, haround⟩ :=
                ihlinks links (Nat.lt_succ_self links) (Node.hasDirectory_start hhere target) h
              exact ⟨fewer, around, .follow (hpart.look _) hfound hleads, haround⟩
          | file | pipe | sink =>
            dsimp only [enter] at h
            rw [if_neg hmore] at h
            cases h

end Leads

end FileTree

end WireReplay
