import Mathlib.Data.List.Forall2
import Mathlib.Data.Option.Basic
import WireReplay.Proofs.Entries
import WireReplay.Proofs.Places

/-!
# Directories enumerated in another order

The entries of a directory have different names, and they are enumerated in no particular order. No
path leads anywhere else for that: whatever is read at a path is read in the same way if directories
enumerate their entries in another order.
-/

namespace WireReplay

/-- The same node, except that directories may enumerate their entries in another order. -/
inductive Node.Rearranged : Node → Node → Prop
  | refl (node : Node) : Rearranged node node
  | directory {entries moved entries' : List (Bytes × Node)}
      (hdistinct : (entries.map (·.1)).Nodup) (hmoved : entries.Perm moved)
      (hnames : entries'.map (·.1) = moved.map (·.1))
      (hnodes : List.Forall₂ Rearranged (moved.map (·.2)) (entries'.map (·.2))) :
      Rearranged (.directory entries) (.directory entries')

namespace Node

variable {node node' : Node} {moved entries' : List (Bytes × Node)} {name : Bytes}

theorem lookup_rel {R : Node → Node → Prop} (hnames : entries'.map (·.1) = moved.map (·.1))
    (hnodes : List.Forall₂ R (moved.map (·.2)) (entries'.map (·.2))) (name : Bytes) :
    Option.Rel R (moved.lookup name) (entries'.lookup name) := by
  induction moved generalizing entries' with
  | nil =>
    cases List.map_eq_nil_iff.1 hnames
    exact .none
  | cons entry rest ih =>
    obtain ⟨entry', rest', rfl, hfirst, hrest⟩ := List.map_eq_cons_iff.1 hnames
    obtain ⟨first, other⟩ := entry
    obtain ⟨first', other'⟩ := entry'
    obtain rfl : first' = first := hfirst
    obtain ⟨hother, hothers⟩ := List.forall₂_cons.1 hnodes
    rw [List.lookup_cons, List.lookup_cons]
    cases name == first' with
    | true => exact .some hother
    | false => exact ih hrest hothers

namespace Rearranged

theorem option_refl (found : Option Node) : Option.Rel Rearranged found found := by
  cases found with
  | none => exact .none
  | some node => exact .some (.refl node)

theorem entry? (h : node.Rearranged node') (name : Bytes) :
    Option.Rel Rearranged (node.entry? name) (node'.entry? name) := by
  cases h with
  | refl => exact option_refl _
  | directory hdistinct hmoved hnames hnodes =>
    have hrel := lookup_rel hnames hnodes name
    rwa [lookup_eq_of_perm hdistinct hmoved] at hrel

theorem bind_entry? {found found' : Option Node} (h : Option.Rel Rearranged found found')
    (name : Bytes) :
    Option.Rel Rearranged (found.bind (Node.entry? name)) (found'.bind (Node.entry? name)) := by
  cases h with
  | none => exact .none
  | some h => exact h.entry? name

theorem at? (h : node.Rearranged node') (place : List Bytes) :
    Option.Rel Rearranged (node.at? place) (node'.at? place) := by
  induction place generalizing node node' with
  | nil => exact .some h
  | cons name rest ih =>
    have hentry := h.entry? name
    rw [Node.at?, Node.at?]
    generalize node.entry? name = found at hentry
    generalize node'.entry? name = found' at hentry
    cases hentry with
    | none => exact .none
    | some h => exact ih h

theorem isFile_eq (h : node.Rearranged node') : node'.isFile = node.isFile := by
  cases h <;> rfl

theorem isDirectory_eq (h : node.Rearranged node') : node'.isDirectory = node.isDirectory := by
  cases h <;> rfl

end Rearranged

end Node

namespace FileTree

/-- What comes of following a path in trees of which the directories enumerate their entries in
different orders. -/
inductive AlikeSpots : Except Fault Spot → Except Fault Spot → Prop
  | error (fault : Fault) : AlikeSpots (.error fault) (.error fault)
  | absent (place : List Bytes) : AlikeSpots (.ok (.absent place)) (.ok (.absent place))
  | present (place : List Bytes) {node node' : Node} (h : node.Rearranged node') :
      AlikeSpots (.ok (.present place node)) (.ok (.present place node'))

theorem AlikeSpots.ite_last {c : Prop} [Decidable c] {a a' : Except Fault Spot} {fault : Fault}
    (h : AlikeSpots a a') :
    AlikeSpots (if c then a else .error fault) (if c then a' else .error fault) := by
  by_cases hc : c
  · rwa [if_pos hc, if_pos hc]
  · rw [if_neg hc, if_neg hc]
    exact .error fault

theorem enter_alike {root root' : Node} {purpose : Purpose} {links : Nat} {here : List Bytes}
    {part : Bytes} {rest : List Bytes} {found found' : Option Node}
    (h : Option.Rel Node.Rearranged found found')
    (hdirectory : AlikeSpots (walk root purpose links (here ++ [part]) rest)
      (walk root' purpose links (here ++ [part]) rest))
    (hlink : ∀ fewer < links, ∀ here path,
      AlikeSpots (walk root purpose fewer here path) (walk root' purpose fewer here path)) :
    AlikeSpots (enter root purpose links here part rest found)
      (enter root' purpose links here part rest found') := by
  cases h with
  | none => exact (AlikeSpots.absent _).ite_last
  | @some entry entry' h =>
    cases h with
    | directory => exact hdirectory
    | refl =>
      cases entry with
      | directory entries => exact hdirectory
      | link target =>
        dsimp only [enter]
        by_cases hentry : rest = [] ∧ purpose = .entry
        · rw [if_pos hentry, if_pos hentry]
          exact .present _ (.refl _)
        · rw [if_neg hentry, if_neg hentry]
          cases links with
          | zero => exact .error _
          | succ links => exact hlink links (Nat.lt_succ_self links) _ _
      | file | pipe | sink => exact (AlikeSpots.present _ (.refl _)).ite_last

/-- A path leads to the same place in both trees. -/
theorem walk_alike {root root' : Node} (h : root.Rearranged root') (purpose : Purpose)
    (links : Nat) (here path : List Bytes) :
    AlikeSpots (walk root purpose links here path) (walk root' purpose links here path) := by
  induction links using Nat.strongRecOn generalizing here path with
  | ind links ihlinks =>
    induction path generalizing here with
    | nil =>
      rw [walk, walk]
      have hfound := h.at? here
      generalize root.at? here = found at hfound ⊢
      generalize root'.at? here = found' at hfound ⊢
      cases hfound with
      | none => exact .present here h
      | some h => exact .present here h
    | cons part rest ih =>
      by_cases hstay : part = [] ∨ part = [Path.dot]
      · rw [walk, walk, if_pos hstay, if_pos hstay]
        exact ih here
      by_cases hup : part = [Path.dot, Path.dot]
      · rw [walk, walk, if_neg hstay, if_neg hstay, if_pos hup, if_pos hup]
        exact ih here.dropLast
      by_cases hslashed : purpose = .write ∧ rest ≠ [] ∧ rest.all (· = [])
      · rw [walk, walk, if_neg hstay, if_neg hstay, if_neg hup, if_neg hup, if_pos hslashed,
          if_pos hslashed]
        exact .error _
      by_cases hlong : nameLimit < part.length
      · rw [walk, walk, if_neg hstay, if_neg hstay, if_neg hup, if_neg hup, if_neg hslashed,
          if_neg hslashed, if_pos hlong, if_pos hlong]
        exact .error _
      have hname : IsName purpose part rest := ⟨hstay, hup, hslashed, hlong⟩
      rw [walk_eq_enter hname, walk_eq_enter hname]
      exact enter_alike (Node.Rearranged.bind_entry? (h.at? here) part) (ih _) ihlinks

variable {files files' : FileTree}

theorem locate_alike (h : files.root.Rearranged files'.root) (purpose : Purpose) (path : Path) :
    AlikeSpots (files.locate purpose path) (files'.locate purpose path) := by
  unfold locate
  split_ifs
  · exact .error _
  · exact .error _
  · exact .error _
  · exact walk_alike h purpose linkLimit [] path.parts

theorem node_alike (h : files.root.Rearranged files'.root) (path : Path) :
    (∃ fault, files.node path = .error fault ∧ files'.node path = .error fault) ∨
      ∃ node node', files.node path = .ok node ∧ files'.node path = .ok node' ∧
        node.Rearranged node' := by
  unfold node
  generalize files.locate .look path = spot, files'.locate .look path = spot',
    locate_alike h .look path = hspots
  cases hspots with
  | error fault => exact .inl ⟨fault, rfl, rfl⟩
  | absent place => exact .inl ⟨noSuchEntry, rfl, rfl⟩
  | present place h => exact .inr ⟨_, _, rfl, rfl, h⟩

theorem isDirectory_eq_of_rearranged (h : files.root.Rearranged files'.root) (path : Path) :
    files'.isDirectory path = files.isDirectory path := by
  unfold isDirectory
  obtain ⟨fault, hn, hn'⟩ | ⟨node, node', hn, hn', hnode⟩ := node_alike h path
  · rw [hn, hn']
  · rw [hn, hn']
    exact hnode.isDirectory_eq

theorem isFile_eq_of_rearranged (h : files.root.Rearranged files'.root) (path : Path) :
    files'.isFile path = files.isFile path := by
  unfold isFile
  obtain ⟨fault, hn, hn'⟩ | ⟨node, node', hn, hn', hnode⟩ := node_alike h path
  · rw [hn, hn']
  · rw [hn, hn']
    exact hnode.isFile_eq

theorem read_eq_of_rearranged (h : files.root.Rearranged files'.root) (path : Path) :
    files'.read path = files.read path := by
  unfold read
  obtain ⟨fault, hn, hn'⟩ | ⟨node, node', hn, hn', hnode⟩ := node_alike h path
  · rw [hn, hn']
  · rw [hn, hn']
    cases hnode <;> rfl

end FileTree

end WireReplay
