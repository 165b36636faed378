import Mathlib.Data.List.Nodup

/-!
# Entries with different keys

If no two entries of a list have the same key, what is found under a key does not depend on the
order of the entries.
-/

namespace WireReplay

variable {κ α : Type} [BEq κ] [LawfulBEq κ] {entries moved : List (κ × α)} {key : κ} {value : α}

theorem lookup_eq_some_iff_mem (h : (entries.map (·.1)).Nodup) :
    entries.lookup key = some value ↔ (key, value) ∈ entries := by
  induction entries with
  | nil => simp
  | cons entry rest ih =>
    obtain ⟨first, other⟩ := entry
    obtain ⟨hfirst, hrest⟩ := List.nodup_cons.1 h
    rw [List.lookup_cons, List.mem_cons]
    by_cases hk : key = first
    · subst hk
      have hnot : (key, value) ∉ rest := fun hm => hfirst (List.mem_map.2 ⟨_, hm, rfl⟩)
      simp [hnot, eq_comm]
    · simp [beq_false_of_ne hk, hk, ih hrest]

theorem lookup_eq_of_perm (h : (entries.map (·.1)).Nodup) (hp : entries.Perm moved) :
    moved.lookup key = entries.lookup key := by
  have hmoved : (moved.map (·.1)).Nodup := (hp.map _).nodup_iff.1 h
  ext value
  rw [lookup_eq_some_iff_mem h, lookup_eq_some_iff_mem hmoved, hp.mem_iff]

/-- What a function has for the keys of a list, as entries. -/
def entriesOf (f : κ → Option α) (keys : List κ) : List (κ × α) :=
  keys.filterMap fun key => (f key).map (key, ·)

variable {f : κ → Option α} {keys : List κ}

omit [BEq κ] [LawfulBEq κ] in
theorem mem_entriesOf : (key, value) ∈ entriesOf f keys ↔ key ∈ keys ∧ f key = some value := by
  simp [entriesOf]

omit [BEq κ] [LawfulBEq κ] in
theorem keys_entriesOf : (entriesOf f keys).map (·.1) = keys.filter fun key => (f key).isSome := by
  induction keys with
  | nil => rfl
  | cons key rest ih =>
    rw [entriesOf, List.filterMap_cons, List.filter_cons]
    cases f key with
    | none => exact ih
    | some value => exact congrArg (key :: ·) ih

omit [BEq κ] [LawfulBEq κ] in
theorem nodup_entriesOf (h : keys.Nodup) : ((entriesOf f keys).map (·.1)).Nodup := by
  rw [keys_entriesOf]
  exact h.filter _

theorem lookup_entriesOf (h : keys.Nodup) (hkey : ∀ value, f key = some value → key ∈ keys) :
    (entriesOf f keys).lookup key = f key := by
  ext value
  rw [lookup_eq_some_iff_mem (nodup_entriesOf h), mem_entriesOf]
  exact and_iff_right_of_imp (hkey value)

end WireReplay
