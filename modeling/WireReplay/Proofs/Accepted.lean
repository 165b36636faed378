import WireReplay.Command.Line

/-!
# Accepted command lines

Whatever a line sets is looked at before the line is accepted: before the next value is set, or at
the end. So of a line that is a command, each value is one that its slot takes.
-/

namespace WireReplay

theorem ok_of_bind {ε α β : Type} {x : Except ε α} {f : α → Except ε β} {b : β}
    (h : x >>= f = .ok b) : ∃ a, x = .ok a ∧ f a = .ok b := by
  cases x with
  | error e => cases h
  | ok a => exact ⟨a, rfl, h⟩

theorem error_of_bind {ε α β : Type} {x : Except ε α} {f : α → Except ε β} {e : ε}
    (h : x >>= f = .error e) : x = .error e ∨ ∃ a, x = .ok a ∧ f a = .error e := by
  cases x with
  | error first =>
    cases h
    exact .inl rfl
  | ok a => exact .inr ⟨a, rfl, h⟩

/-- What no step of a fold breaks holds at its end, if there is one. -/
theorem invariant_of_foldlM {ε α β : Type} {holds : α → Prop} {step : α → β → Except ε α}
    (hstep : ∀ {a b a'}, holds a → step a b = .ok a' → holds a') {bs : List β} {a a' : α}
    (ha : holds a) (h : bs.foldlM step a = .ok a') : holds a' := by
  induction bs generalizing a with
  | nil => cases h; exact ha
  | cons b bs ih =>
    rw [List.foldlM_cons] at h
    obtain ⟨next, hnext, hrest⟩ := ok_of_bind h
    exact ih (hstep ha hnext) hrest

namespace CommandLine

namespace Taken

/-- Each value that was looked at is one that its slot takes. -/
def IsChecked (t : Taken) : Prop := ∀ entry ∈ t.given, entry.1.check entry.2 = none

theorem isChecked_empty : IsChecked {} := by
  intro entry hentry
  cases hentry

variable {t t' : Taken} {level : Level} {slot : Slot} {value word : Bytes}

theorem IsChecked.give (ht : t.IsChecked) (h : t.give slot value = .ok t') : t'.IsChecked := by
  unfold Taken.give at h
  split at h
  · cases h
  · cases hcheck : slot.check value with
    | some stop => rw [hcheck] at h; cases h
    | none =>
      rw [hcheck] at h
      cases h
      intro entry hentry
      rcases List.mem_append.mp hentry with hold | hnew
      · exact ht entry hold
      · rw [List.mem_singleton.mp hnew]
        exact hcheck

theorem IsChecked.settle (ht : t.IsChecked) (h : t.settle = .ok t') : t'.IsChecked := by
  unfold Taken.settle at h
  split at h
  · cases h; exact ht
  · cases h
  · exact IsChecked.give (t := { t with pending := none }) ht h

theorem IsChecked.raise (ht : t.IsChecked) (h : t.raise slot = .ok t') : t'.IsChecked := by
  obtain ⟨settled, hsettled, h⟩ := ok_of_bind h
  split at h
  · cases h
  · cases h
  · exact (ht.settle hsettled).give h

theorem IsChecked.attach (ht : t.IsChecked) (h : t.attach slot value = .ok t') :
    t'.IsChecked := by
  obtain ⟨settled, hsettled, h⟩ := ok_of_bind h
  exact (ht.settle hsettled).give h

theorem IsChecked.expect (ht : t.IsChecked) (h : t.expect slot = .ok t') : t'.IsChecked := by
  obtain ⟨settled, hsettled, h⟩ := ok_of_bind h
  cases h
  exact (ht.settle hsettled : settled.IsChecked)

theorem IsChecked.place (ht : t.IsChecked) (h : t.place slot value = .ok t') : t'.IsChecked := by
  obtain ⟨settled, hsettled, h⟩ := ok_of_bind h
  cases h
  exact (ht.settle hsettled : settled.IsChecked)

theorem IsChecked.takeLong (ht : t.IsChecked) (h : takeLong level t word = .ok t') :
    t'.IsChecked := by
  simp only [CommandLine.takeLong] at h
  split at h
  · cases h
  · split at h
    · cases h
    · exact ht.attach h
  · split at h
    · exact ht.raise h
    · exact ht.expect h

theorem IsChecked.takeLetters (ht : t.IsChecked) (h : takeLetters level t word = .ok t') :
    t'.IsChecked := by
  induction word generalizing t with
  | nil => cases h; exact ht
  | cons letter rest ih =>
    simp only [CommandLine.takeLetters] at h
    split at h
    · cases h
    · split at h
      · obtain ⟨raised, hraised, h⟩ := ok_of_bind h
        exact ih (ht.raise hraised) h
      · split at h
        · exact ht.expect h
        · exact ht.attach h

theorem IsChecked.takePlain (ht : t.IsChecked) (h : takePlain level t word = .ok t') :
    t'.IsChecked := by
  unfold CommandLine.takePlain at h
  split at h
  · exact ht.place h
  · cases h

theorem IsChecked.takeWord (ht : t.IsChecked) (h : take.takeWord level t word = .ok t') :
    t'.IsChecked := by
  unfold take.takeWord at h
  split at h
  · cases h; exact ht
  · exact ht.takePlain h

theorem IsChecked.take (ht : t.IsChecked) (h : take level t word = .ok t') : t'.IsChecked := by
  unfold CommandLine.take at h
  split at h
  · exact ht.takePlain h
  · split at h
    · cases h; exact ht
    · split at h
      · split at h
        · split at h
          · exact ht.takeLong h
          · exact ht.takeLetters h
        · exact ht.takeWord h
      · exact ht.takeWord h

theorem isChecked_of_takeAll {words : List Bytes} (h : takeAll level words = .ok t) :
    t.IsChecked := by
  obtain ⟨all, hall, h⟩ := ok_of_bind h
  obtain ⟨settled, hsettled, h⟩ := ok_of_bind h
  split at h
  · cases h
    exact (invariant_of_foldlM IsChecked.take isChecked_empty hall).settle hsettled
  · cases h

end Taken

theorem takeAll_of_takeTop {t top below : Taken} {level : Level} {words : List Bytes}
    (h : takeTop t words = .ok (top, level, below)) :
    ∃ behind, takeAll level behind = .ok below := by
  induction words generalizing t with
  | nil =>
    obtain ⟨settled, -, h⟩ := ok_of_bind h
    cases h
  | cons word words ih =>
    rw [takeTop] at h
    split at h
    · obtain ⟨next, -, h⟩ := ok_of_bind h
      exact ih h
    · split at h
      · cases h
      · split at h
        · obtain ⟨taken, htaken, h⟩ := ok_of_bind h
          obtain ⟨settled, -, h⟩ := ok_of_bind h
          cases h
          exact ⟨words, htaken⟩
        · obtain ⟨next, -, h⟩ := ok_of_bind h
          exact ih h

/-- The command of a line is made of values that were all looked at. -/
theorem isChecked_of_parse {words : List Bytes} {i : Invocation} (h : parse words = .ok i) :
    ∃ (level : Level) (t : Taken), t.IsChecked ∧ i.command = t.command level := by
  obtain ⟨⟨top, level, below⟩, htop, h⟩ := ok_of_bind h
  cases h
  obtain ⟨behind, hbehind⟩ := takeAll_of_takeTop htop
  exact ⟨level, below, Taken.isChecked_of_takeAll hbehind, rfl⟩

theorem Taken.IsChecked.check_eq {t : Taken} (ht : t.IsChecked) {slot : Slot} {value : Bytes}
    (h : t.value? slot = some value) : slot.check value = none := by
  obtain ⟨before, behind, hgiven, -⟩ := List.lookup_eq_some_iff.mp h
  refine ht (slot, value) ?_
  rw [hgiven]
  exact List.mem_append_right _ List.mem_cons_self

/-- Whether a slot is for a timeout that has to last. -/
def Slot.IsTimeout (slot : Slot) : Prop :=
  slot = .connectTimeout ∨ slot = .readTimeout ∨ slot = .writeTimeout

theorem Slot.check_timeout {slot : Slot} (h : slot.IsTimeout) (value : Bytes) :
    slot.check value = (Text.decode? value).elim (some .notText) fun text =>
      if (count? text).any (0 < ·) then none else some .invalidValue := by
  rcases h with rfl | rfl | rfl
  all_goals
    simp only [Slot.check]
    cases Text.decode? value <;> rfl

theorem Slot.count_of_check {slot : Slot} {value : Bytes} (hslot : slot.IsTimeout)
    (h : slot.check value = none) :
    ∃ text n, Text.decode? value = some text ∧ count? text = some n ∧ 0 < n := by
  rw [Slot.check_timeout hslot] at h
  cases hdecode : Text.decode? value with
  | none =>
    rw [hdecode] at h
    cases h
  | some text =>
    rw [hdecode, Option.elim_some] at h
    cases hcount : count? text with
    | none =>
      rw [hcount] at h
      cases h
    | some n =>
      have hn : n ≠ 0 := by simpa [hcount] using h
      exact ⟨text, n, rfl, hcount, Nat.pos_of_ne_zero hn⟩

theorem Taken.IsChecked.count_pos {t : Taken} (ht : t.IsChecked) {slot : Slot}
    (hslot : slot.IsTimeout) {n : Nat} (h : t.count? slot = some n) : 0 < n := by
  unfold Taken.count? at h
  cases hvalue : t.value? slot with
  | none => rw [hvalue] at h; cases h
  | some value =>
    obtain ⟨text, m, hdecode, hcount, hm⟩ := Slot.count_of_check hslot (ht.check_eq hvalue)
    rw [hvalue, Option.bind_some, hdecode, Option.bind_some, hcount] at h
    cases h
    exact hm

end CommandLine

end WireReplay
