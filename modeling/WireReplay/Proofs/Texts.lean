import WireReplay.Text.Utf8

/-!
# Texts and their bytes

No two texts have the same bytes, and each byte below 128 stands for a character of its own. Back
from bytes to text, no character is zero unless a byte is: the machine that decodes them only ever
completes characters that take all the bytes they were read from.
-/

namespace WireReplay.Text

theorem bytes_append (s t : String) : bytes (s ++ t) = bytes s ++ bytes t := by
  rw [bytes, String.toList_append, List.flatMap_append]
  rfl

theorem bytes_injective {s t : String} (h : bytes s = bytes t) : s = t := by
  rw [← String.toByteArray_inj, ← String.utf8Encode_toList, ← String.utf8Encode_toList]
  exact congrArg List.toByteArray h

theorem toNat_of_mem_utf8EncodeChar {c : Char} {b : UInt8} (h : b ∈ String.utf8EncodeChar c)
    (hb : b < 0x80) : c.toNat = b.toNat := by
  have hb : b.toNat < 128 := UInt8.lt_iff_toNat_lt.1 hb
  have hv : c.toNat = c.val.toNat := rfl
  have hbyte (n : Nat) (hn : b = UInt8.ofNat n) : b.toNat = n % 256 := by
    rw [hn, UInt8.toNat_ofNat']
  unfold String.utf8EncodeChar at h
  dsimp only at h
  split at h
  · have hself := hbyte _ (List.mem_singleton.1 h)
    omega
  · exfalso
    split at h
    · obtain h | h : _ ∨ _ := by simpa only [List.mem_cons, List.not_mem_nil, or_false] using h
      all_goals
        have habove := hbyte _ h
        omega
    split at h
    · obtain h | h | h : _ ∨ _ ∨ _ := by
        simpa only [List.mem_cons, List.not_mem_nil, or_false] using h
      all_goals
        have habove := hbyte _ h
        omega
    · obtain h | h | h | h : _ ∨ _ ∨ _ ∨ _ := by
        simpa only [List.mem_cons, List.not_mem_nil, or_false] using h
      all_goals
        have habove := hbyte _ h
        omega

theorem ofNat_mem_of_mem_flatMap {chars : List Char} {b : UInt8}
    (h : b ∈ chars.flatMap String.utf8EncodeChar) (hb : b < 0x80) : Char.ofNat b.toNat ∈ chars := by
  obtain ⟨c, hc, hm⟩ := List.mem_flatMap.1 h
  rw [← toNat_of_mem_utf8EncodeChar hm hb, Char.ofNat_toNat]
  exact hc

namespace Utf8

/-- However the bytes go on that are left of a character, it is one, and not zero. -/
def Suffices : (left value : Nat) → (low high : UInt8) → Prop
  | 0, value, _, _ => 2 ≤ value ∧ value < 0x360 ∨ 0x380 ≤ value ∧ value < 0x4400
  | left + 1, value, low, high => ∀ b : UInt8, low ≤ b → b ≤ high →
      Suffices left (value * 64 + b.toNat % 64) 0x80 0xBF

/-- What is read of a character suffices. -/
def State.Sound : State → Prop
  | .start => True
  | .within value left low high => Suffices left value low high

theorem enter_sound (b : UInt8) : (enter b).2.Sound := by
  unfold enter
  dsimp only
  repeat' split
  all_goals simp only [State.Sound, Suffices, UInt8.lt_iff_toNat_lt, UInt8.le_iff_toNat_le,
    ← UInt8.toNat_inj, UInt8.reduceToNat] at *
  all_goals omega

theorem step_sound {state : State} (h : state.Sound) (b : UInt8) : (step b state).2.Sound := by
  cases state with
  | start => exact enter_sound b
  | within value left low high =>
    rw [step]
    split
    · rename_i hb
      cases left with
      | zero => trivial
      | succ left => exact h b hb.1 hb.2
    · exact enter_sound b

theorem ofNat_ne_zero {n : Nat} (h : n.isValidChar) (hn : n ≠ 0) : Char.ofNat n ≠ '\x00' := by
  intro hzero
  have htoNat := congrArg Char.toNat hzero
  rw [Char.ofNat, dif_pos h] at htoNat
  exact hn htoNat

theorem zero_not_mem_enter {b : UInt8} (hb : b ≠ 0) : some '\x00' ∉ (enter b).1 := by
  have hn : b.toNat ≠ 0 := fun h => hb (UInt8.toNat_inj.1 h)
  unfold enter
  dsimp only
  repeat' split
  · rename_i hlow
    have hlow : b.toNat < 128 := UInt8.lt_iff_toNat_lt.1 hlow
    rw [List.mem_singleton, Option.some_inj]
    exact (ofNat_ne_zero (.inl (by omega)) hn).symm
  all_goals exact nofun

theorem zero_not_mem_step {state : State} (h : state.Sound) {b : UInt8} (hb : b ≠ 0) :
    some '\x00' ∉ (step b state).1 := by
  cases state with
  | start => exact zero_not_mem_enter hb
  | within value left low high =>
    rw [step]
    split
    · cases left with
      | zero =>
        have hvalue : 2 ≤ value ∧ value < 0x360 ∨ 0x380 ≤ value ∧ value < 0x4400 := h
        rw [List.mem_singleton, Option.some_inj]
        exact (ofNat_ne_zero (by unfold Nat.isValidChar; omega) (by omega)).symm
      | succ => exact List.not_mem_nil
    · rw [List.mem_cons, not_or]
      exact ⟨nofun, zero_not_mem_enter hb⟩

theorem zero_not_mem_scan {bs : Bytes} {state : State} (h : state.Sound) (hbs : 0 ∉ bs) :
    some '\x00' ∉ scan state bs := by
  induction bs generalizing state with
  | nil =>
    rw [scan]
    split <;> exact nofun
  | cons b rest ih =>
    obtain ⟨hb, hrest⟩ := not_or.1 fun hm => hbs (List.mem_cons.2 hm)
    rw [scan, List.mem_append, not_or]
    exact ⟨zero_not_mem_step h (Ne.symm hb), ih (step_sound h b) hrest⟩

end Utf8

/-- The text of bytes of which none is zero has no character that is. -/
theorem zero_not_mem_lossy {bs : Bytes} (h : 0 ∉ bs) : '\x00' ∉ (lossy bs).toList := by
  rw [lossy, String.toList_ofList, List.mem_map]
  rintro ⟨piece, hm, hzero⟩
  cases piece with
  | none => exact absurd hzero (by decide)
  | some c =>
    obtain rfl : c = '\x00' := hzero
    have hstart : Utf8.State.start.Sound := trivial
    exact Utf8.zero_not_mem_scan hstart h hm

end WireReplay.Text
