import WireReplay.Command.Argument

/-!
# Decimal digits

What is known of the digits of a number before they are read: there is at least one, all of them are
digits, and the first is no zero unless the number is. From its digits a number is read back.
-/

namespace WireReplay

theorem toDigits_of_pos {n : Nat} (h : 0 < n) :
    ∃ c rest, Nat.toDigits 10 n = c :: rest ∧ c ≠ '0' := by
  induction n using Nat.strongRecOn with
  | ind n ih =>
    by_cases hn : n < 10
    · refine ⟨n.digitChar, [], Nat.toDigits_of_lt_base hn, ?_⟩
      rw [Ne, Nat.digitChar_eq_zero]
      omega
    · obtain ⟨c, rest, hdigits, hc⟩ := ih (n / 10) (by omega) (by omega)
      refine ⟨c, rest ++ [(n % 10).digitChar], ?_, hc⟩
      rw [Nat.toDigits_of_base_le (by omega) (by omega), hdigits, List.cons_append]

theorem isDigit_of_mem_toDigits {n : Nat} {c : Char} (h : c ∈ Nat.toDigits 10 n) :
    c.isDigit = true :=
  Nat.isDigit_of_mem_toDigits (by decide) (by decide) h

theorem ne_of_test {α : Type} {p : α → Bool} {x y : α} (hx : p x = true) (hy : p y = false) :
    x ≠ y := by
  rintro rfl
  rw [hx] at hy
  cases hy

/-- Nothing that begins like this goes on with a number. -/
def EndsDigits (rest : List Char) : Prop := ∀ c ∈ rest.head?, c.isDigit = false

theorem endsDigits_cons {c : Char} (h : c.isDigit = false) (rest : List Char) :
    EndsDigits (c :: rest) := by
  intro d hd
  rw [← Option.mem_some.mp hd]
  exact h

theorem endsDigits_nil : EndsDigits [] := nofun

theorem takeWhile_append_of_ends {α : Type} {p : α → Bool} {front rest : List α}
    (hfront : ∀ c ∈ front, p c = true) (hrest : ∀ c ∈ rest.head?, p c = false) :
    (front ++ rest).takeWhile p = front ∧ (front ++ rest).dropWhile p = rest := by
  have hstop : rest.takeWhile p = [] ∧ rest.dropWhile p = rest := by
    cases rest with
    | nil => exact ⟨rfl, rfl⟩
    | cons c others =>
      have hc : ¬ p c = true := by simp [hrest c rfl]
      exact ⟨List.takeWhile_cons_of_neg hc, List.dropWhile_cons_of_neg hc⟩
  rw [List.takeWhile_append_of_pos hfront, List.dropWhile_append_of_pos hfront, hstop.1, hstop.2,
    List.append_nil]
  exact ⟨rfl, rfl⟩

theorem takeWhile_digits (n : Nat) {rest : List Char} (h : EndsDigits rest) :
    (Nat.toDigits 10 n ++ rest).takeWhile Char.isDigit = Nat.toDigits 10 n ∧
      (Nat.toDigits 10 n ++ rest).dropWhile Char.isDigit = rest :=
  takeWhile_append_of_ends (fun _ hc => isDigit_of_mem_toDigits hc) h

/-- A number is written without a sign. -/
theorem toDigits_ne_cons {n : Nat} {sign : Char} (h : sign.isDigit = false) (rest : List Char) :
    Nat.toDigits 10 n ≠ sign :: rest := by
  intro hsign
  have hdigit : sign.isDigit = true := isDigit_of_mem_toDigits (hsign ▸ List.mem_cons_self)
  exact ne_of_test hdigit h rfl

theorem toList_toString (n : Nat) : (toString n).toList = Nat.toDigits 10 n := by
  rw [Nat.toString_eq_repr, Nat.toList_repr]

namespace CommandLine

theorem digits?_toDigits (n : Nat) : digits? (Nat.toDigits 10 n) = some n := by
  have hdigits : ¬ (Nat.toDigits 10 n = [] ∨ ¬ (Nat.toDigits 10 n).all Char.isDigit) := by
    rw [not_or, Decidable.not_not, List.all_eq_true]
    exact ⟨Nat.toDigits_ne_nil, fun c hc => isDigit_of_mem_toDigits hc⟩
  have hstep : (fun (m : Nat) (c : Char) => m * 10 + (c.toNat - '0'.toNat)) =
      fun m c => 10 * m + (c.toNat - '0'.toNat) := by
    funext m c
    rw [Nat.mul_comm]
  rw [digits?, if_neg hdigits, hstep]
  exact congrArg some Nat.ofDigitChars_ten_toDigits

theorem count?_toString {n : Nat} (h : n < UInt64.size) : count? (toString n) = some n := by
  have hunsigned : count? (toString n) = (digits? (toString n).toList).filter (· < UInt64.size) := by
    unfold count?
    split
    · rename_i rest hplus
      rw [toList_toString] at hplus
      exact absurd hplus (toDigits_ne_cons rfl rest)
    · rfl
  rw [hunsigned, toList_toString, digits?_toDigits, Option.filter_some, if_pos (by simpa using h)]

theorem port?_toString (port : UInt16) : port? (toString port.toNat) = some port := by
  have hunsigned : port? (toString port.toNat) =
      ((digits? (toString port.toNat).toList).filter (· < UInt16.size)).map UInt16.ofNat := by
    unfold port?
    split
    · rename_i rest hminus
      rw [toList_toString] at hminus
      exact absurd hminus (toDigits_ne_cons rfl rest)
    · rename_i rest hplus
      rw [toList_toString] at hplus
      exact absurd hplus (toDigits_ne_cons rfl rest)
    · rfl
  rw [hunsigned, toList_toString, digits?_toDigits, Option.filter_some,
    if_pos (by simpa using port.toNat_lt), Option.map_some, UInt16.ofNat_toNat]

end CommandLine

end WireReplay
