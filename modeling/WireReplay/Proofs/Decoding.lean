import WireReplay.Text.Utf8

/-!
# Texts read back from their bytes

The machine that decodes bytes takes the bytes of a character from its start to its start, and
finds that character. So of a text it finds all characters and nothing between them, and the text
is what its bytes are decoded to.
-/

namespace WireReplay.Text

namespace Utf8

variable {n next : Nat} {low high : UInt8}

theorem toNat_ofNat_of_lt (h : n < 256) : (UInt8.ofNat n).toNat = n := by
  rw [UInt8.toNat_ofNat']
  omega

theorem scan_cons (b : UInt8) (rest : Bytes) (state : State) :
    scan state (b :: rest) = (step b state).1 ++ scan (step b state).2 rest := rfl

theorem step_within (hn : n < 64) (hlow : low.toNat ≤ n + 0x80) (hhigh : n + 0x80 ≤ high.toNat)
    (value left : Nat) :
    step (UInt8.ofNat (n + 0x80)) (.within value left low high) =
      match left with
      | 0 => ([some (Char.ofNat (value * 64 + n))], .start)
      | left + 1 => ([], .within (value * 64 + n) left 0x80 0xBF) := by
  have htoNat : (UInt8.ofNat (n + 0x80)).toNat = n + 0x80 := toNat_ofNat_of_lt (by omega)
  have hrange : low ≤ UInt8.ofNat (n + 0x80) ∧ UInt8.ofNat (n + 0x80) ≤ high := by
    rw [UInt8.le_iff_toNat_le, UInt8.le_iff_toNat_le, htoNat]
    exact ⟨hlow, hhigh⟩
  have hmod : (n + 0x80) % 64 = n := by omega
  cases left with
  | zero => simp only [step, if_pos hrange, htoNat, hmod]
  | succ left => simp only [step, if_pos hrange, htoNat, hmod]

theorem scan_within (hn : n < 64) (hlow : low.toNat ≤ n + 0x80) (hhigh : n + 0x80 ≤ high.toNat)
    (value left : Nat) (rest : Bytes) :
    scan (.within value (left + 1) low high) (UInt8.ofNat (n + 0x80) :: rest) =
      scan (.within (value * 64 + n) left 0x80 0xBF) rest := by
  rw [scan_cons, step_within hn hlow hhigh]
  rfl

theorem scan_last (hn : n < 64) (value : Nat) (rest : Bytes) :
    scan (.within value 0 0x80 0xBF) (UInt8.ofNat (n + 0x80) :: rest) =
      some (Char.ofNat (value * 64 + n)) :: scan .start rest := by
  have hlow : (0x80 : UInt8).toNat ≤ n + 0x80 := Nat.le_add_left _ _
  have hhigh : n + 0x80 ≤ (0xBF : UInt8).toNat := by
    simp only [UInt8.reduceToNat]
    omega
  rw [scan_cons, step_within hn hlow hhigh]
  rfl

theorem scan_first_of_one (hn : n < 128) (rest : Bytes) :
    scan .start (UInt8.ofNat n :: rest) = some (Char.ofNat n) :: scan .start rest := by
  have htoNat : (UInt8.ofNat n).toNat = n := toNat_ofNat_of_lt (by omega)
  rw [scan_cons, step, enter]
  simp only [UInt8.lt_iff_toNat_lt, htoNat, UInt8.reduceToNat]
  rw [if_pos hn]
  rfl

theorem scan_first_of_two (hn : n < 32) (hshort : 2 ≤ n) (rest : Bytes) :
    scan .start (UInt8.ofNat (n + 0xC0) :: rest) = scan (.within n 0 0x80 0xBF) rest := by
  have htoNat : (UInt8.ofNat (n + 0xC0)).toNat = n + 0xC0 := toNat_ofNat_of_lt (by omega)
  have hmod : (n + 0xC0) % 32 = n := by omega
  rw [scan_cons, step, enter]
  simp only [UInt8.lt_iff_toNat_lt, htoNat, UInt8.reduceToNat, hmod]
  rw [if_neg (by omega), if_neg (by omega), if_pos (by omega)]
  rfl

/-- What the second of three bytes may be depends on the first: no character is written longer than
it has to be, and none is half of a pair. -/
theorem scan_first_of_three (hn : n < 16) (hnext : next < 64) (hshort : n = 0 → 32 ≤ next)
    (hhalf : n = 13 → next < 32) (rest : Bytes) :
    ∃ low high : UInt8, low.toNat ≤ next + 0x80 ∧ next + 0x80 ≤ high.toNat ∧
      scan .start (UInt8.ofNat (n + 0xE0) :: rest) = scan (.within n 1 low high) rest := by
  have htoNat : (UInt8.ofNat (n + 0xE0)).toNat = n + 0xE0 := toNat_ofNat_of_lt (by omega)
  have hmod : (n + 0xE0) % 16 = n := by omega
  rw [scan_cons, step, enter]
  simp only [UInt8.lt_iff_toNat_lt, ← UInt8.toNat_inj, htoNat, UInt8.reduceToNat, hmod]
  rw [if_neg (by omega), if_neg (by omega), if_neg (by omega)]
  split
  · refine ⟨0xA0, 0xBF, ?_, ?_, rfl⟩ <;> simp only [UInt8.reduceToNat] <;> omega
  split
  · refine ⟨0x80, 0x9F, ?_, ?_, rfl⟩ <;> simp only [UInt8.reduceToNat] <;> omega
  rw [if_pos (by omega)]
  refine ⟨0x80, 0xBF, ?_, ?_, rfl⟩ <;> simp only [UInt8.reduceToNat] <;> omega

theorem scan_first_of_four (hn : n ≤ 4) (hnext : next < 64) (hshort : n = 0 → 16 ≤ next)
    (hbound : n = 4 → next < 16) (rest : Bytes) :
    ∃ low high : UInt8, low.toNat ≤ next + 0x80 ∧ next + 0x80 ≤ high.toNat ∧
      scan .start (UInt8.ofNat (n + 0xF0) :: rest) = scan (.within n 2 low high) rest := by
  have htoNat : (UInt8.ofNat (n + 0xF0)).toNat = n + 0xF0 := toNat_ofNat_of_lt (by omega)
  have hmod : (n + 0xF0) % 8 = n := by omega
  rw [scan_cons, step, enter]
  simp only [UInt8.lt_iff_toNat_lt, ← UInt8.toNat_inj, htoNat, UInt8.reduceToNat, hmod]
  rw [if_neg (by omega), if_neg (by omega), if_neg (by omega), if_neg (by omega),
    if_neg (by omega), if_neg (by omega)]
  split
  · refine ⟨0x90, 0xBF, ?_, ?_, rfl⟩ <;> simp only [UInt8.reduceToNat] <;> omega
  split
  · refine ⟨0x80, 0xBF, ?_, ?_, rfl⟩ <;> simp only [UInt8.reduceToNat] <;> omega
  rw [if_pos (by omega)]
  refine ⟨0x80, 0x8F, ?_, ?_, rfl⟩ <;> simp only [UInt8.reduceToNat] <;> omega

/-- The bytes of a character are read as that character, whatever is behind them. -/
theorem scan_utf8EncodeChar (c : Char) (rest : Bytes) :
    scan .start (String.utf8EncodeChar c ++ rest) = some c :: scan .start rest := by
  have hvalid : c.val.toNat < 0xD800 ∨ 0xDFFF < c.val.toNat ∧ c.val.toNat < 0x110000 := c.valid
  have hofNat (n : Nat) (hn : n = c.val.toNat) : Char.ofNat n = c := by
    rw [hn]
    exact Char.ofNat_toNat c
  have hlow : (0x80 : UInt8).toNat ≤ c.val.toNat / 64 % 0x40 + 0x80 := Nat.le_add_left _ _
  have hhigh : c.val.toNat / 64 % 0x40 + 0x80 ≤ (0xBF : UInt8).toNat := by
    simp only [UInt8.reduceToNat]
    omega
  unfold String.utf8EncodeChar
  dsimp only
  generalize c.val.toNat = v at hvalid hofNat hlow hhigh ⊢
  split
  · rw [List.singleton_append, scan_first_of_one (by omega), hofNat v rfl]
  split
  · simp only [List.cons_append, List.nil_append]
    rw [scan_first_of_two (by omega) (by omega), scan_last (by omega), hofNat _ (by omega)]
  split
  · obtain ⟨low, high, hfrom, hto, hfirst⟩ :=
      @scan_first_of_three (v / 4096 % 0x10) (v / 64 % 0x40) (by omega) (by omega) (by omega)
        (by omega) (UInt8.ofNat (v / 64 % 0x40 + 0x80) :: UInt8.ofNat (v % 0x40 + 0x80) :: rest)
    simp only [List.cons_append, List.nil_append]
    rw [hfirst, scan_within (by omega) hfrom hto, scan_last (by omega), hofNat _ (by omega)]
  · obtain ⟨low, high, hfrom, hto, hfirst⟩ :=
      @scan_first_of_four (v / 262144 % 0x08) (v / 4096 % 0x40) (by omega) (by omega) (by omega)
        (by omega) (UInt8.ofNat (v / 4096 % 0x40 + 0x80) :: UInt8.ofNat (v / 64 % 0x40 + 0x80) ::
          UInt8.ofNat (v % 0x40 + 0x80) :: rest)
    simp only [List.cons_append, List.nil_append]
    rw [hfirst, scan_within (by omega) hfrom hto, scan_within (by omega) hlow hhigh,
      scan_last (by omega), hofNat _ (by omega)]

theorem scan_flatMap (chars : List Char) :
    scan .start (chars.flatMap String.utf8EncodeChar) = chars.map some := by
  induction chars with
  | nil => rfl
  | cons c rest ih => rw [List.flatMap_cons, scan_utf8EncodeChar, ih, List.map_cons]

end Utf8

theorem decode?_bytes (s : String) : decode? (bytes s) = some s := by
  have hchars : (s.toList.map some).mapM id = some s.toList := by
    rw [List.mapM_map]
    simpa using List.mapM_pure (m := Option) (l := s.toList) (f := id)
  rw [decode?, bytes, Utf8.scan_flatMap, hchars]
  exact congrArg some String.ofList_toList

end WireReplay.Text
