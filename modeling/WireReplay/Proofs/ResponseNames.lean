import WireReplay.Report.Responses
import WireReplay.Proofs.Paths
import WireReplay.Proofs.Texts

/-!
# Names of response files

The name of a response file tells the name of its payload: what stands for a separator begins with
the sign that marks it, and that sign is replaced wherever a name has it. None of these names can be
taken for a path, for a directory or for the summary.
-/

namespace WireReplay.Report

def decodeName : List Char → List Char
  | '%' :: '2' :: '5' :: rest => '%' :: decodeName rest
  | '%' :: '2' :: 'F' :: rest => '/' :: decodeName rest
  | '%' :: '5' :: 'C' :: rest => '\\' :: decodeName rest
  | c :: rest => c :: decodeName rest
  | [] => []

theorem decodeName_encodeName (name : List Char) : decodeName (encodeName name) = name := by
  fun_induction encodeName name with
  | case1 => rfl
  | case2 rest ih | case3 rest ih | case4 rest ih => rw [decodeName, ih]
  | case5 c rest hmark _ _ ih =>
    rw [decodeName, ih]
    all_goals exact fun _ h => absurd h hmark

theorem responseName_injective {name other : String} (h : responseName name = responseName other) :
    name = other := by
  have hencoded : encodeName name.toList = encodeName other.toList := by
    have hlist := congrArg String.toList h
    simp only [responseName, String.toList_append, String.toList_ofList] at hlist
    exact List.append_cancel_right hlist
  rw [← String.toList_inj, ← decodeName_encodeName name.toList, hencoded, decodeName_encodeName]

/-- The signs that replace others, and what is replaced by none of them. -/
theorem mem_encodeName {c : Char} {name : List Char} (h : c ∈ encodeName name) :
    c ∈ ['%', '2', '5', 'F', 'C'] ∨ c ∈ name ∧ c ≠ '/' ∧ c ≠ '\\' := by
  fun_induction encodeName name with
  | case1 => cases h
  | case2 rest ih | case3 rest ih | case4 rest ih | case5 c rest hmark hslash hback ih =>
    grind

def extension : Bytes := [0x2E, 0x6F, 0x75, 0x74]

theorem bytes_responseName (name : String) :
    Text.bytes (responseName name) =
      (encodeName name.toList).flatMap String.utf8EncodeChar ++ extension := by
  have hextension : Text.bytes ".out" = extension := by decide
  rw [responseName, Text.bytes_append, hextension, Text.bytes, String.toList_ofList]

theorem not_mem_responseName {b : UInt8} {name : String} (hb : b < 0x80) (hends : b ∉ extension)
    (h : Char.ofNat b.toNat ∉ encodeName name.toList) : b ∉ Text.bytes (responseName name) := by
  rw [bytes_responseName, List.mem_append, not_or]
  exact ⟨fun hm => h (Text.ofNat_mem_of_mem_flatMap hm hb), hends⟩

def isReplaced (c : Char) : Bool := c = '%' || c = '/' || c = '\\'

theorem length_encodeName (name : List Char) :
    ((encodeName name).flatMap String.utf8EncodeChar).length =
      (name.flatMap String.utf8EncodeChar).length + 2 * name.countP isReplaced := by
  have hsigns : '%'.utf8Size = 1 ∧ '/'.utf8Size = 1 ∧ '\\'.utf8Size = 1 ∧ '2'.utf8Size = 1 ∧
      '5'.utf8Size = 1 ∧ 'F'.utf8Size = 1 ∧ 'C'.utf8Size = 1 := by decide
  fun_induction encodeName name with
  | case1 => rfl
  | case2 rest ih | case3 rest ih | case4 rest ih =>
    rw [List.countP_cons_of_pos (by decide)]
    simp only [List.flatMap_cons, List.length_append, String.length_utf8EncodeChar, ih]
    omega
  | case5 c rest hmark hslash hback ih =>
    have hkept : ¬ isReplaced c = true := by
      simpa [isReplaced] using ⟨⟨hmark, hslash⟩, hback⟩
    rw [List.countP_cons_of_neg hkept]
    simp only [List.flatMap_cons, List.length_append, ih]
    omega

/-- A response file has a longer name than the payload file: by the extension, and by two bytes for
each character that is replaced. -/
theorem length_responseName (name : String) :
    (Text.bytes (responseName name)).length =
      (Text.bytes name).length + 2 * name.toList.countP isReplaced + 4 := by
  rw [bytes_responseName, List.length_append, length_encodeName]
  rfl

def backslash : UInt8 := 0x5C

theorem slash_not_mem_responseName (name : String) :
    Path.slash ∉ Text.bytes (responseName name) := by
  refine not_mem_responseName (by decide) (by decide) fun hm => ?_
  obtain hsign | ⟨-, hslash, -⟩ := mem_encodeName hm
  · exact absurd hsign (by decide)
  · exact hslash rfl

theorem backslash_not_mem_responseName (name : String) :
    backslash ∉ Text.bytes (responseName name) := by
  refine not_mem_responseName (by decide) (by decide) fun hm => ?_
  obtain hsign | ⟨-, -, hback⟩ := mem_encodeName hm
  · exact absurd hsign (by decide)
  · exact hback rfl

theorem responseName_ne_of_short {name : String} {other : Bytes} (h : other.length < 4) :
    Text.bytes (responseName name) ≠ other := by
  rintro rfl
  rw [length_responseName] at h
  omega

theorem not_stays_responseName (name : String) :
    ¬ (Text.bytes (responseName name) = [] ∨ Text.bytes (responseName name) = [Path.dot]) :=
  not_or.mpr ⟨responseName_ne_of_short (by decide), responseName_ne_of_short (by decide)⟩

theorem isPlain_responseName {name : String} (h : '\x00' ∉ name.toList) :
    Path.IsPlain (Text.bytes (responseName name)) where
  notSlashed := slash_not_mem_responseName name
  notZeroed := by
    refine not_mem_responseName (by decide) (by decide) fun hm => ?_
    obtain hsign | ⟨hzero, -⟩ := mem_encodeName hm
    · exact absurd hsign (by decide)
    · exact h hzero
  leads := not_stays_responseName name
  notUp := responseName_ne_of_short (by decide)

theorem isPlain_summary : Path.IsPlain (Text.bytes "summary.json") where
  notSlashed := by decide +kernel
  notZeroed := by decide +kernel
  leads := by decide +kernel
  notUp := by decide +kernel

/-- No response takes the place of the summary. -/
theorem responseName_ne_summary (name : String) :
    Text.bytes (responseName name) ≠ Text.bytes "summary.json" := by
  intro h
  have hlast : extension.getLast? = some 0x74 := rfl
  rw [bytes_responseName] at h
  have hends := congrArg List.getLast? h
  rw [List.getLast?_append, hlast, Option.some_or] at hends
  exact absurd hends (by decide +kernel)

end WireReplay.Report
