import WireReplay.Proofs.Decoding
import WireReplay.Proofs.ResponseNames

/-!
# Paths of response files

The path of a response file is that of the directory with one name more, and that name is read back
as the name of the payload. So no two responses are meant by one path, in whatever way it is
written: as other names in the path do not matter, it is enough to look at the last one.
-/

namespace WireReplay.Report

def nameAt? (path : Path) : Option String := do
  let last ← path.names.getLast?
  let text ← Text.decode? last
  return String.ofList (decodeName (text.toList.take (text.toList.length - 4)))

theorem decodeName_take (name : String) :
    decodeName ((responseName name).toList.take ((responseName name).toList.length - 4)) =
      name.toList := by
  have hends : (responseName name).toList = encodeName name.toList ++ ['.', 'o', 'u', 't'] := by
    rw [responseName, String.toList_append, String.toList_ofList]
    rfl
  have hlength : (responseName name).toList.length - 4 = (encodeName name.toList).length := by
    rw [hends, List.length_append]
    exact Nat.add_sub_cancel _ _
  rw [hlength, hends, List.take_left, decodeName_encodeName]

variable (directory : Path)

theorem names_responsePath (name : String) :
    (responsePath directory name).names =
      directory.names ++ [Text.bytes (responseName name)] :=
  directory.names_join (slash_not_mem_responseName name) (not_stays_responseName name)

theorem names_summaryPath :
    (summaryPath directory).names = directory.names ++ [Text.bytes "summary.json"] :=
  directory.names_join isPlain_summary.notSlashed isPlain_summary.leads

theorem nameAt?_responsePath (name : String) :
    nameAt? (responsePath directory name) = some name := by
  rw [nameAt?, names_responsePath, List.getLast?_concat, Option.bind_eq_bind, Option.bind_some,
    Text.decode?_bytes, Option.bind_eq_bind, Option.bind_some, decodeName_take,
    String.ofList_toList]
  rfl

theorem nameAt?_congr {path other : Path} (h : path.names = other.names) :
    nameAt? path = nameAt? other := by
  rw [nameAt?, nameAt?, h]

/-- The paths of the responses in a directory encode the names of the payloads. The name of a
payload is read back from the last name of its path, so the paths of different payloads differ as
paths, not only in how they are written. That last name stands for an entry of the directory and for nothing
else, and the entry is never that of the summary. -/
theorem responsePath_encodes :
    (∀ name, nameAt? (responsePath directory name) = some name) ∧
      (Function.Injective fun name => (responsePath directory name).names) ∧
      ∀ name, ∃ component,
        responsePath directory name = directory.join component ∧
          (responsePath directory name).names = directory.names ++ [component] ∧
          Path.slash ∉ component ∧ backslash ∉ component ∧ component ≠ [Path.dot] ∧
          component ≠ [Path.dot, Path.dot] ∧ Text.bytes ".out" <:+ component ∧
          (responsePath directory name).names ≠ (summaryPath directory).names := by
  refine ⟨nameAt?_responsePath directory, fun name other hsame => ?_, fun name => ?_⟩
  · have hread := nameAt?_congr hsame
    rw [nameAt?_responsePath, nameAt?_responsePath] at hread
    exact Option.some.inj hread
  · refine ⟨Text.bytes (responseName name), rfl, names_responsePath directory name,
      slash_not_mem_responseName name, backslash_not_mem_responseName name,
      responseName_ne_of_short (by decide), responseName_ne_of_short (by decide), ?_, ?_⟩
    · rw [responseName, Text.bytes_append]
      exact List.suffix_append _ _
    · rw [names_responsePath, names_summaryPath]
      intro hsame
      exact responseName_ne_summary name (List.singleton_inj.mp (List.append_cancel_left hsame))

end WireReplay.Report
