import WireReplay.Proofs.Decoding
import WireReplay.Proofs.Filing
import WireReplay.Proofs.JsonReader
import WireReplay.Proofs.ReportFiles

/-!
# Reading summaries

The summary of a report is JSON, and a reader of JSON gets from it an array with one object for each
capture, in their order. What the object of a capture tells is read from it key by key; so
summaries with the same text are about captures of which the same is told.
-/

namespace WireReplay

def Json.member? (key : String) : Json → Option Json
  | object fields => fields.lookup key
  | _ => none

theorem Outcome.name_injective : Function.Injective Outcome.name := by
  intro o other h
  have hread := congrArg ofName? h
  rw [ofName?_name, ofName?_name] at hread
  exact Option.some.inj hread

namespace Report

/-- What a summary tells of a capture: not the bytes that went over the connection but how many
there were, and not the time it took but its whole milliseconds. -/
structure Told where
  name : String
  outcome : Outcome
  sent : Nat
  received : Nat
  elapsed : Nat
  error : Option String

def told (c : Capture) : Told where
  name := c.name
  outcome := c.outcome
  sent := c.sent.length
  received := c.received.length
  elapsed := min c.elapsed.millis (2 ^ 64 - 1)
  error := c.error

/-- An object from which this is read. No key is in it twice, and an error only if there is one. -/
structure Tells (what : Told) (entry : Json) : Prop where
  keys : ∃ fields, entry = .object fields ∧ (fields.map (·.1)).Nodup
  name : entry.member? "name" = some (.string what.name)
  outcome : entry.member? "outcome" = some (.string what.outcome.name)
  sent : entry.member? "sent_bytes" = some (.number what.sent)
  received : entry.member? "received_bytes" = some (.number what.received)
  elapsed : entry.member? "elapsed_ms" = some (.number what.elapsed)
  error : entry.member? "error" = what.error.map .string

theorem Tells.unique {what other : Told} {entry : Json} (h : Tells what entry)
    (h' : Tells other entry) : what = other := by
  have hname := Json.string.inj (Option.some.inj (h.name.symm.trans h'.name))
  have houtcome := Json.string.inj (Option.some.inj (h.outcome.symm.trans h'.outcome))
  have hsent := Json.number.inj (Option.some.inj (h.sent.symm.trans h'.sent))
  have hreceived := Json.number.inj (Option.some.inj (h.received.symm.trans h'.received))
  have helapsed := Json.number.inj (Option.some.inj (h.elapsed.symm.trans h'.elapsed))
  have herror := Option.map_injective (fun _ _ => Json.string.inj) (h.error.symm.trans h'.error)
  cases what
  cases other
  simp only [Told.mk.injEq]
  exact ⟨hname, Outcome.name_injective houtcome, hsent, hreceived, helapsed, herror⟩

theorem tells_summaryEntry (c : Capture) : Tells (told c) (summaryEntry c) := by
  cases herror : c.error
  all_goals
    constructor <;> simp [summaryEntry, Json.member?, told, herror, Duration.boundedMillis,
      List.lookup, UInt64.size]

theorem summaryEntry_congr {c other : Capture} (h : told c = told other) :
    summaryEntry c = summaryEntry other := by
  simp only [told, Told.mk.injEq] at h
  obtain ⟨hname, houtcome, hsent, hreceived, helapsed, herror⟩ := h
  have hbounded : c.elapsed.boundedMillis = other.elapsed.boundedMillis := helapsed
  rw [summaryEntry, summaryEntry, hname, houtcome, hsent, hreceived, hbounded, herror]

theorem forall₂_tells (captures : List Capture) :
    List.Forall₂ Tells (captures.map told) (captures.map summaryEntry) := by
  rw [List.forall₂_map_left_iff, List.forall₂_map_right_iff, List.forall₂_same]
  exact fun c _ => tells_summaryEntry c

theorem parse?_summary (captures : List Capture) :
    (Text.decode? (Text.bytes (summary captures))).bind Json.parse? =
      some (.array (captures.map summaryEntry)) := by
  rw [Text.decode?_bytes, Option.bind_some, summary, Json.parse?_pretty]

theorem summary_eq_iff (captures others : List Capture) :
    summary captures = summary others ↔ captures.map told = others.map told := by
  constructor
  · intro hsame
    have hentries := parse?_summary captures
    rw [hsame, parse?_summary others] at hentries
    have hthese := forall₂_tells captures
    rw [← Json.array.inj (Option.some.inj hentries)] at hthese
    have hunique : Relator.LeftUnique Tells := fun _ _ _ => Tells.unique
    exact hunique.forall₂ hthese (forall₂_tells others)
  · intro hsame
    have hentries : captures.map summaryEntry = others.map summaryEntry := by
      rw [← List.forall₂_eq_eq_eq, List.forall₂_map_left_iff, List.forall₂_map_right_iff]
        at hsame ⊢
      exact hsame.imp fun _ _ => summaryEntry_congr
    rw [summary, summary, hentries]

variable {t : FileTree} {directory path : Path} {captures : List Capture}

theorem ok_of_after {files : FileTree} {step : Except Fault FileTree}
    (h : t.after step = ⟨files, none⟩) : step = .ok files := by
  cases step with
  | ok made => rw [(FileTree.Change.mk.inj h).1]
  | error fault => cases h

theorem write_of_file (h : (file directory t captures).result = .ok path) :
    ∃ before : FileTree, before.write path (Text.bytes (summary captures)) =
      .ok (file directory t captures).files := by
  unfold file at h ⊢
  split at h
  · cases h
  · rename_i files hall
    have hlast := FileTree.Change.fault_of_andThen (congrArg FileTree.Change.fault hall)
    rw [← Except.ok.inj h]
    exact ⟨_, ok_of_after (hlast.symm.trans hall)⟩

/-- The summary of a report decodes to its captures. What a report that succeeds writes last is
JSON, and the value of it an array with an object for each capture, from which the name, the name of
the outcome, the counts of bytes and of milliseconds and the error, if there is one, are read.
Summaries are the same where these are, and nowhere else. -/
theorem summary_decodes (captures : List Capture) :
    (∃ entries, (Text.decode? (Text.bytes (summary captures))).bind Json.parse? =
        some (.array entries) ∧ List.Forall₂ Tells (captures.map told) entries) ∧
      (∀ others, summary captures = summary others ↔ captures.map told = others.map told) ∧
      ∀ (directory : Path) (t : FileTree) (path : Path),
        (file directory t captures).result = .ok path →
          path = summaryPath directory ∧
            ∃ before : FileTree, before.write path (Text.bytes (summary captures)) =
              .ok (file directory t captures).files :=
  ⟨⟨_, parse?_summary captures, forall₂_tells captures⟩, summary_eq_iff captures,
    fun _ _ _ h => ⟨(writeIn_of_file h).1, write_of_file h⟩⟩

/-- A name with quotes, a backslash, a line feed and a character that takes two units in UTF-16; an
error without text; and more milliseconds than are counted. -/
def strange : Capture where
  name := "\"\\\n\u0001𝄞"
  sent := [0, 1]
  received := [2]
  outcome := .ioError
  error := some ""
  elapsed := .ofMillis (2 ^ 64)

theorem summary_decodes_strange :
    ∃ entry, (Text.decode? (Text.bytes (summary [strange]))).bind Json.parse? =
        some (.array [entry]) ∧
      entry.member? "name" = some (.string "\"\\\n\u0001𝄞") ∧
      entry.member? "elapsed_ms" = some (.number 18446744073709551615) ∧
      entry.member? "error" = some (.string "") ∧
      (file (Text.bytes "o") {} [strange]).result = .ok (Text.bytes "o/summary.json") ∧
      ∃ before : FileTree,
        before.write (Text.bytes "o/summary.json") (Text.bytes (summary [strange])) =
          .ok (file (Text.bytes "o") {} [strange]).files := by
  obtain ⟨⟨entries, hparse, htells⟩, -, hwritten⟩ := summary_decodes [strange]
  obtain ⟨entry, rest, hentry, hrest, rfl⟩ := List.forall₂_cons_left_iff.mp htells
  rw [List.forall₂_nil_left_iff.mp hrest] at hparse
  have hresult : (file (Text.bytes "o") {} [strange]).result =
      .ok (Text.bytes "o/summary.json") := by
    have hnames : [strange].map (·.name) = [Payload.mk strange.name strange.sent].map (·.name) :=
      rfl
    have hpath : summaryPath (Text.bytes "o") = Text.bytes "o/summary.json" := by decide +kernel
    rw [file_of_awaits awaits_new hnames (by decide) (by decide), if_pos (by decide +kernel), hpath]
  have htold : told strange =
      ⟨"\"\\\n\u0001𝄞", .ioError, 2, 1, 18446744073709551615, some ""⟩ := by
    simp [told, strange]
  rw [htold] at hentry
  exact ⟨entry, hparse, hentry.name, hentry.elapsed, hentry.error, hresult,
    (hwritten _ _ _ hresult).2⟩

end Report

end WireReplay
