import WireReplay.Failure
import WireReplay.Files.Tree
import WireReplay.Log
import WireReplay.Replay.Capture
import WireReplay.Report.Json

/-!
# Response files

A report as files in one directory: each captured response in a file of its own, named after its
payload, and a summary of all captures.
-/

namespace WireReplay.Report

/-- The name of a payload as part of a file name: separators of paths, and the sign that marks
what replaces them, are replaced. -/
def encodeName : List Char → List Char
  | [] => []
  | '%' :: rest => '%' :: '2' :: '5' :: encodeName rest
  | '/' :: rest => '%' :: '2' :: 'F' :: encodeName rest
  | '\\' :: rest => '%' :: '5' :: 'C' :: encodeName rest
  | c :: rest => c :: encodeName rest

def responseName (name : String) : String := String.ofList (encodeName name.toList) ++ ".out"

def responsePath (directory : Path) (name : String) : Path :=
  directory.join (Text.bytes (responseName name))

def summaryPath (directory : Path) : Path := directory.join (Text.bytes "summary.json")

def summaryEntry (c : Capture) : Json :=
  .object ([("name", .string c.name), ("outcome", .string c.outcome.name),
    ("sent_bytes", .number c.sent.length), ("received_bytes", .number c.received.length),
    ("elapsed_ms", .number c.elapsed.boundedMillis)] ++
    (c.error.map fun text => ("error", Json.string text)).toList)

def summary (captures : List Capture) : String := (Json.array (captures.map summaryEntry)).pretty

def writeEach (directory : Path) (files : FileTree) : List Capture → FileTree.Change
  | [] => ⟨files, none⟩
  | c :: captures =>
    (files.after (files.write (responsePath directory c.name) c.received)).andThen fun files =>
      writeEach directory files captures

/-- Writes all files of a report: the responses, and behind them the summary. -/
def writeAll (directory : Path) (files : FileTree) (captures : List Capture) : FileTree.Change :=
  ((files.makeDirectories directory).andThen fun files =>
      writeEach directory files captures).andThen fun files =>
    files.after (files.write (summaryPath directory) (Text.bytes (summary captures)))

structure Filed where
  result : Except Failure Path
  files : FileTree
  log : List LogLine

def file (directory : Path) (files : FileTree) (captures : List Capture) : Filed :=
  match writeAll directory files captures with
  | ⟨files, some fault⟩ => ⟨.error (.io fault), files, []⟩
  | ⟨files, none⟩ =>
    ⟨.ok (summaryPath directory), files,
      [.info s!"Wrote {captures.length} responses to {directory.display}"]⟩

end WireReplay.Report
