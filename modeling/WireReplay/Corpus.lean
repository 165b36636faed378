import WireReplay.Failure
import WireReplay.Files.Tree
import WireReplay.Log
import WireReplay.Replay.Capture

/-!
# Corpora

A corpus is a directory with one file for each payload. The file's bytes are the payload, and its
name without the extension is the payload's name.
-/

namespace WireReplay.Corpus

/-- Whether an entry of a corpus directory holds a payload: a regular file, or a link to one,
that is not hidden. -/
def holdsPayload (files : FileTree) (directory : Path) (entry : Bytes × Node) : Bool :=
  entry.1.head? != some Path.dot &&
    match entry.2 with
    | .file _ => true
    | .link _ => files.isFile (directory.join entry.1)
    | _ => false

def fileNames (files : FileTree) (directory : Path) (entries : List (Bytes × Node)) : List Bytes :=
  ((entries.filter (holdsPayload files directory)).map (·.1)).mergeSort (· ≤ ·)

structure Loaded where
  payloads : List Payload := []
  log : List LogLine := []
deriving DecidableEq, Repr

/-- Adds a payload. It takes the place of an earlier one of the same name, but not its position. -/
def Loaded.add (l : Loaded) (p : Payload) (path : Path) : Loaded :=
  if l.payloads.any (·.name == p.name) then
    ⟨l.payloads.filter (·.name != p.name) ++ [p],
      l.log ++ [.warn s!"Duplicate test name '{p.name}', keeping {path.display}"]⟩
  else { l with payloads := l.payloads ++ [p] }

def unreadable (path : Path) (fault : Fault) : Failure := .unreadable path.display fault.describe

def readAll (files : FileTree) (directory : Path) (l : Loaded) :
    List Bytes → Except Failure (List Payload) × List LogLine
  | [] => (.ok l.payloads, l.log)
  | name :: names =>
    let path := directory.join name
    match files.read path with
    | .ok bytes => readAll files directory (l.add ⟨Text.lossy (Path.stem name), bytes⟩ path) names
    | .error fault => (.error (unreadable path fault), l.log)

/-- Loads the corpus in a directory, ordered by file name. -/
def load (files : FileTree) (directory : Path) : Except Failure (List Payload) × List LogLine :=
  if files.isDirectory directory then
    match files.entries directory with
    | .ok entries => readAll files directory {} (fileNames files directory entries)
    | .error fault => (.error (unreadable directory fault), [])
  else (.error (.corpusNotFound directory.display), [])

end WireReplay.Corpus
