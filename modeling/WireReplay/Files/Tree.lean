import WireReplay.Fault
import WireReplay.Files.Path

/-!
# File trees

A file system as a tree of nodes, and the operations on it that a program can ask for: each either
yields its result or the fault by which the system refuses. A change in several steps keeps what
was done before such a fault.
-/

namespace WireReplay

inductive Node
  | file (bytes : Bytes)
  | directory (entries : List (Bytes × Node))
  /-- Stands for what is at another path, absolute or seen from its own directory. -/
  | link (target : Path)
  | pipe
  /-- Always empty, whatever is written to it. -/
  | sink
deriving Repr, Inhabited

namespace Node

def isDirectory : Node → Bool
  | directory _ => true
  | _ => false

def isFile : Node → Bool
  | file _ => true
  | _ => false

def entry? (name : Bytes) : Node → Option Node
  | directory entries => entries.lookup name
  | _ => none

def setEntry (name : Bytes) (node : Node) : List (Bytes × Node) → List (Bytes × Node)
  | [] => [(name, node)]
  | (n, other) :: rest =>
    if n = name then (n, node) :: rest else (n, other) :: setEntry name node rest

def at? (place : List Bytes) (node : Node) : Option Node :=
  match place with
  | [] => some node
  | name :: rest => (node.entry? name).bind (at? rest)

/-- Puts a node at a place. Nothing changes where no directory leads there. -/
def put (new : Node) : List Bytes → Node → Node
  | [], _ => new
  | name :: rest, directory entries =>
    match rest with
    | [] => directory (setEntry name new entries)
    | _ :: _ =>
      match entries.lookup name with
      | some sub => directory (setEntry name (put new rest sub) entries)
      | none => directory entries
  | _ :: _, node => node

end Node

structure FileTree where
  root : Node := .directory []
deriving Repr, Inhabited

/-- What a path is followed for: to look at what stands at its end or to write the file there,
behind all links, or to have the entry under its last name, even if that is a link. -/
inductive Purpose
  | look
  | write
  | entry
deriving DecidableEq, Repr

/-- Where a path leads: to a node, or to a name under which nothing stands in a directory. -/
inductive Spot
  | present (place : List Bytes) (node : Node)
  | absent (place : List Bytes)
deriving Repr

/-- What a change in steps leaves behind: the files after its last step, and the fault of that step
if it ended the change early. -/
structure FileTree.Change where
  files : FileTree
  fault : Option Fault := none
deriving Repr, Inhabited

namespace FileTree.Change

def andThen (c : Change) (next : FileTree → Change) : Change :=
  match c.fault with
  | none => next c.files
  | some _ => c

def result (c : Change) : Except Fault FileTree :=
  match c.fault with
  | none => .ok c.files
  | some fault => .error fault

theorem andThen_of_fault {c : Change} {fault : Fault} (h : c.fault = some fault)
    (next : FileTree → Change) : c.andThen next = c := by
  simp only [andThen, h]

theorem andThen_of_no_fault {c : Change} (h : c.fault = none) (next : FileTree → Change) :
    c.andThen next = next c.files := by
  simp only [andThen, h]

end FileTree.Change

namespace FileTree

/-- The change that a single step makes. A step that fails leaves the files as they were. -/
def after (t : FileTree) (step : Except Fault FileTree) : Change :=
  match step with
  | .ok files => ⟨files, none⟩
  | .error fault => ⟨t, some fault⟩

def put (t : FileTree) (place : List Bytes) (new : Node) : FileTree := ⟨Node.put new place t.root⟩

def nameLimit : Nat := 255

/-- A path is shorter than this, in bytes. -/
def pathLimit : Nat := 4096

def linkLimit : Nat := 40

def noSuchEntry : Fault := .system 2
def noDevice : Fault := .system 6
def entryExists : Fault := .system 17
def notDirectory : Fault := .system 20
def isDirectoryFault : Fault := .system 21
def nameTooLong : Fault := .system 36
def tooManyLinks : Fault := .system 40

/-- Walks along the parts of a path, starting in the directory at `here`. A link on the way is
followed, one at the end unless its own entry is wanted. A slash at the end names a directory,
which is nothing to be written, whatever stands there. -/
def walk (root : Node) (purpose : Purpose) (links : Nat) (here : List Bytes)
    (path : List Bytes) : Except Fault Spot :=
  match path with
  | [] => .ok (.present here ((root.at? here).getD root))
  | part :: rest =>
    if part = [] ∨ part = [Path.dot] then walk root purpose links here rest
    else if part = [Path.dot, Path.dot] then walk root purpose links here.dropLast rest
    else if purpose = .write ∧ rest ≠ [] ∧ rest.all (· = []) then .error isDirectoryFault
    else if nameLimit < part.length then .error nameTooLong
    else
      match (root.at? here).bind (Node.entry? part) with
      | none => if rest = [] then .ok (.absent (here ++ [part])) else .error noSuchEntry
      | some (.directory _) => walk root purpose links (here ++ [part]) rest
      | some (.link target) =>
        if rest = [] ∧ purpose = .entry then .ok (.present (here ++ [part]) (.link target))
        else
          match links with
          | 0 => .error tooManyLinks
          | links + 1 =>
            walk root purpose links (if target.isAbsolute then [] else here) (target.parts ++ rest)
      | some node =>
        if rest = [] then .ok (.present (here ++ [part]) node) else .error notDirectory
termination_by (links, path.length)

/-- Where a path leads. Paths that are not absolute are seen from the root. -/
def locate (t : FileTree) (purpose : Purpose) (p : Path) : Except Fault Spot :=
  if 0 ∈ p then .error .zeroByteInName
  else if p = [] then .error noSuchEntry
  else if pathLimit ≤ p.length then .error nameTooLong
  else walk t.root purpose linkLimit [] p.parts

def node (t : FileTree) (p : Path) : Except Fault Node :=
  match t.locate .look p with
  | .ok (.present _ node) => .ok node
  | .ok (.absent _) => .error noSuchEntry
  | .error fault => .error fault

def isDirectory (t : FileTree) (p : Path) : Bool :=
  match t.node p with
  | .ok node => node.isDirectory
  | .error _ => false

def isFile (t : FileTree) (p : Path) : Bool :=
  match t.node p with
  | .ok node => node.isFile
  | .error _ => false

def contains (t : FileTree) (p : Path) : Bool :=
  match t.node p with
  | .ok _ => true
  | .error _ => false

/-- The bytes of a file. A pipe is refused at once. That is an approximation: to open one is to wait
for whoever opens its other end. -/
def read (t : FileTree) (p : Path) : Except Fault Bytes :=
  match t.node p with
  | .ok (.file bytes) => .ok bytes
  | .ok .sink => .ok []
  | .ok (.directory _) => .error isDirectoryFault
  | .ok _ => .error noDevice
  | .error fault => .error fault

def readText (t : FileTree) (p : Path) : Except Fault String :=
  match t.read p with
  | .ok bytes =>
    match Text.decode? bytes with
    | some text => .ok text
    | none => .error .notText
  | .error fault => .error fault

def entries (t : FileTree) (p : Path) : Except Fault (List (Bytes × Node)) :=
  match t.node p with
  | .ok (.directory entries) => .ok entries
  | .ok _ => .error notDirectory
  | .error fault => .error fault

/-- Writes a file, whatever it held before. A pipe is refused as in `read`. -/
def write (t : FileTree) (p : Path) (bytes : Bytes) : Except Fault FileTree :=
  match t.locate .write p with
  | .ok (.present place (.file _)) => .ok (t.put place (.file bytes))
  | .ok (.present _ .sink) => .ok t
  | .ok (.present _ (.directory _)) => .error isDirectoryFault
  | .ok (.present _ _) => .error noDevice
  | .ok (.absent place) => .ok (t.put place (.file bytes))
  | .error fault => .error fault

def trimSlashes (p : Path) : Path :=
  if p.all (· = Path.slash) then p else (p.reverse.dropWhile (· = Path.slash)).reverse

/-- Makes a directory in one that exists. Slashes at the end of its path count for nothing but the
length of the path. -/
def makeDirectory (t : FileTree) (p : Path) : Except Fault FileTree :=
  if 0 ∉ p ∧ pathLimit ≤ p.length then .error nameTooLong
  else
    match t.locate .entry (trimSlashes p) with
    | .ok (.present _ _) => .error entryExists
    | .ok (.absent place) => .ok (t.put place (.directory []))
    | .error fault => .error fault

def ensureDirectory (t : FileTree) (p : Path) : Change :=
  match t.makeDirectory p with
  | .ok files => ⟨files, none⟩
  | .error fault => if t.isDirectory p then ⟨t, none⟩ else ⟨t, some fault⟩

def lacksParent (t : FileTree) (p : Path) : Bool :=
  match t.makeDirectory p with
  | .ok _ => false
  | .error fault => fault = noSuchEntry

/-- Makes a directory and before it those of the directories around it that it lacks; their paths
are given, the nearest first. -/
def makeWithin (t : FileTree) (p : Path) : List Path → Change
  | [] => t.ensureDirectory p
  | parent :: others =>
    if t.lacksParent p then (t.makeWithin parent others).andThen fun t => t.ensureDirectory p
    else t.ensureDirectory p

/-- Makes a directory with all directories around it, as far as they do not exist. Those made
before a fault stay. -/
def makeDirectories (t : FileTree) (p : Path) : Change :=
  if p = [] then ⟨t, none⟩ else t.makeWithin p p.ancestors

def plant (t : FileTree) (p : Path) (new : Node) : Except Fault FileTree := do
  let t ← match p.ancestors with
    | [] => .ok t
    | parent :: _ => (t.makeDirectories parent).result
  match ← t.locate .entry p with
  | .present place _ => .ok (t.put place new)
  | .absent place => .ok (t.put place new)

end FileTree

end WireReplay
