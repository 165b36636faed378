import WireReplay.Session

/-!
# The program

Reads the files that a command line names, carries out its command, and writes what came of it.
No sockets are at hand here: to this program every endpoint is unreachable.
-/

namespace WireReplay.Program

def usage : String :=
  "Usage: run <HOST> <PORT> <CORPUS> [OPTIONS]\n       send <HOST> <PORT> [OPTIONS]"

def version : String := "0.1.0"

def pathFrom (variableName : String) : IO (Option Path) := do
  return ((← IO.getEnv variableName).map Text.bytes).filter (· ≠ [])

def withFile (files : FileTree) (path : Path) : IO FileTree := do
  let place := (← IO.currentDir) / path.display
  if (← place.pathExists) && !(← place.isDir) then
    let bytes := (← IO.FS.readBinFile place).toList
    return (files.plant path (.file bytes)).toOption.getD files
  return files

def withDirectory (files : FileTree) (path : Path) : IO FileTree := do
  let place := (← IO.currentDir) / path.display
  if !(← place.isDir) then return files
  let entries ← (← place.readDir).toList.mapM fun entry => do
    let node ← match (← entry.path.metadata).type with
      | .dir => pure (Node.directory [])
      | .file => pure (Node.file (← IO.FS.readBinFile entry.path).toList)
      | _ => pure Node.pipe
    return (Text.bytes entry.fileName, node)
  return (files.plant path (.directory entries)).toOption.getD files

def writeDirectory (files : FileTree) (path : Path) : IO Unit := do
  let place := (← IO.currentDir) / path.display
  match files.entries path with
  | .error _ => return
  | .ok entries =>
    IO.FS.createDirAll place
    for (name, node) in entries do
      match node with
      | .file bytes => IO.FS.writeBinFile (place / Text.lossy name) ⟨bytes.toArray⟩
      | _ => pure ()

/-- The whole standard input, as a peer that closes behind it. -/
def standardInput : IO PeerScript := do
  let bytes := (← (← IO.getStdin).readBinToEnd).toList
  return { read := [.act (.data bytes), .act .eof] }

def carryOut (i : Invocation) : IO UInt32 := do
  let directory := Configuration.directory? (← pathFrom "HOME") (← pathFrom "XDG_CONFIG_HOME")
  let usual := directory.map Configuration.pathIn
  let (files, input) ← match i.command with
    | .run c => pure (← withDirectory {} c.corpus, {})
    | .send _ => pure ({}, ← standardInput)
  let files ← (i.config.or usual).elim (pure files) (withFile files)
  let output ← IO.getStdout
  let settings ← ["CLICOLOR_FORCE", "NO_COLOR", "CLICOLOR"].filterMapM fun name => do
    return (← IO.getEnv name).map (name, ·)
  let transcript := Session.carryOut {
    files
    input
    peers := fun _ => [.unreachable]
    showsStyles := Style.isShown (← output.isTty) (settings.lookup ·) } usual i
  for line in transcript.log do
    IO.eprintln s!"{line.level.name} {line.text}"
  match i.command with
  | .run c => c.output.elim (pure ()) (writeDirectory transcript.files)
  | .send _ => pure ()
  output.write ⟨transcript.output.toArray⟩
  output.flush
  match transcript.result with
  | some (.error failure) =>
    IO.eprintln s!"Error: {failure.message}"
    return 1
  | _ => return 0

end WireReplay.Program

open WireReplay

/-- Exits with 2 for a line that is no command, and with 1 for a command that failed. -/
def main (words : List String) : IO UInt32 := do
  match CommandLine.parse (words.map Text.bytes) with
  | .ok invocation => Program.carryOut invocation
  | .error stop =>
    match stop with
    | .help => IO.println Program.usage
    | .version => IO.println Program.version
    | _ => IO.eprintln Program.usage
    return UInt32.ofNat stop.exitCode
