import WireReplay.Command.Line
import WireReplay.Configuration
import WireReplay.Corpus
import WireReplay.Endpoint
import WireReplay.Replay.Run
import WireReplay.Report.Overview
import WireReplay.Report.Responses
import WireReplay.Send

/-!
# Sessions

A command carried out from its options to its output: what it prints, logs and writes to files,
and whether it succeeds.
-/

namespace WireReplay

def RunCommand.settings (c : RunCommand) (config : Configuration) : Replay.Settings :=
  let base := config.settings
  { connectTimeout := c.connectTimeout.elim base.connectTimeout .ofMillis
    readTimeout := c.readTimeout.elim base.readTimeout .ofMillis
    writeTimeout := c.writeTimeout.elim base.writeTimeout .ofMillis
    freshConnections := base.freshConnections && !c.reuseConnection
    halfClose := base.halfClose || c.halfClose }

def SendCommand.settings (c : SendCommand) (config : Configuration) : Relay.Settings :=
  let idle := c.idleTimeout.getD config.timeouts.read
  { connectTimeout := .ofMillis (c.connectTimeout.getD config.timeouts.connect)
    writeTimeout := .ofMillis config.timeouts.write
    idleTimeout := if idle = 0 then none else some (.ofMillis idle)
    halfClose := c.halfClose || config.halfClose }

structure Surroundings where
  files : FileTree
  peers : Endpoint → List PeerScript
  input : PeerScript := {}
  showsStyles : Bool := false
  cancelAt : Option Nat := none

structure Transcript where
  /-- None if the session never ends. -/
  result : Option (Except Failure Unit)
  output : Bytes := []
  log : List LogLine := []
  files : FileTree
  attempts : Nat := 0
  links : List Link := []

namespace Session

def fail (s : Surroundings) (failure : Failure) (log : List LogLine) : Transcript where
  result := some (.error failure)
  log
  files := s.files

def network (s : Surroundings) (e : Endpoint) : Network := ⟨e.display, s.peers e⟩

def verdict (captures : List Capture) : Except Failure Unit :=
  let failed := captures.countP (!·.outcome.isOk)
  if failed = 0 then .ok () else .error (.incomplete failed captures.length)

/-- What is logged if the user interrupts a run before it is over. -/
def interruption (s : Surroundings) (account : Replay.Account) : List LogLine :=
  if s.cancelAt.any (· ≤ account.duration) then [.info "Received Ctrl+C, cancelling the run"]
  else []

def report (s : Surroundings) (output : Option Path) (isVerbose : Bool) (log : List LogLine)
    (account : Replay.Account) : Transcript :=
  let overview := Report.overview s.showsStyles isVerbose account.captures
  let log := log ++ account.log ++ interruption s account
  match output with
  | none =>
    { result := some (verdict account.captures)
      output := Text.bytes overview
      log
      files := s.files
      attempts := account.attempts
      links := account.links }
  | some directory =>
    let filed := Report.file directory s.files account.captures
    match filed.result with
    | .error failure =>
      { result := some (.error failure)
        log := log ++ filed.log
        files := filed.files
        attempts := account.attempts
        links := account.links }
    | .ok summary =>
      { result := some (verdict account.captures)
        output := Text.bytes (s!"Responses written to {summary.display}\n" ++ overview)
        log := log ++ filed.log
        files := filed.files
        attempts := account.attempts
        links := account.links }

/-- Replays a corpus. Nothing is connected before the endpoint, the settings and the corpus are
known to be good, in this order. -/
def replay (s : Surroundings) (config : Configuration) (isVerbose : Bool) (c : RunCommand) :
    Transcript :=
  let settings := c.settings config
  match Endpoint.make c.host c.port with
  | .error failure => fail s failure []
  | .ok endpoint =>
    match settings.validate with
    | .error failure => fail s failure []
    | .ok () =>
      match Corpus.load s.files c.corpus with
      | (.error failure, log) => fail s failure log
      | (.ok payloads, log) =>
        let log :=
          if payloads.isEmpty then
            log ++ [.warn s!"Corpus {c.corpus.display} holds no payloads"]
          else log
        match Replay.run (network s endpoint) settings payloads s.cancelAt with
        | none => { result := none, log, files := s.files }
        | some account => report s c.output isVerbose log account

def send (s : Surroundings) (config : Configuration) (c : SendCommand) : Transcript :=
  match Endpoint.make c.host c.port with
  | .error failure => fail s failure []
  | .ok endpoint =>
    let sent := Relay.send (network s endpoint) s.input {} (c.settings config)
    let log : List LogLine :=
      match sent.result with
      | some (.ok summary) =>
        let moved := s!"Sent {summary.sent} bytes to {endpoint.display}"
        [.info s!"{moved}, received {summary.received} ({summary.outcome.name})"]
      | _ => []
    { result := sent.result.map fun r => r.map fun _ => ()
      output := sent.output.written
      log
      files := s.files
      attempts := sent.attempts
      links := sent.peer.toList }

def run (s : Surroundings) (config : Configuration) (isVerbose : Bool) : Command → Transcript
  | .run c => replay s config isVerbose c
  | .send c => send s config c

def configuration (s : Surroundings) (usual : Option Path) (i : Invocation) :
    Except Failure Configuration :=
  match i.config with
  | some path => Configuration.ofFile s.files path
  | none => Configuration.ofUsualFile s.files usual

def carryOut (s : Surroundings) (usual : Option Path) (i : Invocation) : Transcript :=
  match configuration s usual i with
  | .error failure => fail s failure []
  | .ok config => run s config i.isVerbose i.command

end Session

end WireReplay
