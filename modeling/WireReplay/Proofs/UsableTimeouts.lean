import WireReplay.Proofs.Sessions

/-!
# Usable timeouts

A timeout of zero would end every step at once, so the settings of a replay with one are refused.
They never come to that from a command line and a configuration that were accepted: both were
looked at before, each for its own timeouts, and whichever of the two a timeout is taken from, it
is not zero. What is left of the refusals is for callers who make settings by hand.
-/

namespace WireReplay

namespace Replay.Settings

theorem validate_eq_ok_iff {s : Settings} :
    s.validate = .ok () ↔ ∀ entry ∈ s.timeouts, entry.2.isZero = false := by
  unfold validate
  cases hfind : s.timeouts.find? (·.2.isZero) with
  | none =>
    have hall := List.find?_eq_none.mp hfind
    simpa only [true_iff, Bool.not_eq_true] using hall
  | some entry =>
    have hzero : entry.2.isZero = true := by
      simpa only using List.find?_some hfind
    refine ⟨fun h => (nomatch h), fun hall => ?_⟩
    rw [hall entry (List.mem_of_find?_eq_some hfind)] at hzero
    cases hzero

theorem validate_of_pos {s : Settings} (hconnect : 0 < s.connectTimeout.nanos)
    (hread : 0 < s.readTimeout.nanos) (hwrite : 0 < s.writeTimeout.nanos) :
    s.validate = .ok () := by
  have hisZero {d : Duration} (hd : 0 < d.nanos) : d.isZero = false :=
    beq_eq_false_iff_ne.mpr (Nat.ne_of_gt hd)
  rw [validate_eq_ok_iff]
  simp only [timeouts, List.forall_mem_cons, List.not_mem_nil, false_imp_iff, forall_const,
    and_true]
  exact ⟨hisZero hconnect, hisZero hread, hisZero hwrite⟩

end Replay.Settings

theorem Duration.ofMillis_pos {ms : Nat} (h : 0 < ms) : 0 < (ofMillis ms).nanos := by
  simp only [ofMillis]
  omega

theorem Duration.elim_pos {given : Option Nat} {usual : Nat}
    (hgiven : ∀ ms, given = some ms → 0 < ms) (husual : 0 < usual) :
    0 < (given.elim (ofMillis usual) ofMillis).nanos := by
  cases given with
  | none => exact ofMillis_pos husual
  | some ms => exact ofMillis_pos (hgiven ms rfl)

namespace Configuration

variable {config : Configuration}

/-- None of the timeouts is zero. -/
def IsUsable (config : Configuration) : Prop :=
  0 < config.timeouts.connect ∧ 0 < config.timeouts.read ∧ 0 < config.timeouts.write

theorem isUsable_default : IsUsable {} := ⟨by decide, by decide, by decide⟩

theorem isUsable_of_validate {c : Configuration} (h : c.validate = .ok config) :
    config.IsUsable := by
  unfold validate at h
  cases hfind : c.keyedTimeouts.find? (·.2 == 0) with
  | some entry => rw [hfind] at h; cases h
  | none =>
    rw [hfind] at h
    cases h
    have hall := List.find?_eq_none.mp hfind
    simp only [keyedTimeouts, List.forall_mem_cons, beq_iff_eq] at hall
    obtain ⟨hconnect, hread, hwrite, -⟩ := hall
    exact ⟨Nat.pos_of_ne_zero hconnect, Nat.pos_of_ne_zero hread, Nat.pos_of_ne_zero hwrite⟩

theorem isUsable_of_parse {text : String} (h : parse text = .ok config) : config.IsUsable := by
  unfold parse at h
  split at h
  · exact isUsable_of_validate h
  · cases h

end Configuration

namespace CommandLine

variable {words : List Bytes} {i : Invocation}

theorem run_of_parse {c : RunCommand} (h : parse words = .ok i) (hc : i.command = .run c) :
    (∀ ms, c.connectTimeout = some ms → 0 < ms) ∧ (∀ ms, c.readTimeout = some ms → 0 < ms) ∧
      ∀ ms, c.writeTimeout = some ms → 0 < ms := by
  obtain ⟨level, t, ht, hcommand⟩ := isChecked_of_parse h
  rw [hc] at hcommand
  cases level with
  | send => cases hcommand
  | top | run =>
    cases hcommand
    exact ⟨fun ms => ht.count_pos (.inl rfl), fun ms => ht.count_pos (.inr (.inl rfl)),
      fun ms => ht.count_pos (.inr (.inr rfl))⟩

theorem send_of_parse {c : SendCommand} (h : parse words = .ok i) (hc : i.command = .send c) :
    ∀ ms, c.connectTimeout = some ms → 0 < ms := by
  obtain ⟨level, t, ht, hcommand⟩ := isChecked_of_parse h
  rw [hc] at hcommand
  cases level with
  | top | run => cases hcommand
  | send =>
    cases hcommand
    exact fun ms => ht.count_pos (.inl rfl)

end CommandLine

section

variable {words : List Bytes} {i : Invocation} {config : Configuration}

theorem RunCommand.validate_settings {c : RunCommand} (h : CommandLine.parse words = .ok i)
    (hc : i.command = .run c) (hconfig : config.IsUsable) :
    (c.settings config).validate = .ok () := by
  obtain ⟨hconnect, hread, hwrite⟩ := CommandLine.run_of_parse h hc
  exact Replay.Settings.validate_of_pos (Duration.elim_pos hconnect hconfig.1)
    (Duration.elim_pos hread hconfig.2.1) (Duration.elim_pos hwrite hconfig.2.2)

theorem SendCommand.settings_pos {c : SendCommand} (h : CommandLine.parse words = .ok i)
    (hc : i.command = .send c) (hconfig : config.IsUsable) :
    0 < (c.settings config).connectTimeout.nanos ∧ 0 < (c.settings config).writeTimeout.nanos := by
  refine ⟨Duration.ofMillis_pos ?_, Duration.ofMillis_pos hconfig.2.2⟩
  cases hgiven : c.connectTimeout with
  | none => exact hconfig.1
  | some ms => exact CommandLine.send_of_parse h hc ms hgiven

/-- Only a command can ask for no bound on the silence of the peer. -/
theorem SendCommand.idleTimeout_eq_none_iff (c : SendCommand) (hconfig : config.IsUsable) :
    (c.settings config).idleTimeout = none ↔ c.idleTimeout = some 0 := by
  have hidle : (c.settings config).idleTimeout = none ↔
      c.idleTimeout.getD config.timeouts.read = 0 := by
    simp [settings]
  rw [hidle]
  cases c.idleTimeout with
  | none => simpa using hconfig.2.1.ne'
  | some ms => simp

end

/-- Whether a failure is the refusal of settings. -/
def Failure.isRefusal : Failure → Bool
  | .invalidOptions _ => true
  | _ => false

variable {failure : Failure}

theorem Endpoint.isRefusal_of_make {host : String} {port : UInt16}
    (h : make host port = .error failure) : failure.isRefusal = false := by
  simp only [make] at h
  split at h
  · cases h; rfl
  · split at h
    · cases h; rfl
    · cases h

theorem Corpus.isRefusal_of_readAll {files : FileTree} {directory : Path} {l : Loaded}
    {names : List Bytes} (h : (readAll files directory l names).1 = .error failure) :
    failure.isRefusal = false := by
  induction names generalizing l with
  | nil => cases h
  | cons name names ih =>
    rw [readAll] at h
    split at h
    · exact ih h
    · cases h; rfl

theorem Corpus.isRefusal_of_load {files : FileTree} {directory : Path}
    (h : (load files directory).1 = .error failure) : failure.isRefusal = false := by
  unfold load at h
  split at h
  · split at h
    · exact isRefusal_of_readAll h
    · cases h; rfl
  · cases h; rfl

theorem Report.isRefusal_of_file {directory : Path} {files : FileTree}
    {captures : List Capture} (h : (file directory files captures).result = .error failure) :
    failure.isRefusal = false := by
  unfold file at h
  split at h
  · cases h; rfl
  · cases h

theorem Relay.isRefusal_of_finish {finish : Finish}
    (h : finish.result = some (.error failure)) : failure.isRefusal = false := by
  cases finish with
  | failed => cases h; rfl
  | finished | never => cases h

theorem Relay.isRefusal_of_send {net : Network} {input output : PeerScript}
    {settings : Settings} (h : (send net input output settings).result = some (.error failure)) :
    failure.isRefusal = false := by
  simp only [send] at h
  split at h
  · simp only [sendData] at h
    split at h
    · exact isRefusal_of_finish h
    · cases h; rfl
    · cases h; rfl
    · cases h
  · cases h; rfl
  · cases h

namespace Session

variable {s : Surroundings} {config : Configuration} {isVerbose : Bool}

theorem isRefusal_of_prepare {c : RunCommand} (hsettings : (c.settings config).validate = .ok ())
    (h : prepare s config c = .error failure) : failure.isRefusal = false := by
  rcases error_of_bind h with hendpoint | ⟨endpoint, -, h⟩
  · exact Endpoint.isRefusal_of_make hendpoint
  rcases error_of_bind h with hrefused | ⟨-, -, h⟩
  · rw [hsettings] at hrefused
    cases hrefused
  rcases error_of_bind h with hload | ⟨payloads, -, h⟩
  · exact Corpus.isRefusal_of_load hload
  · cases h

theorem isRefusal_of_filing {output : Option Path} {captures : List Capture}
    (h : filing s output captures = .error failure) : failure.isRefusal = false := by
  cases output with
  | none => cases h
  | some directory =>
    rw [filing_some] at h
    cases hfile : (Report.file directory s.files captures).result with
    | error first =>
      rw [hfile] at h
      cases h
      exact Report.isRefusal_of_file hfile
    | ok => rw [hfile] at h; cases h

theorem isRefusal_of_verdict {captures : List Capture}
    (h : verdict captures = .error failure) : failure.isRefusal = false := by
  simp only [verdict] at h
  split at h
  · cases h
  · cases h; rfl

theorem isRefusal_of_replay {c : RunCommand} (hsettings : (c.settings config).validate = .ok ())
    (h : (replay s config isVerbose c).result = some (.error failure)) :
    failure.isRefusal = false := by
  cases hprepare : prepare s config c with
  | error first =>
    obtain ⟨log, hreplay⟩ := replay_of_unprepared isVerbose hprepare
    rw [hreplay] at h
    cases h
    exact isRefusal_of_prepare hsettings hprepare
  | ok ready =>
    obtain ⟨endpoint, payloads⟩ := ready
    obtain ⟨log, hnever, hover⟩ := replay_of_prepared isVerbose hprepare
    cases hrun : Replay.run (network s endpoint) (c.settings config) payloads s.cancelAt with
    | none => rw [hnever hrun] at h; cases h
    | some account =>
      rw [hover account hrun] at h
      cases hfiling : filing s c.output account.captures with
      | error first =>
        rw [(report_of_not_filed isVerbose log hfiling).1] at h
        cases h
        exact isRefusal_of_filing hfiling
      | ok summary =>
        rw [(report_of_filed isVerbose log hfiling).1] at h
        exact isRefusal_of_verdict (Option.some.inj h)

theorem isRefusal_of_send {c : SendCommand}
    (h : (send s config c).result = some (.error failure)) : failure.isRefusal = false := by
  unfold send at h
  cases hendpoint : Endpoint.make c.host c.port with
  | error first =>
    rw [hendpoint] at h
    cases h
    exact Endpoint.isRefusal_of_make hendpoint
  | ok endpoint =>
    rw [hendpoint] at h
    obtain ⟨outcome, hsent, houtcome⟩ := Option.map_eq_some_iff.mp h
    cases outcome with
    | ok => cases houtcome
    | error first =>
      cases houtcome
      exact Relay.isRefusal_of_send hsent

/-- No command line and no configuration that were accepted lead to a timeout of zero: the settings
of a replay are valid, and those of a relay have positive timeouts; only the command line can ask a
relay to wait for the peer without end. So no session fails for its settings. -/
theorem settings_of_accepted {words : List Bytes} {i : Invocation} {config : Configuration}
    (hline : CommandLine.parse words = .ok i)
    (hconfig : config = {} ∨ ∃ text, Configuration.parse text = .ok config) :
    (∀ c, i.command = .run c → (c.settings config).validate = .ok ()) ∧
      (∀ c, i.command = .send c →
        0 < (c.settings config).connectTimeout.nanos ∧
          0 < (c.settings config).writeTimeout.nanos ∧
          ((c.settings config).idleTimeout = none ↔ c.idleTimeout = some 0)) ∧
      ∀ (s : Surroundings) (isVerbose : Bool) (reason : String),
        (run s config isVerbose i.command).result ≠ some (.error (.invalidOptions reason)) := by
  have husable : config.IsUsable := by
    rcases hconfig with rfl | ⟨text, htext⟩
    · exact Configuration.isUsable_default
    · exact Configuration.isUsable_of_parse htext
  refine ⟨fun c hc => RunCommand.validate_settings hline hc husable, fun c hc => ?_, ?_⟩
  · obtain ⟨hconnect, hwrite⟩ := SendCommand.settings_pos hline hc husable
    exact ⟨hconnect, hwrite, SendCommand.idleTimeout_eq_none_iff c husable⟩
  · intro s isVerbose reason hrefused
    have hnot : (Failure.invalidOptions reason).isRefusal = false := by
      cases hcommand : i.command with
      | run c =>
        rw [hcommand] at hrefused
        exact isRefusal_of_replay (RunCommand.validate_settings hline hcommand husable) hrefused
      | send c =>
        rw [hcommand] at hrefused
        exact isRefusal_of_send hrefused
    cases hnot

/-- A read timeout from a text, and a line that asks for no idle timeout. -/
theorem settings_of_accepted_endless :
    let words := ["send", "localhost", "9", "--idle-timeout-ms", "0"].map Text.bytes
    let c : SendCommand := { host := "localhost", port := 9, idleTimeout := some 0 }
    let config : Configuration := { timeouts := { read := 7 } }
    CommandLine.parse words = .ok { command := .send c } ∧
      Configuration.parse "timeouts.read_ms = 7" = .ok config ∧
      (c.settings config).idleTimeout = none := by
  intro words c config
  have hline : CommandLine.parse words = .ok { command := .send c } := by cbv
  have hconfig : Configuration.parse "timeouts.read_ms = 7" = .ok config := by cbv
  have haccepted := settings_of_accepted hline (.inr ⟨_, hconfig⟩)
  exact ⟨hline, hconfig, (haccepted.2.1 c rfl).2.2.mpr rfl⟩

end Session

end WireReplay
