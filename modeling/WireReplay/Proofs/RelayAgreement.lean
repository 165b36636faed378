import WireReplay.Proofs.RelayedTurn
import WireReplay.Proofs.ReplaySteps
import WireReplay.Proofs.Verdicts
import WireReplay.Send

/-!
# Relays and runs

Sending data and replaying it as the one payload of a run report the same thing in two ways: a
relay by its summary or by the failure it ends in, a run by the outcome and the error text of a
capture. The turn behind both is one, so each report can be read off the other.
-/

namespace WireReplay

/-- Whether the verdict is about an attempt to connect. -/
def Verdict.isUnconnected : Verdict → Bool
  | .connectFailed _ _ => true
  | .connectTimedOut _ _ => true
  | _ => false

theorem Link.exchange_verdict_connected {link : Link} {data : Bytes} {settings : Replay.Settings}
    {halfClose : Bool} {clock : Clock} {v : Verdict}
    (hv : (link.exchange data settings halfClose clock).verdict = some v) :
    v.isUnconnected = false := by
  cases hc : clock.isCancelled with
  | true =>
    rw [exchange_of_cancelled data settings halfClose hc] at hv
    cases hv
    rfl
  | false =>
    by_cases hs : (link.sendAll data settings halfClose clock).ending = .done ()
    · rw [exchange_of_sent hc hs] at hv
      have hsent := capture_verdict_sent _ _ _ _ hv
      cases v <;> first | rfl | cases hsent
    · rw [exchange_of_unsent hc hs] at hv
      generalize (link.sendAll data settings halfClose clock).ending = ending at hv
      cases ending <;> cases hv <;> rfl

theorem Payload.error_captured (p : Payload) (verdict : Verdict) (received : Bytes)
    (elapsed : Duration) : (p.captured verdict received elapsed).error = verdict.error := rfl

theorem Payload.outcome_captured (p : Payload) (verdict : Verdict) (received : Bytes)
    (elapsed : Duration) : (p.captured verdict received elapsed).outcome = verdict.outcome := rfl

/-- How sending `data` results where a run of it as the one payload leaves the capture `c`. -/
structure Relay.Agrees (data : Bytes) (c : Capture) (result : Option (Except Failure Summary)) :
    Prop where
  outcome_cases : c.outcome = .ok ∨ c.outcome = .timeout ∨ c.outcome = .ioError
  finished : c.outcome = .ok ∨ c.outcome = .timeout →
    result = some (.ok ⟨data.length, c.received.length, c.outcome⟩)
  error_cases : c.outcome = .ioError →
    (∃ text, c.error = some ("read failed: " ++ text) ∨ c.error = some ("write failed: " ++ text)) ∨
      ∃ millis : Nat, c.error = some s!"write timed out after {millis} ms"
  failed : ∀ text,
    c.error = some ("read failed: " ++ text) ∨ c.error = some ("write failed: " ++ text) →
      ∃ fault, result = some (.error (.io fault)) ∧
        (Failure.io fault).message = "IO error: " ++ text
  timedOut : ∀ millis : Nat, c.error = some s!"write timed out after {millis} ms" →
    ∃ text, result = some (.error (.io (.custom .timedOut text))) ∧
      (Failure.io (.custom .timedOut text)).message =
        s!"IO error: write timed out after {millis} ms"

namespace Relay

theorem readFailed_ne_writeFailed (text text' : String) :
    "read failed: " ++ text ≠ "write failed: " ++ text' := by
  intro h
  have hfirst := congrArg (fun s : String => s.toList[0]?) h
  simp at hfirst

theorem readFailed_ne_writeTimedOut (text : String) (millis : Nat) :
    "read failed: " ++ text ≠ s!"write timed out after {millis} ms" := by
  intro h
  have hfirst := congrArg (fun s : String => s.toList[0]?) h
  simp [toString] at hfirst

theorem writeFailed_ne_writeTimedOut (text : String) (millis : Nat) :
    "write failed: " ++ text ≠ s!"write timed out after {millis} ms" := by
  intro h
  have hseventh := congrArg (fun s : String => s.toList[6]?) h
  simp [toString] at hseventh

section Verdicts

variable {data received : Bytes} {name : String} {elapsed : Duration}

theorem agrees_of_failed {verdict : Verdict} {fault : Fault} (ho : verdict.outcome = .ioError)
    (hf : verdict.finish data.length received.length = .failed fault)
    (he : verdict.error = some ("read failed: " ++ fault.describe) ∨
      verdict.error = some ("write failed: " ++ fault.describe)) :
    Agrees data (Payload.captured ⟨name, data⟩ verdict received elapsed)
      (verdict.finish data.length received.length).result where
  outcome_cases := .inr (.inr ho)
  finished h := by
    rw [Payload.outcome_captured, ho] at h
    simp at h
  error_cases _ := .inl ⟨_, he⟩
  failed text h := by
    have htext : fault.describe = text := by
      rw [Payload.error_captured] at h
      rcases he with he | he <;> rw [he] at h <;> rcases h with h | h
      · exact (String.append_right_inj _).1 (Option.some.inj h)
      · exact absurd (Option.some.inj h) (readFailed_ne_writeFailed _ _)
      · exact absurd (Option.some.inj h).symm (readFailed_ne_writeFailed _ _)
      · exact (String.append_right_inj _).1 (Option.some.inj h)
    rw [hf, ← htext]
    exact ⟨fault, rfl, rfl⟩
  timedOut millis h := by
    rw [Payload.error_captured] at h
    rcases he with he | he <;> rw [he] at h
    · exact absurd (Option.some.inj h) (readFailed_ne_writeTimedOut _ _)
    · exact absurd (Option.some.inj h) (writeFailed_ne_writeTimedOut _ _)

theorem agrees_of_writeTimedOut (millis : Nat) :
    Agrees data (Payload.captured ⟨name, data⟩ (.writeTimedOut millis) received elapsed)
      ((Verdict.writeTimedOut millis).finish data.length received.length).result where
  outcome_cases := .inr (.inr rfl)
  finished h := by
    rw [Payload.outcome_captured] at h
    simp [Verdict.outcome] at h
  error_cases _ := .inr ⟨millis, rfl⟩
  failed text h := by
    rcases h with h | h
    · exact absurd (Option.some.inj h).symm (readFailed_ne_writeTimedOut _ _)
    · exact absurd (Option.some.inj h).symm (writeFailed_ne_writeTimedOut _ _)
  timedOut other h := by
    refine ⟨_, rfl, ?_⟩
    rw [Option.some.inj h]
    rfl

theorem agrees_of_finished {verdict : Verdict}
    (ho : verdict.outcome = .ok ∨ verdict.outcome = .timeout)
    (hf : verdict.finish data.length received.length =
      .finished ⟨data.length, received.length, verdict.outcome⟩) :
    Agrees data (Payload.captured ⟨name, data⟩ verdict received elapsed)
      (verdict.finish data.length received.length).result where
  outcome_cases := ho.imp_right .inl
  finished _ := by rw [hf]; rfl
  error_cases h := by
    rw [Payload.outcome_captured] at h
    rw [h] at ho
    simp at ho
  failed text h := by
    rw [Payload.error_captured, verdict.error_eq_none_iff.2 ho] at h
    simp at h
  timedOut millis h := by
    rw [Payload.error_captured, verdict.error_eq_none_iff.2 ho] at h
    cases h

theorem Agrees.result_ne_none {c : Capture} {result : Option (Except Failure Summary)}
    (h : Agrees data c result) : result ≠ none := by
  intro hnone
  have hfinished (ho : c.outcome = .ok ∨ c.outcome = .timeout) : False := by
    cases hnone.symm.trans (h.finished ho)
  rcases h.outcome_cases with ho | ho | ho
  · exact hfinished (.inl ho)
  · exact hfinished (.inr ho)
  · rcases h.error_cases ho with ⟨text, he⟩ | ⟨millis, he⟩
    · obtain ⟨fault, hresult, _⟩ := h.failed text he
      cases hnone.symm.trans hresult
    · obtain ⟨text, hresult, _⟩ := h.timedOut millis he
      cases hnone.symm.trans hresult

theorem agrees_of_verdict {verdict : Verdict} (hconnected : verdict.isUnconnected = false)
    (hcancelled : verdict ≠ .cancelled) :
    Agrees data (Payload.captured ⟨name, data⟩ verdict received elapsed)
      (verdict.finish data.length received.length).result := by
  cases verdict with
  | closed => exact agrees_of_finished (.inl rfl) rfl
  | silent => exact agrees_of_finished (.inr rfl) rfl
  | connectFailed => cases hconnected
  | connectTimedOut => cases hconnected
  | writeFailed fault => exact agrees_of_failed rfl rfl (.inr rfl)
  | writeTimedOut millis => exact agrees_of_writeTimedOut millis
  | readFailed fault => exact agrees_of_failed rfl rfl (.inl rfl)
  | cancelled => exact absurd rfl hcancelled

end Verdicts

end Relay

namespace Replay

theorem dial_of_no_steps {script : PeerScript} (h : script.connect = []) (target : String)
    (timeout : Duration) (clock : Clock) :
    Network.dial ⟨target, [script]⟩ 0 timeout clock = (.opened { script }, clock) := by
  have hpeer : { script with connect := [] } = script := by rw [← h]
  have hdialing : Network.dialing ⟨target, [script]⟩ 0 timeout clock =
      ⟨.done (), clock, (), []⟩ := by
    unfold Network.dialing
    rw [show (Network.peer ⟨target, [script]⟩ 0).connect = [] from h]
    rfl
  rw [Network.dial_eq, hdialing]
  exact congrArg (fun s => (Dialed.opened { script := s }, clock)) hpeer

theorem run_singleton {script : PeerScript} {settings : Settings} (target : String) (p : Payload)
    (hf : settings.freshConnections = true) (h : script.connect = []) :
    let turn := Link.exchange { script } p.bytes settings settings.halfClose {}
    (turn.verdict = none → run ⟨target, [script]⟩ settings [p] = none) ∧
      ∀ verdict, turn.verdict = some verdict →
        ∃ account, run ⟨target, [script]⟩ settings [p] = some account ∧
          account.captures =
            [p.captured verdict turn.received (.ofMillis turn.clock.now)] ∧
          account.duration = turn.clock.now := by
  intro turn
  have hline : (State.start ⟨target, [script]⟩ settings 1 none).line = .fresh := by
    simp [State.start, hf]
  have hafter : State.after ⟨target, [script]⟩ settings 1 none [p] =
      (State.start ⟨target, [script]⟩ settings 1 none).replayFresh ⟨target, [script]⟩ settings p :=
    State.replay_of_fresh hline rfl
  have hd := dial_of_no_steps h target settings.connectTimeout {}
  constructor
  · intro hv
    have hstuck := hafter.trans (State.replayFresh_of_no_verdict (by exact hd) hv)
    exact run_of_stuck (congrArg State.line hstuck)
  · intro verdict hv
    have hend := hafter.trans (State.replayFresh_of_verdict (by exact hd) hv)
    have hnot : (State.after ⟨target, [script]⟩ settings 1 none [p]).line = .fresh := by
      rw [hend]
      exact hline
    refine ⟨_, run_eq_some_iff.2 ⟨?_, rfl⟩, ?_, ?_⟩
    · change (State.after ⟨target, [script]⟩ settings 1 none [p]).line ≠ .stuck
      rw [hnot]
      simp
    · change (State.after ⟨target, [script]⟩ settings 1 none [p]).captures = _
      rw [hend]
      rfl
    · change (State.after ⟨target, [script]⟩ settings 1 none [p]).clock.now = _
      rw [hend]
      rfl

/-- Sending `data` over an open connection and running it as the one payload of a run against the
same peer come to an end together and agree on it, if the output is never what is waited for. -/
theorem relay_agrees_with_run (script output : PeerScript) (data : Bytes) (target name : String)
    (settings : Settings) (connectTimeout : Duration) (hf : settings.freshConnections = true)
    (hcalm : script.IsCalm) (hconnect : script.connect = []) (hout : output.AcceptsAtOnce) :
    let relayed := relay script output data
      ⟨connectTimeout, settings.writeTimeout, some settings.readTimeout, settings.halfClose⟩
    let ran := run ⟨target, [script]⟩ settings [⟨name, data⟩]
    (relayed.1.result = none ↔ ran = none) ∧
      ∀ account, ran = some account → ∃ c, account.captures = [c] ∧
        Relay.Agrees data c relayed.1.result ∧
        relayed.2.clock.now = account.duration ∧ relayed.2.output.written = c.received := by
  intro relayed ran
  obtain ⟨output', hrelay, hwritten⟩ := Relay.State.relay_eq_exchange data settings connectTimeout
    { script } { script := output } {} hcalm rfl hout rfl
  have hrelayed : relayed = _ := hrelay
  have hne : (Link.exchange { script } data settings settings.halfClose {}).verdict ≠
      some .cancelled :=
    Link.exchange_verdict_ne_cancelled hcalm data settings settings.halfClose rfl
  obtain ⟨hnever, hends⟩ := run_singleton target ⟨name, data⟩ hf hconnect
  rw [hrelayed]
  dsimp only at hnever hends
  cases hv : (Link.exchange { script } data settings settings.halfClose {}).verdict with
  | none =>
    have hran : ran = none := hnever hv
    have hfinish : (Link.exchange { script } data settings settings.halfClose {}).finish
        data.length = .never := by rw [Turn.finish, hv]; rfl
    refine ⟨⟨fun _ => hran, fun _ => by rw [hfinish]; rfl⟩, fun account h => ?_⟩
    rw [hran] at h
    cases h
  | some verdict =>
    obtain ⟨account, hran, hcaptures, hduration⟩ := hends verdict hv
    have hagrees : Relay.Agrees data
        (Payload.captured ⟨name, data⟩ verdict
          (Link.exchange { script } data settings settings.halfClose {}).received
          (.ofMillis (Link.exchange { script } data settings settings.halfClose {}).clock.now))
        (verdict.finish data.length
          (Link.exchange { script } data settings settings.halfClose {}).received.length).result :=
      Relay.agrees_of_verdict (Link.exchange_verdict_connected hv) fun h => hne (by rw [hv, h])
    have hfinish : (Link.exchange { script } data settings settings.halfClose {}).finish
        data.length = verdict.finish data.length
          (Link.exchange { script } data settings settings.halfClose {}).received.length := by
      rw [Turn.finish, hv]
      rfl
    rw [hfinish]
    constructor
    · have hsome : ran ≠ none := by rw [show ran = _ from hran]; simp
      exact ⟨fun h => absurd h hagrees.result_ne_none, fun h => absurd h hsome⟩
    · intro account' h
      cases hran.symm.trans h
      exact ⟨_, hcaptures, hagrees, hduration.symm, hwritten⟩

/-- A peer sends more than fits into one read of a relay, and resets the connection later on. -/
theorem relay_agrees_with_run_of_reset :
    ∃ account,
      run ⟨"peer", [{ read := [.act (.data (List.replicate 1500 7)), .delay 10,
          .error (.bare .connectionReset)] }]⟩ {} [⟨"a", [65]⟩] = some account ∧
        account.captures.map (·.error) = [some "read failed: connection reset"] ∧
        ∃ c, account.captures = [c] ∧
          Relay.Agrees [65] c (relay { read := [.act (.data (List.replicate 1500 7)), .delay 10,
            .error (.bare .connectionReset)] } { write := [.act 1000] } [65] {}).1.result := by
  have hcalm (bytes : Bytes) : PeerScript.IsCalm { read := [.act (.data bytes), .delay 10,
      .error (.bare .connectionReset)] } := by
    constructor <;> simp
  have hout : PeerScript.AcceptsAtOnce { write := [.act 1000] } := by
    constructor <;> simp
  have hrun : (run ⟨"peer", [{ read := [.act (.data (List.replicate 1500 7)), .delay 10,
      .error (.bare .connectionReset)] }]⟩ {} [⟨"a", [65]⟩]).map (·.captures.map (·.error)) =
        some [some "read failed: connection reset"] := by
    decide +kernel
  obtain ⟨account, hsome, herror⟩ := Option.map_eq_some_iff.1 hrun
  obtain ⟨_, hall⟩ :=
    relay_agrees_with_run _ _ [65] "peer" "a" {} (.ofMillis 5000) rfl (hcalm _) rfl hout
  obtain ⟨c, hc, hagrees, _⟩ := hall account hsome
  exact ⟨account, hsome, herror, c, hc, hagrees⟩

end Replay

end WireReplay
