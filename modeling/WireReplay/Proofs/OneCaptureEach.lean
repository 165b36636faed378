import Mathlib.Data.List.Forall2
import WireReplay.Proofs.ReplaySteps
import WireReplay.Proofs.Verdicts

/-!
# One capture for each payload

A run that ends leaves exactly one capture for each payload, in order, whatever the peers do and
whenever it is cancelled. What the captures have in common is read off the ways in which a payload
can come by its capture, of which there are four.
-/

namespace WireReplay.Replay

/-- How a payload comes by its capture when the run has come to a given line. -/
inductive Given (line : Line) (p : Payload) : Capture → Prop
  | skipped {outcome : Outcome} {reason : String} (_ : line = .lost outcome reason) :
      Given line p (p.skipped outcome reason)
  | cancelled : Given line p (p.skipped .cancelled cancelledReason)
  | refused {verdict : Verdict} (elapsed : Duration) :
      Given line p (p.captured verdict [] elapsed)
  | turned {link : Link} {settings : Settings} {halfClose : Bool} {clock : Clock}
      {verdict : Verdict} (elapsed : Duration)
      (_ : (link.exchange p.bytes settings halfClose clock).verdict = some verdict) :
      Given line p
        (p.captured verdict (link.exchange p.bytes settings halfClose clock).received elapsed)

/-- The lines that a run with these settings can have. -/
def Line.Suits (settings : Settings) : Line → Prop
  | .fresh => settings.freshConnections = true
  | .unopened => settings.freshConnections = false
  | .shared _ => settings.freshConnections = false
  | .lost outcome _ =>
      settings.freshConnections = false ∧ (outcome = .cancelled ∨ outcome = .connectionClosedEarly)
  | .stuck => True

/-- `p` was replayed from `s` to `after`, and came by one capture if the run is not stuck. -/
structure Served (settings : Settings) (s : State) (p : Payload) (after : State) : Prop where
  suits : after.line.Suits settings
  given : after.line = .stuck ∨
    ∃ c, Given s.line p c ∧ after.captures = s.captures ++ [c]

namespace State

variable {net : Network} {settings : Settings} {total started : Nat} {s : State} {p : Payload}

theorem lineAfter_suits (h : settings.freshConnections = false) (verdict : Verdict)
    (reason : String) : (lineAfter verdict reason).Suits settings := by
  unfold lineAfter
  split
  · exact ⟨h, .inl rfl⟩
  · exact ⟨h, .inr rfl⟩

theorem replayFresh_served (h : s.line.Suits settings) :
    Served settings s p (s.replayFresh net settings p) := by
  refine replayFresh_cases ?_ ?_ ?_ ?_
  · intro clock _
    exact ⟨trivial, .inl rfl⟩
  · intro verdict clock _
    exact ⟨h, .inr ⟨_, .refused _, rfl⟩⟩
  · intro link clock _ _
    exact ⟨trivial, .inl rfl⟩
  · intro link clock verdict _ hv
    exact ⟨h, .inr ⟨_, .turned _ hv, rfl⟩⟩

theorem replayShared_served (link : Link) (h : settings.freshConnections = false) :
    Served settings s p (s.replayShared net settings total link started p) := by
  refine replayShared_cases ?_ ?_ ?_ ?_
  · intro _
    exact ⟨h, .inr ⟨_, .cancelled, rfl⟩⟩
  · intro _ _
    exact ⟨trivial, .inl rfl⟩
  · intro _ hv
    exact ⟨h, .inr ⟨_, .turned _ hv, rfl⟩⟩
  · intro verdict _ hv _
    exact ⟨lineAfter_suits h _ _, .inr ⟨_, .turned _ hv, rfl⟩⟩

theorem replayFirst_served (h : settings.freshConnections = false) :
    Served settings s p (s.replayFirst net settings total p) := by
  refine replayFirst_cases ?_ ?_ ?_
  · intro clock _
    exact ⟨trivial, .inl rfl⟩
  · intro verdict clock _
    exact ⟨lineAfter_suits h _ _, .inr ⟨_, .refused _, rfl⟩⟩
  · intro link clock _
    exact ⟨(replayShared_served link h).suits,
      (replayShared_served (s := { s with attempts := s.attempts + 1, clock }) link h).given⟩

theorem replay_served (net : Network) (total : Nat) (p : Payload) (h : s.line.Suits settings) :
    Served settings s p (replay net settings total s p) := by
  refine replay_cases ?_ ?_ ?_ ?_ ?_ ?_
  · intro hl
    exact ⟨h, .inl hl⟩
  · intro outcome reason hl
    exact ⟨h, .inr ⟨_, .skipped hl, rfl⟩⟩
  · intro _ _
    exact ⟨h, .inr ⟨_, .cancelled, rfl⟩⟩
  · intro _ _
    exact replayFresh_served h
  · intro hl _
    exact replayFirst_served (by rwa [hl] at h)
  · intro link hl _
    exact replayShared_served link (by rwa [hl] at h)

end State

/-- What is true of the capture of `p` in every run. -/
structure Accounts (settings : Settings) (p : Payload) (c : Capture) : Prop where
  name_eq : c.name = p.name
  sent_eq : c.sent = p.bytes
  error_eq_none_iff : c.error = none ↔ c.outcome = .ok ∨ c.outcome = .timeout
  received_of_closedEarly : c.outcome = .connectionClosedEarly → c.received = []
  received_of_unsent : ∀ text, c.error = some text → ReportsUnsent text → c.received = []
  ne_closedEarly_of_fresh : settings.freshConnections = true → c.outcome ≠ .connectionClosedEarly

theorem accounts_skipped {settings : Settings} {outcome : Outcome} (p : Payload) (reason : String)
    (ho : outcome = .cancelled ∨ outcome = .connectionClosedEarly)
    (hf : settings.freshConnections = true → outcome = .cancelled) :
    Accounts settings p (p.skipped outcome reason) where
  name_eq := rfl
  sent_eq := rfl
  error_eq_none_iff := by rcases ho with rfl | rfl <;> simp [Payload.skipped]
  received_of_closedEarly _ := rfl
  received_of_unsent _ _ _ := rfl
  ne_closedEarly_of_fresh h := by simp [Payload.skipped, hf h]

theorem accounts_captured {settings : Settings} (p : Payload) {verdict : Verdict}
    {received : Bytes} (elapsed : Duration) (h : verdict.isUnsent = true → received = []) :
    Accounts settings p (p.captured verdict received elapsed) where
  name_eq := rfl
  sent_eq := rfl
  error_eq_none_iff := verdict.error_eq_none_iff
  received_of_closedEarly ho := absurd ho verdict.outcome_ne_closedEarly
  received_of_unsent _ he hr := h ((Verdict.reportsUnsent_iff he).1 hr)
  ne_closedEarly_of_fresh _ := verdict.outcome_ne_closedEarly

theorem Given.accounts {settings : Settings} {line : Line} {p : Payload} {c : Capture}
    (h : Given line p c) (hs : line.Suits settings) : Accounts settings p c := by
  cases h with
  | skipped hl =>
    subst hl
    exact accounts_skipped p _ hs.2 fun hf => by rw [hs.1] at hf; cases hf
  | cancelled => exact accounts_skipped p _ (.inl rfl) fun _ => rfl
  | refused elapsed => exact accounts_captured p elapsed fun _ => rfl
  | turned elapsed hv => exact accounts_captured p elapsed (Link.exchange_received_of_unsent hv)

theorem start_suits (net : Network) (settings : Settings) (total : Nat) (cancelAt : Option Nat) :
    (State.start net settings total cancelAt).line.Suits settings := by
  cases h : settings.freshConnections <;> simp [State.start, h, Line.Suits]

theorem foldl_replay_accounts {net : Network} {settings : Settings} {total : Nat}
    (ps : List Payload) (s : State) (hs : s.line.Suits settings) :
    (ps.foldl (State.replay net settings total) s).line = .stuck ∨
      ∃ cs, List.Forall₂ (Accounts settings) ps cs ∧
        (ps.foldl (State.replay net settings total) s).captures = s.captures ++ cs := by
  induction ps generalizing s with
  | nil => exact .inr ⟨[], .nil, (List.append_nil _).symm⟩
  | cons p ps ih =>
    obtain ⟨hsuits, hstuck | ⟨c, hg, hc⟩⟩ :=
      State.replay_served net total p hs
    · left
      rw [List.foldl_cons, State.foldl_replay_of_stuck ps _ hstuck, hstuck]
    · rcases ih _ hsuits with hstuck | ⟨cs, hcs, he⟩
      · exact .inl hstuck
      · refine .inr ⟨c :: cs, .cons (hg.accounts hs) hcs, ?_⟩
        rw [List.foldl_cons, he, hc, List.append_assoc, List.singleton_append]

/-- A run that ends has exactly one capture for each payload, in the order of the payloads. -/
theorem run_captures_accounts (net : Network) (settings : Settings) (payloads : List Payload)
    (cancelAt : Option Nat) (account : Account)
    (h : run net settings payloads cancelAt = some account) :
    account.captures.length = payloads.length ∧
      ∀ (i : Nat) (hp : i < payloads.length) (hc : i < account.captures.length),
        Accounts settings payloads[i] account.captures[i] := by
  obtain ⟨hline, rfl⟩ := run_eq_some_iff.1 h
  obtain hstuck | ⟨cs, hcs, he⟩ :=
    foldl_replay_accounts payloads _ (start_suits net settings payloads.length cancelAt)
  · exact absurd hstuck hline
  · obtain ⟨hlen, hget⟩ := List.forall₂_iff_get.1 hcs
    have hcap : (State.after net settings payloads.length cancelAt payloads).captures = cs := he
    simp only [State.account, hcap]
    exact ⟨hlen.symm, hget⟩

/-- Two payloads of one name, the second of them empty, of which only the first can connect. -/
theorem run_captures_accounts_of_refusal :
    ∃ account,
      run ⟨"peer", [{ read := [.act .eof] }, { connect := [.error (.system 111)] }]⟩ {}
          [⟨"a", [65]⟩, ⟨"a", []⟩] = some account ∧
        account.captures.map (·.outcome) = [.ok, .ioError] ∧
        account.captures.length = 2 ∧
        ∀ (i : Nat) (hp : i < [(⟨"a", [65]⟩ : Payload), ⟨"a", []⟩].length)
          (hc : i < account.captures.length),
          Accounts {} [(⟨"a", [65]⟩ : Payload), ⟨"a", []⟩][i] account.captures[i] := by
  have h : (run ⟨"peer", [{ read := [.act .eof] }, { connect := [.error (.system 111)] }]⟩ {}
      [⟨"a", [65]⟩, ⟨"a", []⟩]).map (·.captures.map (·.outcome)) = some [.ok, .ioError] := by
    decide +kernel
  obtain ⟨account, hrun, ho⟩ := Option.map_eq_some_iff.1 h
  obtain ⟨hlen, hall⟩ := run_captures_accounts _ _ _ _ _ hrun
  exact ⟨account, hrun, ho, hlen, hall⟩

end WireReplay.Replay
