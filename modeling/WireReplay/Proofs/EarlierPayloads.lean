import WireReplay.Proofs.Arrivals

/-!
# Later payloads

What a run does with a payload depends on the payloads before it and on nothing behind it. Only the
log counts the payloads to come, and nothing that a run does is decided by its log. So a run over
fewer payloads takes the same course as far as it goes.
-/

namespace WireReplay.Replay

namespace State

variable {net : Network} {settings : Settings} {total count started : Nat} {s s' : State}
  {p : Payload} {link : Link}

/-- All of a state but what was logged. -/
def unlogged (s : State) : State := { s with log := [] }

theorem replayFresh_unlogged :
    (s.replayFresh net settings p).unlogged =
      (s.unlogged.replayFresh net settings p).unlogged := by
  refine replayFresh_cases ?_ ?_ ?_ ?_
  · intro clock hd
    rw [replayFresh_of_never (s := s.unlogged) hd]
    rfl
  · intro verdict clock hd
    rw [replayFresh_of_refused (s := s.unlogged) hd]
    rfl
  · intro link clock hd hv
    rw [replayFresh_of_no_verdict (s := s.unlogged) hd hv]
    rfl
  · intro link clock verdict hd hv
    rw [replayFresh_of_verdict (s := s.unlogged) hd hv]
    rfl

theorem replayShared_unlogged :
    (s.replayShared net settings total link started p).unlogged =
      (s.unlogged.replayShared net settings count link started p).unlogged := by
  refine replayShared_cases ?_ ?_ ?_ ?_
  · intro hc
    rw [replayShared_of_cancelled (s := s.unlogged) hc]
    rfl
  · intro hc hv
    rw [replayShared_of_no_verdict (s := s.unlogged) hc hv]
    rfl
  · intro hc hv
    rw [replayShared_of_silent (s := s.unlogged) hc hv]
    rfl
  · intro verdict hc hv hne
    rw [replayShared_of_ended (s := s.unlogged) hc hv hne]
    rfl

theorem replayFirst_unlogged :
    (s.replayFirst net settings total p).unlogged =
      (s.unlogged.replayFirst net settings count p).unlogged := by
  refine replayFirst_cases ?_ ?_ ?_
  · intro clock hd
    rw [replayFirst_of_never (s := s.unlogged) hd]
    rfl
  · intro verdict clock hd
    rw [replayFirst_of_refused (s := s.unlogged) hd]
    rfl
  · intro link clock hd
    rw [replayFirst_of_opened (s := s.unlogged) hd]
    exact replayShared_unlogged

theorem replay_unlogged (net : Network) (settings : Settings) (total count : Nat) (s : State)
    (p : Payload) :
    (replay net settings total s p).unlogged =
      (replay net settings count s.unlogged p).unlogged := by
  refine replay_cases ?_ ?_ ?_ ?_ ?_ ?_
  · intro hl
    rw [replay_of_stuck (s := s.unlogged) hl]
    rfl
  · intro outcome reason hl
    rw [replay_of_lost (s := s.unlogged) hl]
    rfl
  · intro hl hc
    rw [replay_of_cancelled (s := s.unlogged) hl hc]
    rfl
  · intro hl hc
    rw [replay_of_fresh (s := s.unlogged) hl hc]
    exact replayFresh_unlogged
  · intro hl hc
    rw [replay_of_unopened (s := s.unlogged) hl hc]
    exact replayFirst_unlogged
  · intro link hl _
    rw [replay_of_shared (s := s.unlogged) hl]
    exact replayShared_unlogged

theorem foldl_replay_unlogged (net : Network) (settings : Settings) (total count : Nat)
    (ps : List Payload) (h : s.unlogged = s'.unlogged) :
    (ps.foldl (replay net settings total) s).unlogged =
      (ps.foldl (replay net settings count) s').unlogged := by
  induction ps generalizing s s' with
  | nil => exact h
  | cons p ps ih =>
    apply ih
    calc (replay net settings total s p).unlogged
      _ = (replay net settings count s.unlogged p).unlogged := replay_unlogged ..
      _ = (replay net settings count s'.unlogged p).unlogged := by rw [h]
      _ = (replay net settings count s' p).unlogged := (replay_unlogged ..).symm

theorem after_unlogged (net : Network) (settings : Settings) (total count : Nat)
    (cancelAt : Option Nat) (ps : List Payload) :
    (State.after net settings total cancelAt ps).unlogged =
      (State.after net settings count cancelAt ps).unlogged :=
  foldl_replay_unlogged net settings total count ps rfl

end State

/-- If a run ends, then so does the run over the first of its payloads, and their captures are the
first captures of the longer run. -/
theorem run_of_run_append (net : Network) (settings : Settings) (ps qs : List Payload)
    (cancelAt : Option Nat) (account : Account)
    (h : run net settings (ps ++ qs) cancelAt = some account) :
    ∃ earlier, run net settings ps cancelAt = some earlier ∧
      earlier.captures.length = ps.length ∧
      earlier.captures = account.captures.take ps.length := by
  obtain ⟨hline, rfl⟩ := run_eq_some_iff.1 h
  have hsame := State.after_unlogged net settings ps.length (ps ++ qs).length cancelAt ps
  have hlines := congrArg State.line hsame
  have hcaptures := congrArg State.captures hsame
  dsimp only [State.unlogged] at hlines hcaptures
  have hsplit : State.after net settings (ps ++ qs).length cancelAt (ps ++ qs) =
      qs.foldl (State.replay net settings (ps ++ qs).length)
        (State.after net settings (ps ++ qs).length cancelAt ps) := List.foldl_append
  obtain ⟨cs, hcs, -⟩ := State.foldl_replay_captures net settings (ps ++ qs).length qs
    (State.after net settings (ps ++ qs).length cancelAt ps)
  have hends : (State.after net settings ps.length cancelAt ps).line ≠ .stuck := by
    intro hstuck
    rw [hlines] at hstuck
    rw [hsplit, State.foldl_replay_of_stuck qs _ hstuck] at hline
    exact hline hstuck
  have hlength := State.length_captures_after hends
  refine ⟨_, run_eq_some_iff.2 ⟨hends, rfl⟩, hlength, ?_⟩
  calc (State.after net settings ps.length cancelAt ps).captures
    _ = ((State.after net settings ps.length cancelAt ps).captures ++ cs).take ps.length :=
      (List.take_left' hlength).symm
    _ = (State.after net settings (ps ++ qs).length cancelAt (ps ++ qs)).captures.take
        ps.length := by
      rw [hsplit, hcs, hcaptures]

/-- The peer cancels the run and resets the shared connection behind its first byte, so that the
payloads behind the first one get no turn. -/
theorem run_of_run_append_of_reset :
    ∃ account earlier,
      run ⟨"peer", [{ read := [.act (.data [1]), .cancel, .error (.bare .connectionReset)] }]⟩
          { freshConnections := false } ([⟨"a", [65]⟩] ++ [⟨"b", [66]⟩, ⟨"c", [67]⟩]) =
          some account ∧
        account.captures.map (·.outcome) =
          [.ioError, .connectionClosedEarly, .connectionClosedEarly] ∧
        run ⟨"peer", [{ read := [.act (.data [1]), .cancel, .error (.bare .connectionReset)] }]⟩
          { freshConnections := false } [⟨"a", [65]⟩] = some earlier ∧
        earlier.captures = account.captures.take 1 := by
  have houtcomes : (run
      ⟨"peer", [{ read := [.act (.data [1]), .cancel, .error (.bare .connectionReset)] }]⟩
      { freshConnections := false } ([⟨"a", [65]⟩] ++ [⟨"b", [66]⟩, ⟨"c", [67]⟩])).map
        (·.captures.map (·.outcome)) =
      some [.ioError, .connectionClosedEarly, .connectionClosedEarly] := by
    decide +kernel
  obtain ⟨account, hrun, ho⟩ := Option.map_eq_some_iff.1 houtcomes
  obtain ⟨earlier, hearlier, _, htake⟩ := run_of_run_append _ _ _ _ _ _ hrun
  exact ⟨account, earlier, hrun, ho, hearlier, htake⟩

end WireReplay.Replay
