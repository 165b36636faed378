import WireReplay.Proofs.Arrivals
import WireReplay.Proofs.OneCaptureEach

/-!
# The payloads behind a cancellation

A run that is cancelled by the time a payload is through gives no turn to the payloads behind it.
As what they are reported depends on the line: where it still gives turns, the cancellation is seen
first, and they are cancelled; on a line that was lost in the same moment they share its fate, and
that is a cancellation only if the payload that lost it was cancelled itself.
-/

namespace WireReplay.Replay

def Line.Tells (settings : Settings) (line : Line) : Prop :=
  line.Suits settings ∧ ∀ reason, line = .lost .cancelled reason → reason = cancelledReason

/-- What the line a payload leaves behind tells of its capture. -/
def Line.Follows (settings : Settings) (c : Capture) : Line → Prop
  | .fresh => settings.freshConnections = true
  | .unopened => settings.freshConnections = false ∧ c.outcome = .cancelled
  | .shared _ =>
      settings.freshConnections = false ∧ (c.outcome = .timeout ∨ c.outcome = .cancelled)
  | .lost .cancelled reason =>
      settings.freshConnections = false ∧ reason = cancelledReason ∧ c.outcome = .cancelled
  | .lost .connectionClosedEarly _ => settings.freshConnections = false ∧
      (c.outcome = .ok ∨ c.outcome = .ioError ∨ c.outcome = .connectionClosedEarly)
  | .lost _ _ => False
  | .stuck => True

theorem Line.Follows.tells {settings : Settings} {c : Capture} {line : Line}
    (h : line.Follows settings c) : line.Tells settings := by
  cases line with
  | fresh => exact ⟨h, fun _ hl => by cases hl⟩
  | unopened => exact ⟨h.1, fun _ hl => by cases hl⟩
  | shared link => exact ⟨h.1, fun _ hl => by cases hl⟩
  | stuck => exact ⟨trivial, fun _ hl => by cases hl⟩
  | lost outcome reason =>
    cases outcome with
    | cancelled => exact ⟨⟨h.1, .inl rfl⟩, fun _ hl => by cases hl; exact h.2.1⟩
    | connectionClosedEarly => exact ⟨⟨h.1, .inr rfl⟩, fun _ hl => by cases hl⟩
    | _ => exact h.elim

namespace State

variable {net : Network} {settings : Settings} {total started : Nat} {s : State} {p : Payload}

/-- The run is stuck, or `after` has one more capture, and the line of it. -/
def Leads (settings : Settings) (s after : State) : Prop :=
  after.line = .stuck ∨
    ∃ c, after.captures = s.captures ++ [c] ∧ after.line.Follows settings c

theorem lineAfter_follows {verdict : Verdict} {c : Capture} (hf : settings.freshConnections = false)
    (ho : c.outcome = verdict.outcome)
    (h : verdict ≠ .cancelled → verdict.outcome = .ok ∨ verdict.outcome = .ioError)
    (reason : String) : (lineAfter verdict reason).Follows settings c := by
  by_cases hc : verdict = .cancelled
  · subst hc
    exact ⟨hf, rfl, ho⟩
  · rw [lineAfter, if_neg hc]
    refine ⟨hf, ?_⟩
    rw [ho]
    exact (h hc).imp_right .inl

theorem replayFresh_leads (hl : s.line = .fresh) (hf : settings.freshConnections = true) :
    Leads settings s (s.replayFresh net settings p) := by
  have hfollows (c : Capture) : s.line.Follows settings c := by
    rw [hl]
    exact hf
  refine replayFresh_cases ?_ ?_ ?_ ?_
  · exact fun _ _ => .inl rfl
  · exact fun _ _ _ => .inr ⟨_, rfl, hfollows _⟩
  · exact fun _ _ _ _ => .inl rfl
  · exact fun _ _ _ _ _ => .inr ⟨_, rfl, hfollows _⟩

theorem replayShared_leads (link : Link) (hf : settings.freshConnections = false) :
    Leads settings s (s.replayShared net settings total link started p) := by
  refine replayShared_cases ?_ ?_ ?_ ?_
  · exact fun _ => .inr ⟨_, rfl, hf, .inr rfl⟩
  · exact fun _ _ => .inl rfl
  · exact fun _ _ => .inr ⟨_, rfl, hf, .inl rfl⟩
  · exact fun _ _ _ hs => .inr ⟨_, rfl, lineAfter_follows hf rfl (Verdict.outcome_of_ne hs) _⟩

theorem replayFirst_leads (hf : settings.freshConnections = false) :
    Leads settings s (s.replayFirst net settings total p) := by
  refine replayFirst_cases ?_ ?_ ?_
  · exact fun _ _ => .inl rfl
  · intro verdict clock hd
    refine .inr ⟨_, rfl, lineAfter_follows hf rfl (fun hc => ?_) _⟩
    obtain ⟨_, _, ho⟩ := Network.error_of_refused hd hc
    exact .inr ho
  · intro link clock _
    exact replayShared_leads (s := { s with attempts := s.attempts + 1, clock }) link hf

theorem replay_leads (net : Network) (total : Nat) (p : Payload) (h : s.line.Tells settings) :
    Leads settings s (replay net settings total s p) := by
  obtain ⟨hsuits, hreason⟩ := h
  refine replay_cases ?_ ?_ ?_ ?_ ?_ ?_
  · exact fun hl => .inl hl
  · intro outcome reason hl
    refine .inr ⟨_, rfl, ?_⟩
    rw [hl] at hsuits
    rcases hsuits with ⟨hf, rfl | rfl⟩
    · change s.line.Follows settings _
      rw [hl]
      exact ⟨hf, hreason reason hl, rfl⟩
    · change s.line.Follows settings _
      rw [hl]
      exact ⟨hf, .inr (.inr rfl)⟩
  · intro hturns _
    refine .inr ⟨_, rfl, ?_⟩
    change s.line.Follows settings _
    cases hl : s.line with
    | fresh => rwa [hl] at hsuits
    | unopened => rw [hl] at hsuits; exact ⟨hsuits, rfl⟩
    | shared link => rw [hl] at hsuits; exact ⟨hsuits, .inr rfl⟩
    | lost outcome reason => rw [hl] at hturns; cases hturns
    | stuck => trivial
  · exact fun hl _ => replayFresh_leads hl (by rwa [hl] at hsuits)
  · exact fun hl _ => replayFirst_leads (by rwa [hl] at hsuits)
  · exact fun link hl _ => replayShared_leads link (by rwa [hl] at hsuits)

theorem foldl_replay_tells (ps : List Payload) (s : State) (h : s.line.Tells settings) :
    (ps.foldl (replay net settings total) s).line.Tells settings := by
  induction ps generalizing s with
  | nil => exact h
  | cons p ps ih =>
    rw [List.foldl_cons]
    rcases replay_leads net total p h with hstuck | ⟨c, _, hfollows⟩
    · rw [foldl_replay_of_stuck ps _ hstuck, hstuck]
      exact ⟨trivial, fun _ hl => by cases hl⟩
    · exact ih _ hfollows.tells

end State

theorem start_tells (net : Network) (settings : Settings) (total : Nat) (cancelAt : Option Nat) :
    (State.start net settings total cancelAt).line.Tells settings := by
  refine ⟨start_suits net settings total cancelAt, fun _ hl => ?_⟩
  cases hf : settings.freshConnections <;> simp [State.start, hf] at hl

/-- What is reported for the payloads behind the one with capture `c`, by whose end the run was
cancelled. -/
structure Remainder (settings : Settings) (c : Capture) (rest : List Capture) : Prop where
  cancelled : settings.freshConnections = true ∨ c.outcome = .timeout ∨ c.outcome = .cancelled →
    ∀ d ∈ rest, d.outcome = .cancelled ∧ d.received = [] ∧ d.error = some "run cancelled"
  closedEarly : settings.freshConnections = false →
    c.outcome = .ok ∨ c.outcome = .ioError ∨ c.outcome = .connectionClosedEarly →
      ∀ d ∈ rest, d.outcome = .connectionClosedEarly ∧ d.received = []

theorem mem_skipped {outcome : Outcome} {reason : String} {ps : List Payload} {d : Capture}
    (hd : d ∈ ps.map (·.skipped outcome reason)) :
    d.outcome = outcome ∧ d.received = [] ∧ d.error = some reason := by
  obtain ⟨q, _, rfl⟩ := List.mem_map.1 hd
  exact ⟨rfl, rfl, rfl⟩

section Remainder

variable {net : Network} {settings : Settings} {total : Nat} {s : State} {c : Capture}

theorem remainder_cancelled (ps : List Payload)
    (h : settings.freshConnections = true ∨ c.outcome = .timeout ∨ c.outcome = .cancelled) :
    Remainder settings c (ps.map (·.skipped .cancelled cancelledReason)) where
  cancelled _ _ hd := mem_skipped hd
  closedEarly hf ho := by
    rw [hf] at h
    rcases h with h | h | h
    · cases h
    · simp [h] at ho
    · simp [h] at ho

theorem remainder_closedEarly (ps : List Payload) (reason : String)
    (hf : settings.freshConnections = false)
    (ho : c.outcome = .ok ∨ c.outcome = .ioError ∨ c.outcome = .connectionClosedEarly) :
    Remainder settings c (ps.map (·.skipped .connectionClosedEarly reason)) where
  cancelled h := by
    rw [hf] at h
    rcases h with h | h | h
    · cases h
    · simp [h] at ho
    · simp [h] at ho
  closedEarly _ _ _ hd := ⟨(mem_skipped hd).1, (mem_skipped hd).2.1⟩

theorem remainder_of_follows (h : s.line.Follows settings c) (hc : s.clock.isCancelled = true)
    (ps : List Payload) (hend : (ps.foldl (State.replay net settings total) s).line ≠ .stuck) :
    ∃ rest, (ps.foldl (State.replay net settings total) s).captures = s.captures ++ rest ∧
      Remainder settings c rest := by
  have hturns (hl : s.line.givesTurns = true)
      (ho : settings.freshConnections = true ∨ c.outcome = .timeout ∨ c.outcome = .cancelled) :
      ∃ rest, (ps.foldl (State.replay net settings total) s).captures = s.captures ++ rest ∧
        Remainder settings c rest := by
    rw [State.foldl_replay_of_cancelled ps s hl hc]
    exact ⟨_, rfl, remainder_cancelled ps ho⟩
  cases hl : s.line with
  | stuck => rw [State.foldl_replay_of_stuck ps s hl] at hend; exact absurd hl hend
  | fresh => rw [hl] at h; exact hturns (by rw [hl]; rfl) (.inl h)
  | unopened => rw [hl] at h; exact hturns (by rw [hl]; rfl) (.inr (.inr h.2))
  | shared link => rw [hl] at h; exact hturns (by rw [hl]; rfl) (.inr h.2)
  | lost outcome reason =>
    rw [hl] at h
    rw [State.foldl_replay_of_lost ps s hl]
    cases outcome with
    | cancelled =>
      obtain ⟨_, rfl, ho⟩ := h
      exact ⟨_, rfl, remainder_cancelled ps (.inr (.inr ho))⟩
    | connectionClosedEarly => exact ⟨_, rfl, remainder_closedEarly ps reason h.1 h.2⟩
    | _ => exact h.elim

end Remainder

/-- In a run that is cancelled by the time a payload is through, the payloads behind it are
cancelled too, unless they share one connection and the payload was the last on it. -/
theorem run_remainder (net : Network) (settings : Settings) (payloads : List Payload)
    (cancelAt : Option Nat) (account : Account)
    (h : run net settings payloads cancelAt = some account) (i : Nat) (hi : i < payloads.length)
    (hc : (State.after net settings payloads.length cancelAt
      (payloads.take (i + 1))).clock.isCancelled = true) :
    ∃ c, account.captures[i]? = some c ∧
      Remainder settings c (account.captures.drop (i + 1)) := by
  obtain ⟨hend, rfl⟩ := run_eq_some_iff.1 h
  have hstart := start_tells net settings payloads.length cancelAt
  obtain ⟨before, hbefore⟩ : ∃ s, s = State.after net settings payloads.length cancelAt
    (payloads.take i) := ⟨_, rfl⟩
  have hthrough : State.after net settings payloads.length cancelAt (payloads.take (i + 1)) =
      State.replay net settings payloads.length before payloads[i] := by
    rw [hbefore, ← List.take_append_getElem hi, State.after, List.foldl_append]
    rfl
  have hwhole : State.after net settings payloads.length cancelAt payloads =
      (payloads.drop (i + 1)).foldl (State.replay net settings payloads.length)
        (State.replay net settings payloads.length before payloads[i]) := by
    rw [← hthrough, State.after, State.after, ← List.foldl_append, List.take_append_drop]
  rw [hthrough] at hc
  rw [hwhole] at hend ⊢
  have htells : before.line.Tells settings := by
    rw [hbefore]
    exact State.foldl_replay_tells _ _ hstart
  rcases State.replay_leads net payloads.length payloads[i] htells with
    hstuck | ⟨c, hcap, hfollows⟩
  · rw [State.foldl_replay_of_stuck _ _ hstuck] at hend
    exact absurd hstuck hend
  · have hopen : before.line ≠ .stuck := by
      intro hstuck
      rw [State.replay_of_stuck hstuck, State.foldl_replay_of_stuck _ _ hstuck] at hend
      exact hend hstuck
    have hlen : before.captures.length = i := by
      rw [hbefore] at hopen ⊢
      rw [State.length_captures_after hopen, List.length_take_of_le (Nat.le_of_lt hi)]
    obtain ⟨rest, hrest, hremainder⟩ := remainder_of_follows hfollows hc _ hend
    have hcaptures : ((payloads.drop (i + 1)).foldl (State.replay net settings payloads.length)
        (State.replay net settings payloads.length before payloads[i])).account.captures =
          before.captures ++ [c] ++ rest := by
      change State.captures _ = _
      rw [hrest, hcap]
    refine ⟨c, ?_, ?_⟩
    · rw [hcaptures, ← hlen]
      simp
    · rw [hcaptures, List.drop_left' (by rw [List.length_append, hlen]; rfl)]
      exact hremainder

/-- A peer that closes in the moment in which the run is cancelled, on a connection of its own. -/
theorem run_remainder_of_last_answer :
    ∃ account,
      run ⟨"peer", [{ read := [.cancel, .act .eof] }]⟩ {} [⟨"a", [65]⟩, ⟨"b", [66]⟩] =
          some account ∧
        (State.after ⟨"peer", [{ read := [.cancel, .act .eof] }]⟩ {} 2 none
          ([⟨"a", [65]⟩, ⟨"b", [66]⟩].take 1)).clock.isCancelled = true ∧
        account.captures.map (·.outcome) = [.ok, .cancelled] ∧
        ∃ c, account.captures[0]? = some c ∧
          Remainder {} c (account.captures.drop 1) := by
  have h : (run ⟨"peer", [{ read := [.cancel, .act .eof] }]⟩ {} [⟨"a", [65]⟩, ⟨"b", [66]⟩]).map
      (·.captures.map (·.outcome)) = some [.ok, .cancelled] := by
    decide +kernel
  have hc : (State.after ⟨"peer", [{ read := [.cancel, .act .eof] }]⟩ {} 2 none
      ([⟨"a", [65]⟩, ⟨"b", [66]⟩].take 1)).clock.isCancelled = true := by
    decide +kernel
  obtain ⟨account, hrun, ho⟩ := Option.map_eq_some_iff.1 h
  exact ⟨account, hrun, hc, ho, run_remainder _ _ _ _ _ hrun 0 (by decide) hc⟩

/-- A connection that is refused in the moment in which the run is cancelled: the second payload
shares the refusal and is not cancelled. -/
theorem remainder_not_cancelled_of_refusal :
    ∃ account,
      run ⟨"scripted", [{ connect := [.cancel, .error (.bare .connectionRefused)] }]⟩
          { freshConnections := false } [⟨"a", [97, 13, 10]⟩, ⟨"b", [98, 13, 10]⟩] = some account ∧
        (State.after ⟨"scripted", [{ connect := [.cancel, .error (.bare .connectionRefused)] }]⟩
          { freshConnections := false } 2 none
          ([⟨"a", [97, 13, 10]⟩, ⟨"b", [98, 13, 10]⟩].take 1)).clock.isCancelled = true ∧
        ¬ ∀ d ∈ account.captures.drop 1, d.outcome = .cancelled := by
  have h : (run ⟨"scripted", [{ connect := [.cancel, .error (.bare .connectionRefused)] }]⟩
      { freshConnections := false } [⟨"a", [97, 13, 10]⟩, ⟨"b", [98, 13, 10]⟩]).map
        (fun account => (account.captures.drop 1).map (·.outcome)) =
      some [.connectionClosedEarly] := by
    decide +kernel
  obtain ⟨account, hrun, ho⟩ := Option.map_eq_some_iff.1 h
  refine ⟨account, hrun, by decide +kernel, fun hall => ?_⟩
  have hmem : Outcome.connectionClosedEarly ∈ (account.captures.drop 1).map (·.outcome) := by
    rw [ho]
    exact List.mem_singleton.2 rfl
  obtain ⟨d, hd, he⟩ := List.mem_map.1 hmem
  rw [hall d hd] at he
  cases he

end WireReplay.Replay
