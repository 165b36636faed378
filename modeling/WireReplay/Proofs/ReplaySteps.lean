import WireReplay.Proofs.Phases

/-!
# What one payload does to a run

A run takes its payloads one at a time. Either the payload gets no turn, because the line is lost
or the run is cancelled, or it is given one, and then its verdict decides what becomes of the line.
The equations below name every way in which `State.replay` can go; nothing after them unfolds it.
-/

namespace WireReplay.Replay

/-- Whether the next payload gets a turn on this line, unless the run is cancelled by then. -/
def Line.givesTurns : Line → Bool
  | .fresh => true
  | .unopened => true
  | .shared _ => true
  | .lost _ _ => false
  | .stuck => false

namespace State

variable {net : Network} {settings : Settings} {total started : Nat} {s : State} {p : Payload}
  {link : Link} {verdict : Verdict}

theorem replay_of_stuck (hl : s.line = .stuck) : replay net settings total s p = s := by
  rw [replay, hl]

theorem replay_of_lost {outcome : Outcome} {reason : String} (hl : s.line = .lost outcome reason) :
    replay net settings total s p = s.skip p outcome reason := by
  rw [replay, hl]

theorem replayShared_of_cancelled (hc : s.clock.isCancelled = true) :
    s.replayShared net settings total link started p =
      { s with line := .shared link }.skip p .cancelled cancelledReason := by
  rw [replayShared, if_pos hc]

theorem replay_of_cancelled (hl : s.line.givesTurns = true) (hc : s.clock.isCancelled = true) :
    replay net settings total s p = s.skip p .cancelled cancelledReason := by
  obtain ⟨clock, line, attempts, links, captures, log⟩ := s
  cases line with
  | fresh => exact if_pos hc
  | unopened => exact if_pos hc
  | shared link => exact replayShared_of_cancelled hc
  | lost => cases hl
  | stuck => cases hl

theorem replay_of_fresh (hl : s.line = .fresh) (hc : s.clock.isCancelled = false) :
    replay net settings total s p = s.replayFresh net settings p := by
  simp only [replay, hl, hc, Bool.false_eq_true, if_false]

theorem replay_of_unopened (hl : s.line = .unopened) (hc : s.clock.isCancelled = false) :
    replay net settings total s p = s.replayFirst net settings total p := by
  simp only [replay, hl, hc, Bool.false_eq_true, if_false]

theorem replay_of_shared (hl : s.line = .shared link) :
    replay net settings total s p = s.replayShared net settings total link s.clock.now p := by
  rw [replay, hl]

/-! ## A connection for each payload -/

theorem replayFresh_of_never {clock : Clock}
    (hd : net.dial s.attempts settings.connectTimeout s.clock = (.never, clock)) :
    s.replayFresh net settings p = { s with attempts := s.attempts + 1 }.stall clock := by
  rw [replayFresh, hd]

theorem replayFresh_of_refused {clock : Clock}
    (hd : net.dial s.attempts settings.connectTimeout s.clock = (.refused verdict, clock)) :
    s.replayFresh net settings p = { s with attempts := s.attempts + 1 }.record clock
      (p.captured verdict [] (.ofMillis (clock.now - s.clock.now))) := by
  rw [replayFresh, hd]

def turnFresh (link : Link) (settings : Settings) (p : Payload) (clock : Clock) : Turn :=
  link.exchange p.bytes settings settings.halfClose clock

theorem replayFresh_of_no_verdict {clock : Clock}
    (hd : net.dial s.attempts settings.connectTimeout s.clock = (.opened link, clock))
    (hv : (turnFresh link settings p clock).verdict = none) :
    s.replayFresh net settings p =
      { s with
        attempts := s.attempts + 1
        links := s.links ++ [(turnFresh link settings p clock).link.close] }.stall
          (turnFresh link settings p clock).clock := by
  unfold turnFresh at hv ⊢
  simp only [replayFresh, hd, hv]

theorem replayFresh_of_verdict {clock : Clock}
    (hd : net.dial s.attempts settings.connectTimeout s.clock = (.opened link, clock))
    (hv : (turnFresh link settings p clock).verdict = some verdict) :
    s.replayFresh net settings p =
      { s with
        attempts := s.attempts + 1
        links := s.links ++ [(turnFresh link settings p clock).link.close] }.record
          (turnFresh link settings p clock).clock
          (p.captured verdict (turnFresh link settings p clock).received
            (.ofMillis ((turnFresh link settings p clock).clock.now - s.clock.now))) := by
  unfold turnFresh at hv ⊢
  simp only [replayFresh, hd, hv]

/-- What holds in each of the four ways in which a payload on its own connection can go holds of
the state after it. -/
@[elab_as_elim]
theorem replayFresh_cases {P : State → Prop}
    (never : ∀ clock, net.dial s.attempts settings.connectTimeout s.clock = (.never, clock) →
      P ({ s with attempts := s.attempts + 1 }.stall clock))
    (refused : ∀ verdict clock,
      net.dial s.attempts settings.connectTimeout s.clock = (.refused verdict, clock) →
      P ({ s with attempts := s.attempts + 1 }.record clock
        (p.captured verdict [] (.ofMillis (clock.now - s.clock.now)))))
    (unending : ∀ link clock,
      net.dial s.attempts settings.connectTimeout s.clock = (.opened link, clock) →
      (turnFresh link settings p clock).verdict = none →
      P ({ s with
        attempts := s.attempts + 1
        links := s.links ++ [(turnFresh link settings p clock).link.close] }.stall
          (turnFresh link settings p clock).clock))
    (turned : ∀ link clock verdict,
      net.dial s.attempts settings.connectTimeout s.clock = (.opened link, clock) →
      (turnFresh link settings p clock).verdict = some verdict →
      P ({ s with
        attempts := s.attempts + 1
        links := s.links ++ [(turnFresh link settings p clock).link.close] }.record
          (turnFresh link settings p clock).clock
          (p.captured verdict (turnFresh link settings p clock).received
            (.ofMillis ((turnFresh link settings p clock).clock.now - s.clock.now))))) :
    P (s.replayFresh net settings p) := by
  rcases hd : net.dial s.attempts settings.connectTimeout s.clock with ⟨dialed, clock⟩
  cases dialed with
  | never => rw [replayFresh_of_never hd]; exact never clock hd
  | refused verdict => rw [replayFresh_of_refused hd]; exact refused verdict clock hd
  | opened link =>
    cases hv : (turnFresh link settings p clock).verdict with
    | none => rw [replayFresh_of_no_verdict hd hv]; exact unending link clock hd hv
    | some verdict => rw [replayFresh_of_verdict hd hv]; exact turned link clock verdict hd hv

/-! ## One connection for all payloads -/

def turnShared (link : Link) (settings : Settings) (p : Payload) (clock : Clock) : Turn :=
  link.exchange p.bytes settings false clock

theorem replayShared_of_no_verdict (hc : s.clock.isCancelled = false)
    (hv : (turnShared link settings p s.clock).verdict = none) :
    s.replayShared net settings total link started p =
      s.stall (turnShared link settings p s.clock).clock := by
  unfold turnShared at hv ⊢
  simp only [replayShared, hc, hv, Bool.false_eq_true, if_false]

theorem replayShared_of_silent (hc : s.clock.isCancelled = false)
    (hv : (turnShared link settings p s.clock).verdict = some .silent) :
    s.replayShared net settings total link started p =
      { s.record (turnShared link settings p s.clock).clock
          (p.captured .silent (turnShared link settings p s.clock).received
            (.ofMillis ((turnShared link settings p s.clock).clock.now - started))) with
        line := .shared (turnShared link settings p s.clock).link } := by
  unfold turnShared at hv ⊢
  simp only [replayShared, hc, hv, Bool.false_eq_true, if_false, if_true]

/-- What becomes of the line after a payload that left it unfit for the next one. -/
def lineAfter (verdict : Verdict) (reason : String) : Line :=
  if verdict = .cancelled then .lost .cancelled cancelledReason
  else .lost .connectionClosedEarly reason

theorem lineAfter_ne_shared (verdict : Verdict) (reason : String) (link : Link) :
    lineAfter verdict reason ≠ .shared link := by
  unfold lineAfter
  split <;> exact Line.noConfusion

def skipWarning (net : Network) (p : Payload) (outcome : Outcome) (count : Nat) : List LogLine :=
  if outcome = .cancelled ∨ count = 0 then []
  else
    let ended := s!"Connection to {net.target} ended after '{p.name}' ({outcome.name})"
    [.warn s!"{ended}, skipping {count} payloads"]

theorem replayShared_of_ended (hc : s.clock.isCancelled = false)
    (hv : (turnShared link settings p s.clock).verdict = some verdict) (hne : verdict ≠ .silent) :
    s.replayShared net settings total link started p =
      { s with
        clock := (turnShared link settings p s.clock).clock
        captures := s.captures ++ [p.captured verdict (turnShared link settings p s.clock).received
          (.ofMillis ((turnShared link settings p s.clock).clock.now - started))]
        links := s.links ++ [(turnShared link settings p s.clock).link.close]
        line := lineAfter verdict s!"connection ended after '{p.name}'"
        log := s.log ++ skipWarning net p verdict.outcome (total - (s.captures.length + 1)) } := by
  unfold turnShared at hv ⊢
  simp only [replayShared, hc, hv, Bool.false_eq_true, if_false, if_neg hne]
  by_cases hcan : verdict = .cancelled
  · subst hcan
    simp [record, lineAfter, skipWarning, Verdict.outcome]
  · have ho : verdict.outcome ≠ .cancelled := by cases verdict <;> simp_all [Verdict.outcome]
    simp only [if_neg hcan, warnSkipped, record, lineAfter, skipWarning, ho, false_or,
      List.length_append, List.length_singleton]
    split <;> simp

@[elab_as_elim]
theorem replayShared_cases {P : State → Prop}
    (cancelled : s.clock.isCancelled = true →
      P ({ s with line := .shared link }.skip p .cancelled cancelledReason))
    (unending : s.clock.isCancelled = false →
      (turnShared link settings p s.clock).verdict = none →
      P (s.stall (turnShared link settings p s.clock).clock))
    (silent : s.clock.isCancelled = false →
      (turnShared link settings p s.clock).verdict = some .silent →
      P { s.record (turnShared link settings p s.clock).clock
          (p.captured .silent (turnShared link settings p s.clock).received
            (.ofMillis ((turnShared link settings p s.clock).clock.now - started))) with
        line := .shared (turnShared link settings p s.clock).link })
    (ended : ∀ verdict, s.clock.isCancelled = false →
      (turnShared link settings p s.clock).verdict = some verdict → verdict ≠ .silent →
      P { s with
        clock := (turnShared link settings p s.clock).clock
        captures := s.captures ++ [p.captured verdict (turnShared link settings p s.clock).received
          (.ofMillis ((turnShared link settings p s.clock).clock.now - started))]
        links := s.links ++ [(turnShared link settings p s.clock).link.close]
        line := lineAfter verdict s!"connection ended after '{p.name}'"
        log := s.log ++ skipWarning net p verdict.outcome (total - (s.captures.length + 1)) }) :
    P (s.replayShared net settings total link started p) := by
  cases hc : s.clock.isCancelled with
  | true => rw [replayShared_of_cancelled hc]; exact cancelled hc
  | false =>
    cases hv : (turnShared link settings p s.clock).verdict with
    | none => rw [replayShared_of_no_verdict hc hv]; exact unending hc hv
    | some verdict =>
      by_cases hs : verdict = .silent
      · subst hs
        rw [replayShared_of_silent hc hv]
        exact silent hc hv
      · rw [replayShared_of_ended hc hv hs]
        exact ended verdict hc hv hs

theorem replayFirst_of_never {clock : Clock}
    (hd : net.dial s.attempts settings.connectTimeout s.clock = (.never, clock)) :
    s.replayFirst net settings total p = { s with attempts := s.attempts + 1 }.stall clock := by
  rw [replayFirst, hd]

def neverOpened (verdict : Verdict) : String :=
  let reason := verdict.error.getD ""
  s!"connection never opened: {reason}"

theorem neverOpened_eq {text : String} (h : verdict.error = some text) :
    neverOpened verdict = "connection never opened: " ++ text := by
  unfold neverOpened
  simp only [h, Option.getD_some]
  exact rfl

theorem replayFirst_of_refused {clock : Clock}
    (hd : net.dial s.attempts settings.connectTimeout s.clock = (.refused verdict, clock)) :
    s.replayFirst net settings total p =
      { { s with attempts := s.attempts + 1 }.record clock
          (p.captured verdict [] (.ofMillis (clock.now - s.clock.now))) with
        line := lineAfter verdict (neverOpened verdict) } := by
  rw [replayFirst, hd]
  dsimp only [lineAfter, neverOpened]
  split <;> rfl

theorem replayFirst_of_opened {clock : Clock}
    (hd : net.dial s.attempts settings.connectTimeout s.clock = (.opened link, clock)) :
    s.replayFirst net settings total p =
      { s with attempts := s.attempts + 1, clock }.replayShared net settings total link
        s.clock.now p := by
  rw [replayFirst, hd]

/-- What holds if the shared connection does not open, and in the turn that follows if it does,
holds of the state after the first payload. -/
@[elab_as_elim]
theorem replayFirst_cases {P : State → Prop}
    (never : ∀ clock, net.dial s.attempts settings.connectTimeout s.clock = (.never, clock) →
      P ({ s with attempts := s.attempts + 1 }.stall clock))
    (refused : ∀ verdict clock,
      net.dial s.attempts settings.connectTimeout s.clock = (.refused verdict, clock) →
      P { { s with attempts := s.attempts + 1 }.record clock
          (p.captured verdict [] (.ofMillis (clock.now - s.clock.now))) with
        line := lineAfter verdict (neverOpened verdict) })
    (opened : ∀ link clock,
      net.dial s.attempts settings.connectTimeout s.clock = (.opened link, clock) →
      P ({ s with attempts := s.attempts + 1, clock }.replayShared net settings total link
        s.clock.now p)) :
    P (s.replayFirst net settings total p) := by
  rcases hd : net.dial s.attempts settings.connectTimeout s.clock with ⟨dialed, clock⟩
  cases dialed with
  | never => rw [replayFirst_of_never hd]; exact never clock hd
  | refused verdict => rw [replayFirst_of_refused hd]; exact refused verdict clock hd
  | opened link => rw [replayFirst_of_opened hd]; exact opened link clock hd

/-- What holds on each line a run can have, and once the run is cancelled, holds of the state after
the next payload. -/
@[elab_as_elim]
theorem replay_cases {P : State → Prop}
    (stuck : s.line = .stuck → P s)
    (lost : ∀ outcome reason, s.line = .lost outcome reason → P (s.skip p outcome reason))
    (cancelled : s.line.givesTurns = true → s.clock.isCancelled = true →
      P (s.skip p .cancelled cancelledReason))
    (fresh : s.line = .fresh → s.clock.isCancelled = false → P (s.replayFresh net settings p))
    (unopened : s.line = .unopened → s.clock.isCancelled = false →
      P (s.replayFirst net settings total p))
    (shared : ∀ link, s.line = .shared link → s.clock.isCancelled = false →
      P (s.replayShared net settings total link s.clock.now p)) :
    P (replay net settings total s p) := by
  have skips (hturn : s.line.givesTurns = true) (hc : s.clock.isCancelled = true) :
      P (replay net settings total s p) := by
    rw [replay_of_cancelled hturn hc]
    exact cancelled hturn hc
  cases hl : s.line with
  | stuck => rw [replay_of_stuck hl]; exact stuck hl
  | lost outcome reason => rw [replay_of_lost hl]; exact lost outcome reason hl
  | fresh =>
    cases hc : s.clock.isCancelled with
    | true => exact skips (by rw [hl]; rfl) hc
    | false => rw [replay_of_fresh hl hc]; exact fresh hl hc
  | unopened =>
    cases hc : s.clock.isCancelled with
    | true => exact skips (by rw [hl]; rfl) hc
    | false => rw [replay_of_unopened hl hc]; exact unopened hl hc
  | shared link =>
    cases hc : s.clock.isCancelled with
    | true => exact skips (by rw [hl]; rfl) hc
    | false => rw [replay_of_shared hl]; exact shared link hl hc

/-! ## Payloads that get no turn -/

theorem foldl_replay_of_lost {outcome : Outcome} {reason : String} (ps : List Payload) (s : State)
    (hl : s.line = .lost outcome reason) :
    ps.foldl (replay net settings total) s =
      { s with captures := s.captures ++ ps.map (·.skipped outcome reason) } := by
  induction ps generalizing s with
  | nil => simp
  | cons p ps ih =>
    rw [List.foldl_cons, replay_of_lost hl, ih _ (by exact hl)]
    simp [skip, record]

/-- Once the run is cancelled, every payload is skipped. -/
theorem foldl_replay_of_cancelled (ps : List Payload) (s : State)
    (hl : s.line.givesTurns = true) (hc : s.clock.isCancelled = true) :
    ps.foldl (replay net settings total) s =
      { s with captures := s.captures ++ ps.map (·.skipped .cancelled cancelledReason) } := by
  induction ps generalizing s with
  | nil => simp
  | cons p ps ih =>
    rw [List.foldl_cons, replay_of_cancelled hl hc, ih _ (by exact hl) (by exact hc)]
    simp [skip, record]

theorem foldl_replay_of_stuck (ps : List Payload) (s : State) (hl : s.line = .stuck) :
    ps.foldl (replay net settings total) s = s := by
  induction ps with
  | nil => rfl
  | cons p ps ih => rw [List.foldl_cons, replay_of_stuck hl, ih]

/-! ## Runs as folds -/

def account (s : State) : Account := ⟨s.captures, s.attempts, s.close.links, s.clock.now, s.log⟩

theorem account_of_not_shared (hl : ∀ link, s.line ≠ .shared link) :
    s.account = ⟨s.captures, s.attempts, s.links, s.clock.now, s.log⟩ := by
  unfold account close
  split
  · rename_i link h
    exact absurd h (hl link)
  · rfl

theorem account_of_shared (hl : s.line = .shared link) :
    s.account = ⟨s.captures, s.attempts, s.links ++ [link.close], s.clock.now, s.log⟩ := by
  simp only [account, close, hl]

theorem close_line_eq_stuck_iff (s : State) : s.close.line = .stuck ↔ s.line = .stuck := by
  obtain ⟨clock, line, attempts, links, captures, log⟩ := s
  cases line <;> simp [close]

end State

theorem run_of_stuck {net : Network} {settings : Settings} {payloads : List Payload}
    {cancelAt : Option Nat}
    (h : (State.after net settings payloads.length cancelAt payloads).line = .stuck) :
    run net settings payloads cancelAt = none := by
  unfold run
  exact if_pos ((State.close_line_eq_stuck_iff _).2 h)

theorem run_eq_some_iff {net : Network} {settings : Settings} {payloads : List Payload}
    {cancelAt : Option Nat} {account : Account} :
    run net settings payloads cancelAt = some account ↔
      (State.after net settings payloads.length cancelAt payloads).line ≠ .stuck ∧
        (State.after net settings payloads.length cancelAt payloads).account = account := by
  unfold run
  generalize State.after net settings payloads.length cancelAt payloads = s
  have hclock : s.close.clock = s.clock := by unfold State.close; split <;> rfl
  have hattempts : s.close.attempts = s.attempts := by unfold State.close; split <;> rfl
  have hcaptures : s.close.captures = s.captures := by unfold State.close; split <;> rfl
  have hlog : s.close.log = s.log := by unfold State.close; split <;> rfl
  simp only [s.close_line_eq_stuck_iff, State.account, hclock, hattempts, hcaptures, hlog]
  split <;> simp [*]

end WireReplay.Replay
