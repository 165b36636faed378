import WireReplay.Proofs.ReplaySteps

/-!
# Runs of one payload

Whether connections are shared makes no difference to a payload that is alone. The one place where
the two kinds of run go different ways is a connection that opens as the run is cancelled: a fresh
connection still gives the payload its turn, which is over at once, and a shared one gives it none.
-/

namespace WireReplay

def Capture.untimed (c : Capture) : Capture := { c with elapsed := .ofMillis 0 }

namespace Replay

def Settings.reused (settings : Settings) : Settings := { settings with freshConnections := false }

def Settings.fresh (settings : Settings) : Settings :=
  { settings with freshConnections := true, halfClose := false }

def Line.IsAtRest (line : Line) : Prop := line ≠ .stuck ∧ ∀ link, line ≠ .shared link

theorem Line.isAtRest_fresh : Line.fresh.IsAtRest := ⟨by simp, by simp⟩

theorem Line.isAtRest_unopened : Line.unopened.IsAtRest := ⟨by simp, by simp⟩

/-- Two accounts that tell the same but for what was logged and the time that each turn took. -/
structure Account.Alike (a b : Account) : Prop where
  captures_eq : a.captures.map Capture.untimed = b.captures.map Capture.untimed
  attempts_eq : a.attempts = b.attempts
  links_eq : a.links = b.links
  duration_eq : a.duration = b.duration

/-- Two states in which two runs are both over with the same results, or both never end. -/
inductive State.Alike : State → State → Prop
  | stuck {s s' : State} (_ : s.line = .stuck) (_ : s'.line = .stuck) : Alike s s'
  | ended {s s' : State} (_ : s.line ≠ .stuck) (_ : s'.line ≠ .stuck)
      (_ : s.account.Alike s'.account) : Alike s s'

theorem run_rel_of_alike {net : Network} {settings settings' : Settings} {payloads : List Payload}
    {cancelAt : Option Nat}
    (h : State.Alike (State.after net settings payloads.length cancelAt payloads)
      (State.after net settings' payloads.length cancelAt payloads)) :
    Option.Rel Account.Alike (run net settings payloads cancelAt)
      (run net settings' payloads cancelAt) := by
  cases h with
  | stuck hl hl' =>
    rw [run_of_stuck hl, run_of_stuck hl']
    exact .none
  | ended hl hl' ha =>
    rw [run_eq_some_iff.2 ⟨hl, rfl⟩, run_eq_some_iff.2 ⟨hl', rfl⟩]
    exact .some ha

namespace State

variable {net : Network} {settings : Settings} {total started : Nat} {s a b : State} {p : Payload}
  {link : Link} {turn : Turn} {verdict : Verdict}

/-- A run that was in state `s` when a connection opened would be over, if it were over in `after`,
with the results of this one turn on that connection. -/
structure EndsBy (s : State) (p : Payload) (turn : Turn) (verdict : Verdict) (after : State) :
    Prop where
  ends : after.line ≠ .stuck
  captures_eq : ∃ elapsed,
    after.captures = s.captures ++ [p.captured verdict turn.received elapsed]
  attempts_eq : after.attempts = s.attempts
  links_eq : after.close.links = s.links ++ [turn.link.close]
  clock_eq : after.clock = turn.clock

theorem EndsBy.alike (ha : s.EndsBy p turn verdict a) (hb : s.EndsBy p turn verdict b) :
    Alike a b := by
  obtain ⟨elapsed, hca⟩ := ha.captures_eq
  obtain ⟨elapsed', hcb⟩ := hb.captures_eq
  refine .ended ha.ends hb.ends ⟨?_, ?_, ha.links_eq.trans hb.links_eq.symm, ?_⟩
  · simp only [account, hca, hcb, List.map_append, List.map_singleton]
    rfl
  · exact ha.attempts_eq.trans hb.attempts_eq.symm
  · exact congrArg Clock.now (ha.clock_eq.trans hb.clock_eq.symm)

theorem close_links_of_isAtRest (hl : s.line.IsAtRest) : s.close.links = s.links :=
  congrArg Account.links (account_of_not_shared hl.2)

theorem lineAfter_isAtRest (verdict : Verdict) (reason : String) :
    (lineAfter verdict reason).IsAtRest := by
  refine ⟨?_, lineAfter_ne_shared verdict reason⟩
  unfold lineAfter
  split <;> simp

theorem replayFresh_endsBy {clock : Clock} (hl : s.line = .fresh)
    (hd : net.dial s.attempts settings.connectTimeout s.clock = (.opened link, clock))
    (hv : (turnFresh link settings p clock).verdict = some verdict) :
    EndsBy { s with attempts := s.attempts + 1 } p (turnFresh link settings p clock) verdict
      (s.replayFresh net settings p) := by
  rw [replayFresh_of_verdict hd hv]
  have hrest : s.line.IsAtRest := hl ▸ Line.isAtRest_fresh
  exact ⟨hrest.1, ⟨_, rfl⟩, rfl, close_links_of_isAtRest hrest, rfl⟩

theorem replayShared_endsBy (net : Network) (total started : Nat)
    (hv : (turnShared link settings p s.clock).verdict = some verdict) :
    s.EndsBy p (turnShared link settings p s.clock) verdict
      (s.replayShared net settings total link started p) := by
  refine replayShared_cases ?_ ?_ ?_ ?_
  · intro hc
    have hover : turnShared link settings p s.clock = ⟨some .cancelled, [], s.clock, link⟩ :=
      Link.exchange_of_cancelled p.bytes settings false hc
    rw [hover] at hv ⊢
    cases hv
    exact ⟨by simp [skip, record], ⟨_, rfl⟩, rfl, rfl, rfl⟩
  · intro _ hnone
    rw [hv] at hnone
    cases hnone
  · intro _ hsilent
    cases hv.symm.trans hsilent
    exact ⟨by simp, ⟨_, rfl⟩, rfl, rfl, rfl⟩
  · intro _ _ hended _
    cases hv.symm.trans hended
    have hrest := lineAfter_isAtRest verdict s!"connection ended after '{p.name}'"
    exact ⟨hrest.1, ⟨_, rfl⟩, rfl, close_links_of_isAtRest hrest, rfl⟩

theorem replayShared_of_unending (hv : (turnShared link settings p s.clock).verdict = none) :
    (s.replayShared net settings total link started p).line = .stuck := by
  cases hc : s.clock.isCancelled with
  | true =>
    rw [turnShared, Link.exchange_of_cancelled p.bytes settings false hc] at hv
    cases hv
  | false =>
    rw [replayShared_of_no_verdict hc hv]
    rfl

theorem alike_of_isAtRest (ha : a.line.IsAtRest) (hb : b.line.IsAtRest)
    (h : { b with line := a.line, log := a.log } = a) : Alike a b := by
  refine .ended ha.1 hb.1 ?_
  rw [account_of_not_shared ha.2, account_of_not_shared hb.2, ← h]
  exact ⟨rfl, rfl, rfl, rfl⟩

/-- The state `s` of a run with a connection for each payload, for a run that has one for all and
has not opened it. -/
def unopened (s : State) (log : List LogLine) : State := { s with line := .unopened, log }

theorem replayFirst_alike (log : List LogLine) (hl : s.line = .fresh) :
    Alike (s.replayFresh net settings.fresh p)
      ((s.unopened log).replayFirst net settings.reused total p) := by
  refine replayFirst_cases ?_ ?_ ?_
  · intro clock (hd : net.dial s.attempts settings.fresh.connectTimeout s.clock = (.never, clock))
    exact .stuck (by rw [replayFresh_of_never hd]; rfl) rfl
  · intro verdict clock
      (hd : net.dial s.attempts settings.fresh.connectTimeout s.clock = (.refused verdict, clock))
    rw [replayFresh_of_refused hd]
    exact alike_of_isAtRest (by exact hl ▸ Line.isAtRest_fresh) (lineAfter_isAtRest verdict _) rfl
  · intro link clock
      (hd : net.dial s.attempts settings.fresh.connectTimeout s.clock = (.opened link, clock))
    have hturn : turnFresh link settings.fresh p clock = turnShared link settings.reused p clock :=
      rfl
    cases hv : (turnShared link settings.reused p clock).verdict with
    | none =>
      refine .stuck ?_ (replayShared_of_unending hv)
      rw [replayFresh_of_no_verdict hd (hturn ▸ hv)]
      rfl
    | some verdict =>
      have hfresh := replayFresh_endsBy hl hd (hturn ▸ hv)
      have hshared := replayShared_endsBy
        (s := { s.unopened log with attempts := s.attempts + 1, clock }) net total s.clock.now hv
      rw [hturn] at hfresh
      exact hfresh.alike ⟨hshared.ends, hshared.captures_eq, hshared.attempts_eq,
        hshared.links_eq, hshared.clock_eq⟩

theorem replay_alike (net : Network) (settings : Settings) (total : Nat) (p : Payload)
    (log : List LogLine) (hl : s.line = .fresh) :
    Alike (replay net settings.fresh total s p)
      (replay net settings.reused total (s.unopened log) p) := by
  cases hc : s.clock.isCancelled with
  | true =>
    rw [replay_of_cancelled (by rw [hl]; rfl) hc, replay_of_cancelled (s := s.unopened log) rfl hc]
    exact alike_of_isAtRest (by exact hl ▸ Line.isAtRest_fresh) Line.isAtRest_unopened rfl
  | false =>
    rw [replay_of_fresh hl hc, replay_of_unopened (s := s.unopened log) rfl hc]
    exact replayFirst_alike log hl

end State

/-- A run of one payload leaves the same behind on a shared connection as on a fresh one. -/
theorem run_singleton_alike (net : Network) (settings : Settings) (p : Payload)
    (cancelAt : Option Nat) :
    Option.Rel Account.Alike (run net settings.fresh [p] cancelAt)
      (run net settings.reused [p] cancelAt) := by
  apply run_rel_of_alike
  exact State.replay_alike (s := State.start net settings.fresh 1 cancelAt) net settings 1 p
    (State.start net settings.reused 1 cancelAt).log rfl

end Replay

end WireReplay
