import Mathlib.Data.Nat.Basic
import Mathlib.Order.Basic
import Mathlib.Tactic.SplitIfs
import WireReplay.Proofs.ReplaySteps

/-!
# Time

Nothing that is done on the wire turns the clock back: neither a wait nor a call, and so neither a
turn nor a whole run.
-/

namespace WireReplay

theorem Clock.now_le_wait (clock : Clock) (limit : Limit) (ready : Option Nat) :
    clock.now ≤ (clock.wait limit ready).2.now := by
  unfold wait
  split_ifs
  · exact le_rfl
  · exact le_rfl
  · exact Nat.le_max_left _ _
  · cases ready <;> cases limit.deadline <;> dsimp only [advance]
    · exact le_rfl
    · exact Nat.le_max_left _ _
    · exact Nat.le_max_left _ _
    · split_ifs <;> exact Nat.le_max_left _ _

namespace Call

variable {σ α β : Type} {call : Call σ α β} {limit : Limit} {clock : Clock} {state : σ}

theorem now_le_sleep {ready : Option Nat} {left : List (Step α)} {onward : Clock → Settled σ α β}
    (h : ∀ later : Clock, later.now ≤ (onward later).clock.now) :
    clock.now ≤ (sleep limit ready clock state left onward).clock.now := by
  have hw := clock.now_le_wait limit ready
  unfold sleep
  split <;> rename_i later heq <;> rw [heq] at hw
  · exact Nat.le_trans hw (h later)
  all_goals exact hw

theorem now_le_run (call : Call σ α β) (limit : Limit) (clock : Clock) (state : σ)
    (steps : List (Step α)) : clock.now ≤ (call.run limit clock state steps).clock.now := by
  fun_induction Call.run call limit clock state steps with
  | case1 => exact le_rfl
  | case3 clock state ms rest ih => exact now_le_sleep ih
  | case4 clock state moment rest ih => exact now_le_sleep ih
  | case5 clock state rest ih => exact ih
  | case7 clock state fault rest hr ih => exact ih
  | case9 clock state answer rest next hr ih => exact ih
  | case2 | case6 | case10 => exact now_le_sleep fun _ => le_rfl
  | case8 | case11 | case12 => exact le_rfl

end Call

namespace Link

variable {link : Link} {limit : Limit} {clock : Clock}

theorem now_le_write (link : Link) (data : Bytes) (limit : Limit) (clock : Clock) :
    clock.now ≤ (link.write data limit clock).clock.now := by
  cases data with
  | nil => exact le_rfl
  | cons => exact Call.now_le_run _ _ _ _ _

theorem now_le_flush : clock.now ≤ (link.flush limit clock).clock.now := Call.now_le_run _ _ _ _ _

theorem now_le_shutDown : clock.now ≤ (link.shutDown limit clock).clock.now :=
  Call.now_le_run _ _ _ _ _

theorem now_le_read {room : Nat} : clock.now ≤ (link.read room limit clock).clock.now :=
  Call.now_le_run _ _ _ _ _

theorem now_le_andThen {m : Moved Unit} {next : Link → Clock → Moved Unit}
    (h : ∀ link clock, clock.now ≤ (next link clock).clock.now) :
    m.clock.now ≤ (m.andThen next).clock.now := by
  by_cases hd : m.ending = .done ()
  · rw [Moved.andThen_of_done next hd]
    exact h m.link m.clock
  · rw [Moved.andThen_of_not_done next hd]

theorem now_le_send (link : Link) (data : Bytes) (halfClose : Bool) (limit : Limit)
    (clock : Clock) : clock.now ≤ (link.send data halfClose limit clock).clock.now := by
  rw [send_eq_andThen]
  refine (link.now_le_write data limit clock).trans (now_le_andThen fun link clock => ?_)
  refine now_le_flush.trans (now_le_andThen fun link clock => ?_)
  cases halfClose
  · exact le_rfl
  · exact now_le_shutDown

theorem now_le_capture (link : Link) (timeout : Duration) (clock : Clock) (received : Bytes) :
    clock.now ≤ (link.capture timeout clock received).clock.now := by
  apply capture_induction timeout (P := fun _ clock _ turn => clock.now ≤ turn.clock.now)
  · intro link clock received _
    exact le_rfl
  · intro link clock received _ _
    exact now_le_read
  · intro link clock received bytes turn _ _ _ ih
    exact now_le_read.trans ih

theorem now_le_exchange (link : Link) (data : Bytes) (settings : Replay.Settings)
    (halfClose : Bool) (clock : Clock) :
    clock.now ≤ (link.exchange data settings halfClose clock).clock.now := by
  have hsend : clock.now ≤ (link.sendAll data settings halfClose clock).clock.now :=
    link.now_le_send _ _ _ _
  cases hc : clock.isCancelled with
  | true => rw [exchange_of_cancelled data settings halfClose hc]
  | false =>
    by_cases hs : (link.sendAll data settings halfClose clock).ending = .done ()
    · rw [exchange_of_sent hc hs]
      exact hsend.trans (now_le_capture _ _ _ _)
    · rw [exchange_of_unsent hc hs]
      exact hsend

end Link

theorem Network.now_le_dial {net : Network} {attempt : Nat} {timeout : Duration}
    {clock later : Clock} {dialed : Dialed}
    (hd : net.dial attempt timeout clock = (dialed, later)) : clock.now ≤ later.now := by
  rw [← clock_of_dial hd]
  exact Call.now_le_run _ _ _ _ _

namespace Replay.State

variable {net : Network} {settings : Settings} {total started : Nat} {s : State} {p : Payload}

theorem now_le_replayFresh_of_dial {dialed : Dialed} {clock : Clock}
    (hd : net.dial s.attempts settings.connectTimeout s.clock = (dialed, clock)) :
    clock.now ≤ (s.replayFresh net settings p).clock.now := by
  cases dialed with
  | never => rw [replayFresh_of_never hd]; exact le_rfl
  | refused verdict => rw [replayFresh_of_refused hd]; exact le_rfl
  | opened link =>
    have hturn := link.now_le_exchange p.bytes settings settings.halfClose clock
    cases hv : (turnFresh link settings p clock).verdict with
    | none => rw [replayFresh_of_no_verdict hd hv]; exact hturn
    | some verdict => rw [replayFresh_of_verdict hd hv]; exact hturn

theorem now_le_replayShared (link : Link) :
    s.clock.now ≤ (s.replayShared net settings total link started p).clock.now := by
  have hturn := link.now_le_exchange p.bytes settings false s.clock
  refine replayShared_cases ?_ ?_ ?_ ?_
  · intro _
    exact le_rfl
  · intro _ _
    exact hturn
  · intro _ _
    exact hturn
  · intro verdict _ _ _
    exact hturn

theorem now_le_replayFirst_of_dial {dialed : Dialed} {clock : Clock}
    (hd : net.dial s.attempts settings.connectTimeout s.clock = (dialed, clock)) :
    clock.now ≤ (s.replayFirst net settings total p).clock.now := by
  cases dialed with
  | never => rw [replayFirst_of_never hd]; exact le_rfl
  | refused verdict => rw [replayFirst_of_refused hd]; exact le_rfl
  | opened link =>
    rw [replayFirst_of_opened hd]
    exact now_le_replayShared (s := { s with attempts := s.attempts + 1, clock }) link

theorem now_le_replay (net : Network) (settings : Settings) (total : Nat) (s : State)
    (p : Payload) : s.clock.now ≤ (replay net settings total s p).clock.now := by
  refine replay_cases ?_ ?_ ?_ ?_ ?_ ?_
  · intro _
    exact le_rfl
  · intro outcome reason _
    exact le_rfl
  · intro _ _
    exact le_rfl
  · intro _ _
    exact (Network.now_le_dial rfl).trans (now_le_replayFresh_of_dial rfl)
  · intro _ _
    exact (Network.now_le_dial rfl).trans (now_le_replayFirst_of_dial rfl)
  · intro link _ _
    exact now_le_replayShared link

theorem now_le_foldl_replay (net : Network) (settings : Settings) (total : Nat)
    (ps : List Payload) (s : State) :
    s.clock.now ≤ (ps.foldl (replay net settings total) s).clock.now := by
  induction ps generalizing s with
  | nil => exact le_rfl
  | cons p ps ih => exact (now_le_replay net settings total s p).trans (ih _)

end Replay.State

end WireReplay
