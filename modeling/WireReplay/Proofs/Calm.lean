import Mathlib.Data.List.GetD
import Mathlib.Tactic.SplitIfs
import WireReplay.Proofs.ReplaySteps

/-!
# Calm scripts

A script is calm if none of its steps cancels the run. What a call puts back in front of the later
steps are answers only, so a calm script stays calm, and the moment of cancellation stays what it
was before the run.
-/

namespace WireReplay

/-- No step of the script cancels the run. -/
structure PeerScript.IsCalm (script : PeerScript) : Prop where
  connect : Step.cancel ∉ script.connect
  write : Step.cancel ∉ script.write
  flush : Step.cancel ∉ script.flush
  shutdown : Step.cancel ∉ script.shutdown
  read : Step.cancel ∉ script.read

def Network.IsCalm (net : Network) : Prop := ∀ script ∈ net.peers, script.IsCalm

theorem PeerScript.isCalm_empty : ({} : PeerScript).IsCalm := by
  constructor <;> exact List.not_mem_nil

theorem Network.peer_mem (net : Network) (attempt : Nat) :
    net.peer attempt ∈ net.peers ∨ net.peer attempt = {} := by
  unfold peer
  by_cases h : attempt < net.peers.length
  · left
    rw [List.getD_eq_getElem _ _ h]
    exact List.getElem_mem h
  · rw [List.getD_eq_default _ _ (Nat.le_of_not_lt h), List.getLastD_eq_getLast?]
    cases hl : net.peers.getLast? with
    | none => exact .inr rfl
    | some script => exact .inl (List.mem_of_getLast? hl)

theorem Network.IsCalm.peer {net : Network} (h : net.IsCalm) (attempt : Nat) :
    (net.peer attempt).IsCalm := by
  rcases net.peer_mem attempt with hm | he
  · exact h _ hm
  · rw [he]
    exact PeerScript.isCalm_empty

theorem Clock.wait_cancelAt (clock : Clock) (limit : Limit) (ready : Option Nat) :
    (clock.wait limit ready).2.cancelAt = clock.cancelAt := by
  unfold wait
  split_ifs
  · rfl
  · rfl
  · rfl
  · cases ready <;> cases limit.deadline <;> dsimp only [advance]
    split_ifs <;> rfl

theorem Clock.isCancelled_of_none {clock : Clock} (h : clock.cancelAt = none) :
    clock.isCancelled = false := by
  rw [isCancelled, h]
  rfl

/-- Nothing cancelled the run: it is to be cancelled when it was to be before, and what is left of
the script is calm. -/
structure Settled.IsCalm {σ α β : Type} (settled : Settled σ α β) (cancelAt : Option Nat) :
    Prop where
  cancelAt_eq : settled.clock.cancelAt = cancelAt
  steps : Step.cancel ∉ settled.steps

namespace Call

variable {σ α β : Type} {call : Call σ α β} {limit : Limit} {clock : Clock} {state : σ}

/-- What calls of this kind put back in front of the later steps are answers. -/
def PutsBackAnswers (call : Call σ α β) : Prop :=
  ∀ state answer value next front, call.reply state answer = .done value next front →
    ∀ step ∈ front, ∃ given, step = .act given

theorem sleep_isCalm {ready : Option Nat} {left : List (Step α)} {onward : Clock → Settled σ α β}
    (hleft : Step.cancel ∉ left)
    (h : ∀ later : Clock, later.cancelAt = clock.cancelAt →
      (onward later).IsCalm clock.cancelAt) :
    (sleep limit ready clock state left onward).IsCalm clock.cancelAt := by
  have hw := clock.wait_cancelAt limit ready
  unfold sleep
  split <;> rename_i later heq <;> rw [heq] at hw
  · exact h later hw
  all_goals exact ⟨hw, hleft⟩

theorem block_isCalm {left : List (Step α)} (hleft : Step.cancel ∉ left) :
    (block limit clock state left : Settled σ α β).IsCalm clock.cancelAt :=
  sleep_isCalm hleft fun _ h => ⟨h, hleft⟩

theorem not_mem_append_of_putsBackAnswers (hcall : call.PutsBackAnswers) {next : σ} {answer : α}
    {value : β} {front rest : List (Step α)}
    (hr : call.reply state answer = .done value next front) (hrest : Step.cancel ∉ rest) :
    Step.cancel ∉ front ++ rest := by
  intro hm
  rcases List.mem_append.1 hm with hm | hm
  · obtain ⟨given, hg⟩ := hcall _ _ _ _ _ hr _ hm
    cases hg
  · exact hrest hm

/-- A call on a calm script cancels nothing and leaves a calm script. -/
theorem run_isCalm (hcall : call.PutsBackAnswers) (limit : Limit) (clock : Clock) (state : σ)
    (steps : List (Step α)) (hs : Step.cancel ∉ steps) :
    (call.run limit clock state steps).IsCalm clock.cancelAt := by
  induction steps generalizing clock state with
  | nil =>
    rw [run]
    split
    · exact ⟨rfl, List.not_mem_nil⟩
    · exact block_isCalm List.not_mem_nil
  | cons step rest ih =>
    have hrest : Step.cancel ∉ rest := fun h => hs (List.mem_cons_of_mem _ h)
    cases step with
    | delay ms =>
      exact sleep_isCalm (by simpa using hrest) fun later hl => hl ▸ ih later state hrest
    | notBefore moment => exact sleep_isCalm hs fun later hl => hl ▸ ih later state hrest
    | cancel => exact absurd List.mem_cons_self hs
    | hang => exact block_isCalm hs
    | error fault =>
      rw [run]
      split
      · exact ih clock state hrest
      · exact ⟨rfl, hrest⟩
    | act answer =>
      cases hr : call.reply state answer with
      | pass next => rw [run_act_pass hr]; exact ih clock next hrest
      | block => rw [run_act_block hr]; exact block_isCalm hs
      | fail fault next => rw [run_act_fail hr]; exact ⟨rfl, hrest⟩
      | done value next front =>
        rw [run_act_done hr]
        exact ⟨rfl, not_mem_append_of_putsBackAnswers hcall hr hrest⟩

end Call

theorem dialing_putsBackAnswers : dialing.PutsBackAnswers := by
  intro _ answer
  cases answer

namespace Link

theorem writing_putsBackAnswers (total : Nat) : (writing total).PutsBackAnswers := by
  intro accepted n value next front hr step hm
  simp only [writing] at hr
  split_ifs at hr
  cases hr
  cases hm

theorem signalling_putsBackAnswers : signalling.PutsBackAnswers := by
  intro _ _ value next front hr step hm
  cases hr
  cases hm

theorem mem_leftover {bytes : Bytes} {step : Step Delivery} (h : step ∈ leftover bytes) :
    step = .act (.data bytes) := by
  unfold leftover at h
  split_ifs at h
  · cases h
  · exact List.mem_singleton.1 h

theorem reading_putsBackAnswers (room written : Nat) (isShutDown : Bool) :
    (reading room written isShutDown).PutsBackAnswers := by
  intro unechoed answer value next front hr step hm
  cases answer with
  | data bytes => cases hr; exact ⟨_, mem_leftover hm⟩
  | eof => cases hr; exact ⟨_, List.mem_singleton.1 hm⟩
  | echo =>
    simp only [reading] at hr
    split_ifs at hr
    cases hr
    exact ⟨_, mem_leftover hm⟩
  | awaitWritten count => simp only [reading] at hr; split_ifs at hr
  | awaitShutdown => simp only [reading] at hr; split_ifs at hr

end Link

structure Moved.IsCalm {β : Type} (m : Moved β) (cancelAt : Option Nat) : Prop where
  cancelAt_eq : m.clock.cancelAt = cancelAt
  script : m.link.script.IsCalm

structure Turn.IsCalm (turn : Turn) (cancelAt : Option Nat) : Prop where
  cancelAt_eq : turn.clock.cancelAt = cancelAt
  script : turn.link.script.IsCalm

namespace Link

variable {link : Link} {limit : Limit} {clock : Clock}

theorem write_isCalm (h : link.script.IsCalm) (data : Bytes) (limit : Limit) (clock : Clock) :
    (link.write data limit clock).IsCalm clock.cancelAt := by
  cases data with
  | nil => exact ⟨rfl, h⟩
  | cons byte bytes =>
    have hrun := Call.run_isCalm (writing_putsBackAnswers (byte :: bytes).length) limit clock 0
      link.script.write h.write
    exact ⟨hrun.cancelAt_eq, { h with write := hrun.steps }⟩

theorem flush_isCalm (h : link.script.IsCalm) :
    (link.flush limit clock).IsCalm clock.cancelAt := by
  have hrun := Call.run_isCalm signalling_putsBackAnswers limit clock () link.script.flush h.flush
  exact ⟨hrun.cancelAt_eq, { h with flush := hrun.steps }⟩

theorem shutDown_isCalm (h : link.script.IsCalm) :
    (link.shutDown limit clock).IsCalm clock.cancelAt := by
  have hrun := Call.run_isCalm signalling_putsBackAnswers limit clock () link.script.shutdown
    h.shutdown
  exact ⟨hrun.cancelAt_eq, { h with shutdown := hrun.steps }⟩

theorem read_isCalm (h : link.script.IsCalm) (room : Nat) (limit : Limit) (clock : Clock) :
    (link.read room limit clock).IsCalm clock.cancelAt := by
  have hrun := Call.run_isCalm (reading_putsBackAnswers room link.written.length link.isShutDown)
    limit clock link.unechoed link.script.read h.read
  exact ⟨hrun.cancelAt_eq, { h with read := hrun.steps }⟩

theorem andThen_isCalm {m : Moved Unit} {cancelAt : Option Nat} {next : Link → Clock → Moved Unit}
    (hm : m.IsCalm cancelAt)
    (h : ∀ link clock, link.script.IsCalm → clock.cancelAt = cancelAt →
      (next link clock).IsCalm cancelAt) : (m.andThen next).IsCalm cancelAt := by
  by_cases hd : m.ending = .done ()
  · rw [Moved.andThen_of_done next hd]
    exact h m.link m.clock hm.script hm.cancelAt_eq
  · rwa [Moved.andThen_of_not_done next hd]

theorem send_isCalm (h : link.script.IsCalm) (data : Bytes) (halfClose : Bool) (limit : Limit)
    (clock : Clock) : (link.send data halfClose limit clock).IsCalm clock.cancelAt := by
  rw [send_eq_andThen]
  refine andThen_isCalm (write_isCalm h data limit clock) fun link clock h hc => ?_
  rw [← hc]
  refine andThen_isCalm (flush_isCalm h) fun link clock h hc => ?_
  rw [← hc]
  cases halfClose
  · exact ⟨rfl, h⟩
  · exact shutDown_isCalm h

theorem capture_isCalm (h : link.script.IsCalm) (timeout : Duration) (clock : Clock)
    (received : Bytes) :
    (link.capture timeout clock received).IsCalm clock.cancelAt := by
  revert h
  apply capture_induction timeout (P := fun link clock _ turn =>
    link.script.IsCalm → turn.IsCalm clock.cancelAt)
  · intro link clock received _ h
    exact ⟨rfl, h⟩
  · intro link clock received _ _ h
    have hread := read_isCalm h captureRoom ⟨timeout.deadline clock.now, true⟩ clock
    exact ⟨hread.cancelAt_eq, hread.script⟩
  · intro link clock received bytes turn _ _ _ ih h
    have hread := read_isCalm h captureRoom ⟨timeout.deadline clock.now, true⟩ clock
    rw [← hread.cancelAt_eq]
    exact ih hread.script

theorem exchange_isCalm (h : link.script.IsCalm) (data : Bytes) (settings : Replay.Settings)
    (halfClose : Bool) (clock : Clock) :
    (link.exchange data settings halfClose clock).IsCalm clock.cancelAt := by
  have hsend := send_isCalm h data halfClose ⟨settings.writeTimeout.deadline clock.now, true⟩ clock
  cases hc : clock.isCancelled with
  | true =>
    rw [exchange_of_cancelled data settings halfClose hc]
    exact ⟨rfl, h⟩
  | false =>
    by_cases hs : (link.sendAll data settings halfClose clock).ending = .done ()
    · rw [exchange_of_sent hc hs, ← hsend.cancelAt_eq]
      exact capture_isCalm hsend.script _ _ _
    · rw [exchange_of_unsent hc hs]
      exact ⟨hsend.cancelAt_eq, hsend.script⟩

end Link

namespace Network

variable {net : Network} {attempt : Nat} {timeout : Duration} {clock later : Clock}

theorem dialing_isCalm (h : net.IsCalm) (attempt : Nat) (timeout : Duration) (clock : Clock) :
    (net.dialing attempt timeout clock).IsCalm clock.cancelAt :=
  Call.run_isCalm dialing_putsBackAnswers _ _ _ _ (h.peer attempt).connect

theorem cancelAt_of_dial {dialed : Dialed} (h : net.IsCalm)
    (hd : net.dial attempt timeout clock = (dialed, later)) : later.cancelAt = clock.cancelAt := by
  rw [← clock_of_dial hd]
  exact (dialing_isCalm h attempt timeout clock).cancelAt_eq

theorem isCalm_of_opened {link : Link} (h : net.IsCalm)
    (hd : net.dial attempt timeout clock = (.opened link, later)) : link.script.IsCalm := by
  rw [link_of_opened hd]
  exact { h.peer attempt with connect := List.not_mem_nil }

end Network

namespace Replay

/-- Nothing has cancelled the run so far, and nothing on its line will. -/
structure State.IsCalm (s : State) : Prop where
  cancelAt_eq : s.clock.cancelAt = none
  link : ∀ link, s.line = .shared link → link.script.IsCalm

namespace State

variable {net : Network} {settings : Settings} {total started : Nat} {s : State} {p : Payload}

theorem IsCalm.isCancelled_eq (h : s.IsCalm) : s.clock.isCancelled = false :=
  Clock.isCancelled_of_none h.cancelAt_eq

theorem start_isCalm (net : Network) (settings : Settings) (total : Nat) :
    (State.start net settings total none).IsCalm where
  cancelAt_eq := rfl
  link link hl := by
    simp only [start] at hl
    split_ifs at hl

theorem isCalm_of_not_shared (hc : s.clock.cancelAt = none) (hl : ∀ link, s.line ≠ .shared link) :
    s.IsCalm where
  cancelAt_eq := hc
  link link h := absurd h (hl link)

theorem replayFresh_isCalm (hnet : net.IsCalm) (h : s.IsCalm) (hl : s.line = .fresh) :
    (s.replayFresh net settings p).IsCalm := by
  have hdial {dialed : Dialed} {clock : Clock}
      (hd : net.dial s.attempts settings.connectTimeout s.clock = (dialed, clock)) :
      clock.cancelAt = none := (Network.cancelAt_of_dial hnet hd).trans h.cancelAt_eq
  have hturn {link : Link} {clock : Clock}
      (hd : net.dial s.attempts settings.connectTimeout s.clock = (.opened link, clock)) :
      (turnFresh link settings p clock).clock.cancelAt = none :=
    (Link.exchange_isCalm (Network.isCalm_of_opened hnet hd) p.bytes settings settings.halfClose
      clock).cancelAt_eq.trans (hdial hd)
  have hopen : ∀ link, s.line ≠ .shared link := by simp [hl]
  refine replayFresh_cases ?_ ?_ ?_ ?_
  · intro clock hd
    exact isCalm_of_not_shared (hdial hd) (by simp [stall])
  · intro verdict clock hd
    exact isCalm_of_not_shared (hdial hd) hopen
  · intro link clock hd _
    exact isCalm_of_not_shared (hturn hd) (by simp [stall])
  · intro link clock verdict hd _
    exact isCalm_of_not_shared (hturn hd) hopen

theorem replayShared_isCalm (hc : s.clock.cancelAt = none) {link : Link}
    (hlink : link.script.IsCalm) :
    (s.replayShared net settings total link started p).IsCalm := by
  have hturn := Link.exchange_isCalm hlink p.bytes settings false s.clock
  have hlater := hturn.cancelAt_eq.trans hc
  refine replayShared_cases ?_ ?_ ?_ ?_
  · intro hcan
    rw [Clock.isCancelled_of_none hc] at hcan
    cases hcan
  · intro _ _
    exact isCalm_of_not_shared hlater (by simp [stall])
  · intro _ _
    refine ⟨hlater, fun after hl => ?_⟩
    cases hl
    exact hturn.script
  · intro verdict _ _ _
    exact isCalm_of_not_shared hlater (lineAfter_ne_shared _ _)

theorem replayFirst_isCalm (hnet : net.IsCalm) (h : s.IsCalm) :
    (s.replayFirst net settings total p).IsCalm := by
  have hdial {dialed : Dialed} {clock : Clock}
      (hd : net.dial s.attempts settings.connectTimeout s.clock = (dialed, clock)) :
      clock.cancelAt = none := (Network.cancelAt_of_dial hnet hd).trans h.cancelAt_eq
  refine replayFirst_cases ?_ ?_ ?_
  · intro clock hd
    exact isCalm_of_not_shared (hdial hd) (by simp [stall])
  · intro verdict clock hd
    exact isCalm_of_not_shared (hdial hd) (lineAfter_ne_shared _ _)
  · intro link clock hd
    exact replayShared_isCalm (hdial hd) (Network.isCalm_of_opened hnet hd)

theorem replay_isCalm (hnet : net.IsCalm) (h : s.IsCalm) :
    (replay net settings total s p).IsCalm := by
  refine replay_cases ?_ ?_ ?_ ?_ ?_ ?_
  · intro _
    exact h
  · intro outcome reason _
    exact ⟨h.cancelAt_eq, h.link⟩
  · intro _ _
    exact ⟨h.cancelAt_eq, h.link⟩
  · intro hl _
    exact replayFresh_isCalm hnet h hl
  · intro _ _
    exact replayFirst_isCalm hnet h
  · intro link hl _
    exact replayShared_isCalm h.cancelAt_eq (h.link link hl)

end State

end Replay

end WireReplay
