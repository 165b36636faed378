import WireReplay.Proofs.Deliveries
import WireReplay.Proofs.Heedless
import WireReplay.Relay

/-!
# Relays in the place of turns

A relay sends its data and reads the reply in loops of its own, with less room and with another way
of giving up. If its output is never what it waits for, it nevertheless takes the course of a turn
under the same timeouts: both are followed along the same whole deliveries, and the finish of the
relay is read off the verdict on the turn.
-/

namespace WireReplay

/-- A write to such a peer is accepted at once, in pieces or whole, and a flush succeeds at once. -/
structure PeerScript.AcceptsAtOnce (script : PeerScript) : Prop where
  write : ∀ step ∈ script.write, ∃ n, 0 < n ∧ step = .act n
  flush : ∀ step ∈ script.flush, step = .act ()

namespace Link

variable {link : Link}

theorem writing_run_of_accepting (total : Nat) (limit : Limit) (clock : Clock) (accepted : Nat)
    {steps : List (Step Nat)} (h : ∀ step ∈ steps, ∃ n, 0 < n ∧ step = .act n) :
    ∃ rest, (writing total).run limit clock accepted steps = ⟨.done (), clock, total, rest⟩ ∧
      ∀ step ∈ rest, step ∈ steps := by
  induction steps generalizing accepted with
  | nil => exact ⟨[], rfl, fun _ hm => hm⟩
  | cons step rest ih =>
    obtain ⟨n, hn, rfl⟩ := h step List.mem_cons_self
    have hrest : ∀ step ∈ rest, ∃ n, 0 < n ∧ step = .act n :=
      fun step hm => h step (List.mem_cons_of_mem _ hm)
    have hpos : n ≠ 0 := by omega
    by_cases htotal : total ≤ accepted + n
    · have hr : (writing total).reply accepted n = .done () total [] := by
        simp only [writing, if_neg hpos, if_pos htotal]
      exact ⟨rest, Call.run_act_done hr, fun _ hm => List.mem_cons_of_mem _ hm⟩
    · have hr : (writing total).reply accepted n = .pass (accepted + n) := by
        simp only [writing, if_neg hpos, if_neg htotal]
      obtain ⟨left, hrun, hleft⟩ := ih (accepted + n) hrest
      exact ⟨left, (Call.run_act_pass hr).trans hrun,
        fun step hm => List.mem_cons_of_mem _ (hleft step hm)⟩

theorem write_of_accepting (h : link.script.AcceptsAtOnce) (data : Bytes) (limit : Limit)
    (clock : Clock) :
    ∃ after, link.write data limit clock = ⟨.done (), clock, after⟩ ∧
      after.script.AcceptsAtOnce ∧ after.written = link.written ++ data := by
  cases data with
  | nil => exact ⟨link, rfl, h, (List.append_nil _).symm⟩
  | cons byte bytes =>
    obtain ⟨rest, hrun, hrest⟩ := writing_run_of_accepting (byte :: bytes).length limit clock 0
      h.write
    rw [write_cons_eq, hrun]
    refine ⟨_, rfl, { h with write := fun step hm => h.write step (hrest step hm) }, ?_⟩
    exact congrArg (link.written ++ ·) (List.take_length ..)

theorem flush_of_accepting (h : link.script.AcceptsAtOnce) (limit : Limit) (clock : Clock) :
    ∃ after, link.flush limit clock = ⟨.done (), clock, after⟩ ∧ after.script.AcceptsAtOnce ∧
      after.written = link.written := by
  rw [flush_eq]
  cases hf : link.script.flush with
  | nil => exact ⟨_, rfl, { h with flush := fun _ hm => absurd hm List.not_mem_nil }, rfl⟩
  | cons step rest =>
    have hstep := h.flush step (by rw [hf]; exact List.mem_cons_self)
    have hrest : ∀ step ∈ rest, step = .act () :=
      fun step hm => h.flush step (by rw [hf]; exact List.mem_cons_of_mem _ hm)
    subst hstep
    exact ⟨_, rfl, { h with flush := hrest }, rfl⟩

theorem send_of_accepting (h : link.script.AcceptsAtOnce) (data : Bytes) (limit : Limit)
    (clock : Clock) :
    ∃ after, link.send data false limit clock = ⟨.done (), clock, after⟩ ∧
      after.script.AcceptsAtOnce ∧ after.written = link.written ++ data := by
  obtain ⟨written, hwrite, hwritten, hdata⟩ := write_of_accepting h data limit clock
  obtain ⟨flushed, hflush, hflushed, hsame⟩ := flush_of_accepting hwritten limit clock
  refine ⟨flushed, ?_, hflushed, hsame.trans hdata⟩
  rw [send_eq_andThen, hwrite, Moved.andThen_of_done _ rfl, hflush, Moved.andThen_of_done _ rfl]
  rfl

theorem deliver_heedless (h : link.script.IsCalm) (limit : Limit) {clock : Clock}
    (hc : clock.cancelAt = none) :
    link.deliver limit.heedless clock = link.deliver limit clock :=
  congrArg (Settled.moved · link.afterDelivery)
    (Call.run_heedless (delivering _ _) limit link.unechoed h.read hc)

end Link

/-- The finish of a relay whose `received` bytes were passed on, by the verdict on a turn. -/
def Verdict.finish (sent received : Nat) : Verdict → Relay.Finish
  | .closed => .finished ⟨sent, received, .ok⟩
  | .silent => .finished ⟨sent, received, .timeout⟩
  | .writeFailed fault => .failed fault
  | .readFailed fault => .failed fault
  | .writeTimedOut millis => .failed (.custom .timedOut s!"write timed out after {millis} ms")
  | _ => .never

def Turn.finish (turn : Turn) (sent : Nat) : Relay.Finish :=
  (turn.verdict.map (Verdict.finish sent turn.received.length)).getD .never

namespace Relay

def lastFinish (sent received : Nat) : Ending Bytes → Finish
  | .done _ => .finished ⟨sent, received, .ok⟩
  | ending => .ofEnding (.finished ⟨sent, received, .timeout⟩) ending

theorem lastFinish_eq (sent received : Nat) (ending : Ending Bytes) :
    lastFinish sent received ending =
      (ending.lastVerdict.map (Verdict.finish sent received)).getD .never := by
  cases ending <;> rfl

namespace State

variable {s after : State} {sent : Nat} {idle : Option Duration} {bytes : Bytes}

theorem passOn_of_accepting (h : s.output.script.AcceptsAtOnce) (bytes : Bytes) :
    ∃ output, s.passOn bytes =
        (.done (), { s with output, received := s.received + bytes.length }) ∧
      output.script.AcceptsAtOnce ∧ output.written = s.output.written ++ bytes := by
  obtain ⟨output, hsend, haccepts, hwritten⟩ :=
    Link.send_of_accepting h bytes patience s.clock
  exact ⟨output, by rw [passOn, hsend], haccepts, hwritten⟩

theorem pump_of_more {later : Clock} {peer : Link} (hb : bytes ≠ [])
    (hread : s.peer.read room (limit idle s.clock) s.clock = ⟨.done bytes, later, peer⟩)
    (hpass : { s with clock := later, peer }.passOn bytes = (.done (), after)) :
    s.pump sent idle = after.pump sent idle := by
  rw [pump]
  generalize s.peer.read room (limit idle s.clock) s.clock = read at hread ⊢
  cases hread
  cases bytes with
  | nil => exact absurd rfl hb
  | cons byte bytes =>
    dsimp only
    generalize State.passOn _ (byte :: bytes) = passed at hpass ⊢
    cases hpass
    rfl

theorem pump_of_over (hd : ∀ bytes,
      (s.peer.read room (limit idle s.clock) s.clock).ending = .done bytes → bytes = []) :
    s.pump sent idle =
      (lastFinish sent s.received (s.peer.read room (limit idle s.clock) s.clock).ending,
        { s with
          clock := (s.peer.read room (limit idle s.clock) s.clock).clock
          peer := (s.peer.read room (limit idle s.clock) s.clock).link }) := by
  rw [pump]
  generalize s.peer.read room (limit idle s.clock) s.clock = read at hd ⊢
  obtain ⟨ending, later, peer⟩ := read
  cases ending with
  | done bytes => cases hd bytes rfl; rfl
  | _ => rfl

theorem pump_pending (link : Link) (clock : Clock) (output : Link) (received : Nat) (sent : Nat)
    (idle : Option Duration) (bytes : Bytes) (h : output.script.AcceptsAtOnce) :
    ∃ output', (State.mk clock (link.pending bytes) output received).pump sent idle =
        (State.mk clock (link.took bytes) output' (received + bytes.length)).pump sent idle ∧
      output'.script.AcceptsAtOnce ∧ output'.written = output.written ++ bytes := by
  induction hn : bytes.length using Nat.strongRecOn
    generalizing link output received bytes with
  | ind n ih =>
    by_cases hb : bytes = []
    · subst hb hn
      rw [Link.pending_nil, Link.took_nil]
      exact ⟨output, rfl, h, (List.append_nil _).symm⟩
    · have hread := Link.read_pending link hb room (limit idle clock) clock
      have hlt : (bytes.drop room).length < bytes.length := Link.length_drop_lt hb (by decide)
      obtain ⟨next, hpass, hnext, hwritten⟩ := passOn_of_accepting
        (s := ⟨clock, (link.pending (bytes.drop room)).took (bytes.take room), output, received⟩) h
        (bytes.take room)
      obtain ⟨output', hpump, haccepts, hall⟩ := ih _ (hn ▸ hlt) (link.took (bytes.take room))
        next (received + (bytes.take room).length) (bytes.drop room) hnext rfl
      refine ⟨output', ?_, haccepts, ?_⟩
      · rw [pump_of_more (Link.take_ne_nil hb (by decide)) hread hpass]
        rw [Link.took_took, List.take_append_drop, Nat.add_assoc, ← List.length_append,
          List.take_append_drop, hn] at hpump
        exact hpump
      · rw [hall, hwritten, List.append_assoc, List.take_append_drop]

theorem pump_of_delivered {link peer : Link} {clock later : Clock} {output : Link}
    (sent received : Nat) (hb : bytes ≠ []) (h : output.script.AcceptsAtOnce)
    (hd : link.deliver (limit idle clock) clock = ⟨.done bytes, later, peer⟩) :
    ∃ output', (State.mk clock link output received).pump sent idle =
        (State.mk later (peer.took bytes) output' (received + bytes.length)).pump sent idle ∧
      output'.script.AcceptsAtOnce ∧ output'.written = output.written ++ bytes := by
  have hread := Link.read_of_delivered room hd
  obtain ⟨next, hpass, hnext, hwritten⟩ := passOn_of_accepting
    (s := ⟨later, (peer.pending (bytes.drop room)).took (bytes.take room), output, received⟩) h
    (bytes.take room)
  obtain ⟨output', hpump, haccepts, hall⟩ := pump_pending (peer.took (bytes.take room)) later next
    (received + (bytes.take room).length) sent idle (bytes.drop room) hnext
  refine ⟨output', ?_, haccepts, ?_⟩
  · rw [pump_of_more (Link.take_ne_nil hb (by decide)) hread hpass]
    rw [Link.took_took, List.take_append_drop, Nat.add_assoc, ← List.length_append,
      List.take_append_drop] at hpump
    exact hpump
  · rw [hall, hwritten, List.append_assoc, List.take_append_drop]

theorem pump_of_not_delivered (sent : Nat) (idle : Option Duration) (hd : ∀ bytes,
      (s.peer.deliver (limit idle s.clock) s.clock).ending = .done bytes → bytes = []) :
    s.pump sent idle =
      (lastFinish sent s.received (s.peer.deliver (limit idle s.clock) s.clock).ending,
        { s with
          clock := (s.peer.deliver (limit idle s.clock) s.clock).clock
          peer := (s.peer.deliver (limit idle s.clock) s.clock).link }) := by
  have hread := Link.read_eq_deliver room hd
  rw [pump_of_over (by rw [hread]; exact hd), hread]

/-- A pump takes the course of a capture, and passes on what the capture receives. -/
theorem pump_eq_capture (sent : Nat) (timeout : Duration) {link output : Link} {clock : Clock}
    {received : Bytes} (hcalm : link.script.IsCalm) (hc : clock.cancelAt = none)
    (h : output.script.AcceptsAtOnce) (hw : output.written = received) :
    ∃ output', (State.mk clock link output received.length).pump sent (some timeout) =
        ((link.capture timeout clock received).finish sent,
          ⟨(link.capture timeout clock received).clock, (link.capture timeout clock received).link,
            output', (link.capture timeout clock received).received.length⟩) ∧
      output'.written = (link.capture timeout clock received).received := by
  induction hn : link.backlog using Nat.strongRecOn generalizing link output clock received with
  | ind n ih =>
    have hcan := Clock.isCancelled_of_none hc
    have hcalm' := Link.deliver_isCalm hcalm ⟨timeout.deadline clock.now, true⟩ clock
    have hd : link.deliver (limit (some timeout) clock) clock = _ :=
      Link.deliver_heedless hcalm ⟨timeout.deadline clock.now, true⟩ hc
    rcases link.deliver_cases ⟨timeout.deadline clock.now, true⟩ clock with
      ⟨bytes, later, peer, hb, hdelivered⟩ | hover
    · rw [hdelivered] at hd hcalm'
      have hlater := hcalm'.cancelAt_eq.trans hc
      obtain ⟨next, hpump, hnext, hwritten⟩ :=
        pump_of_delivered sent received.length hb h hd
      have hlt := Link.backlog_lt_of_delivered hb hdelivered
      rw [Link.capture_of_delivered received hcan (Clock.isCancelled_of_none hlater) hb hdelivered,
        hpump, ← List.length_append]
      exact ih _ (hn ▸ hlt) hcalm'.script hlater hnext (by rw [hwritten, hw]) rfl
    · have hpump := pump_of_not_delivered (s := ⟨clock, link, output, received.length⟩) sent
        (some timeout) (by rw [hd]; exact hover)
      rw [hd, lastFinish_eq] at hpump
      rw [Link.capture_of_not_delivered received hcan hover, hpump]
      exact ⟨output, rfl, hw⟩

theorem relay_of_sent {data : Bytes} {settings : Settings} {later : Clock} {peer : Link}
    (h : s.peer.send data settings.halfClose (limit settings.writeTimeout s.clock) s.clock =
      ⟨.done (), later, peer⟩) :
    s.relay data settings =
      { s with clock := later, peer }.pump data.length settings.idleTimeout := by
  rw [relay, h]

theorem relay_of_unsent {data : Bytes} {settings : Settings} {ending : Ending Unit} {later : Clock}
    {peer : Link} (hne : ending ≠ .done ())
    (h : s.peer.send data settings.halfClose (limit settings.writeTimeout s.clock) s.clock =
      ⟨ending, later, peer⟩) :
    s.relay data settings =
      (((ending.unsentVerdict settings.writeTimeout).map
          (Verdict.finish data.length 0)).getD .never,
        { s with clock := later, peer }) := by
  rw [relay, h]
  cases ending with
  | done => exact absurd rfl hne
  | _ => rfl

/-- A relay takes the course of a turn under the same timeouts. -/
theorem relay_eq_exchange (data : Bytes) (settings : Replay.Settings) (connectTimeout : Duration)
    (link output : Link) (clock : Clock) (hcalm : link.script.IsCalm)
    (hc : clock.cancelAt = none) (h : output.script.AcceptsAtOnce) (hw : output.written = []) :
    ∃ output', (State.mk clock link output 0).relay data ⟨connectTimeout, settings.writeTimeout,
          some settings.readTimeout, settings.halfClose⟩ =
        ((link.exchange data settings settings.halfClose clock).finish data.length,
          ⟨(link.exchange data settings settings.halfClose clock).clock,
            (link.exchange data settings settings.halfClose clock).link, output',
            (link.exchange data settings settings.halfClose clock).received.length⟩) ∧
      output'.written = (link.exchange data settings settings.halfClose clock).received := by
  have hcan := Clock.isCancelled_of_none hc
  have hsend : link.send data settings.halfClose (limit settings.writeTimeout clock) clock =
      link.sendAll data settings settings.halfClose clock :=
    Link.send_heedless hcalm data settings.halfClose
      ⟨settings.writeTimeout.deadline clock.now, true⟩ hc
  have hcalm' := Link.send_isCalm hcalm data settings.halfClose
    ⟨settings.writeTimeout.deadline clock.now, true⟩ clock
  change (link.sendAll data settings settings.halfClose clock).IsCalm clock.cancelAt at hcalm'
  by_cases hs : (link.sendAll data settings settings.halfClose clock).ending = .done ()
  · rw [Link.exchange_of_sent hcan hs, relay_of_sent (hsend.trans (by rw [← hs]))]
    exact pump_eq_capture data.length settings.readTimeout hcalm'.script
      (hcalm'.cancelAt_eq.trans hc) h hw
  · rw [Link.exchange_of_unsent hcan hs, relay_of_unsent hs hsend]
    exact ⟨output, rfl, hw⟩

end State

end Relay

end WireReplay
