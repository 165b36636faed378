import WireReplay.Proofs.Chunks
import WireReplay.Proofs.Isolation

/-!
# Payloads that come back

A peer that waits until the write side is shut down, sends back what it got and closes gives every
payload back unchanged. It does not matter of which bytes the payload is, in how many parts the peer
accepts it, or where it delays, as long as no delays sum to more than their timeout.
-/

namespace WireReplay

/-- The peer lets itself be connected to and written to in time, and has nothing against a flush or
a shutdown. Once the write side is shut down it sends back all that was written, and closes. -/
structure PeerScript.Echoes (script : PeerScript) (settings : Replay.Settings) : Prop where
  connect : ∃ pause ≤ settings.connectTimeout.millis,
    Granting (fun _ => True) pause script.connect
  write : ∃ pause ≤ settings.writeTimeout.millis, Granting (0 < ·) pause script.write
  flush : Granting (fun _ => True) 0 script.flush
  shutdown : Granting (fun _ => True) 0 script.shutdown
  read : script.read = [.act .awaitShutdown, .act .echo, .act .eof]

/-- The payload came back whole. -/
structure Payload.Echoed (p : Payload) (c : Capture) : Prop where
  name_eq : c.name = p.name
  sent_eq : c.sent = p.bytes
  received_eq : c.received = c.sent
  outcome_eq : c.outcome = .ok
  error_eq : c.error = none

namespace Link

variable {link : Link} {timeout : Duration} {clock : Clock} {rest : List (Step Delivery)}

def echoed (link : Link) (read : List (Step Delivery)) : Link :=
  { link.withRead read with
    unechoed := []
    delivered := link.delivered ++ link.unechoed }

theorem capture_of_echo (received : Bytes) (hc : clock.isCancelled = false)
    (hread : link.script.read = .act .echo :: rest) :
    link.capture timeout clock received =
      (link.echoed rest).capture timeout clock (received ++ link.unechoed) := by
  by_cases hb : link.unechoed = []
  · have hechoed : link.echoed rest = link.withRead rest := by
      simp only [echoed, hb, List.append_nil]
      rw [← hb]
      rfl
    have hreply : (reading captureRoom link.written.length link.isShutDown).reply link.unechoed
        .echo = .pass link.unechoed := if_pos (by rw [hb]; rfl)
    rw [capture_of_passed received hc hread hreply, hechoed, hb, List.append_nil]
  · have hreply : (delivering link.written.length link.isShutDown).reply link.unechoed .echo =
        .done link.unechoed [] [] := if_neg (by rwa [List.isEmpty_iff])
    have hdelivered : link.deliver ⟨timeout.deadline clock.now, true⟩ clock =
        ⟨.done link.unechoed, clock, { link.withRead rest with unechoed := [] }⟩ := by
      rw [deliver, hread, Call.run_act_done hreply]
      rfl
    exact capture_of_delivered received hc hc hb hdelivered

theorem capture_of_eof (received : Bytes) (hc : clock.isCancelled = false)
    (hread : link.script.read = .act .eof :: rest) :
    link.capture timeout clock received = ⟨some .closed, received, clock, link⟩ := by
  have hdelivered : link.deliver ⟨timeout.deadline clock.now, true⟩ clock =
      ⟨.done [], clock, link⟩ := by
    rw [deliver, hread, Call.run_act_done rfl]
    exact congrArg _ (withRead_eq_self hread)
  rw [capture_of_not_delivered received hc (by rw [hdelivered]; simp), hdelivered]
  rfl

theorem capture_of_shutDown (hc : clock.isCancelled = false) (hs : link.isShutDown = true)
    (hread : link.script.read = [.act .awaitShutdown, .act .echo, .act .eof]) :
    link.capture timeout clock [] =
      ⟨some .closed, link.unechoed, clock, link.echoed [.act .eof]⟩ := by
  rw [capture_of_passed [] hc hread (if_pos hs), capture_of_echo [] hc rfl,
    capture_of_eof _ hc rfl]
  rfl

theorem exchange_of_echoes {net : Network} {settings : Replay.Settings} {attempt : Nat}
    (data : Bytes) (now : Nat) (h : (net.peer attempt).Echoes settings) :
    ∃ later after,
      (net.link attempt).exchange data settings true ⟨now, none⟩ =
        ⟨some .closed, data, ⟨later, none⟩, after⟩ := by
  obtain ⟨pause, hpause, hwrite⟩ := h.write
  obtain ⟨spent, saved, write, flush, shutdown, hturn, -⟩ :=
    exchange_of_granting (net.link attempt) data true now hwrite h.flush (fun _ => h.shutdown)
      hpause
  exact ⟨_, _, hturn.trans (capture_of_shutDown rfl rfl h.read)⟩

end Link

namespace Replay

variable {net : Network} {settings : Settings} {s : State}

namespace State

theorem replayFresh_of_echoes (p : Payload) (hc : s.clock.cancelAt = none)
    (hhalf : settings.halfClose = true) (h : (net.peer s.attempts).Echoes settings) :
    ∃ clock links c, p.Echoed c ∧ clock.cancelAt = none ∧
      s.replayFresh net settings p =
        { s with attempts := s.attempts + 1, links }.record clock c := by
  obtain ⟨⟨now, cancelAt⟩, line, attempts, links, captures, log⟩ := s
  cases hc
  obtain ⟨pause, hpause, hconnect⟩ := h.connect
  obtain ⟨spent, -, hdial⟩ := Network.dial_of_granting now hconnect hpause
  obtain ⟨later, after, hturn⟩ := Link.exchange_of_echoes p.bytes (now + spent) h
  have hturned : turnFresh (net.link attempts) settings p ⟨now + spent, none⟩ =
      ⟨some .closed, p.bytes, ⟨later, none⟩, after⟩ := by
    rw [turnFresh, hhalf]
    exact hturn
  rw [replayFresh_of_verdict hdial (congrArg Turn.verdict hturned), hturned]
  exact ⟨⟨later, none⟩, _, _, ⟨rfl, rfl, rfl, rfl, rfl⟩, rfl, rfl⟩

theorem foldl_replay_of_echoes (total : Nat) (ps : List Payload) (hl : s.line = .fresh)
    (hc : s.clock.cancelAt = none) (hhalf : settings.halfClose = true)
    (h : ∀ i < ps.length, (net.peer (s.attempts + i)).Echoes settings) :
    (ps.foldl (replay net settings total) s).line = .fresh ∧
      ∃ cs, (ps.foldl (replay net settings total) s).captures = s.captures ++ cs ∧
        List.Forall₂ Payload.Echoed ps cs := by
  induction ps generalizing s with
  | nil => exact ⟨hl, [], (List.append_nil _).symm, .nil⟩
  | cons p ps ih =>
    obtain ⟨clock, links, c, hecho, hclock, hstep⟩ :=
      replayFresh_of_echoes p hc hhalf (h 0 (Nat.zero_lt_succ _))
    rw [List.foldl_cons, replay_of_fresh hl (Clock.isCancelled_of_none hc), hstep]
    obtain ⟨hline, cs, hcaptures, hall⟩ :=
      ih (s := { s with attempts := s.attempts + 1, links }.record clock c) hl hclock (by
        intro i hi
        have hnext := h (i + 1) (Nat.succ_lt_succ hi)
        rwa [Nat.add_comm i 1, ← Nat.add_assoc] at hnext)
    refine ⟨hline, c :: cs, ?_, .cons hecho hall⟩
    rw [hcaptures]
    exact List.append_assoc _ _ _

end State

/-- With a connection for each payload that is shut down behind it, every payload comes back whole
and without an error from peers that echo, and the run is over. -/
theorem run_echoed (net : Network) (settings : Settings) (payloads : List Payload)
    (hfresh : settings.freshConnections = true) (hhalf : settings.halfClose = true)
    (h : ∀ i < payloads.length, (net.peer i).Echoes settings) :
    ∃ account, run net settings payloads = some account ∧
      List.Forall₂ Payload.Echoed payloads account.captures := by
  have hstart := State.start_line_of_fresh net hfresh payloads.length none
  obtain ⟨hline, cs, hcaptures, hall⟩ := State.foldl_replay_of_echoes payloads.length payloads
    hstart rfl hhalf (by simpa [State.start] using h)
  have hend : (State.after net settings payloads.length none payloads).line ≠ .stuck :=
    fun hs => Line.noConfusion (hline.symm.trans hs)
  refine ⟨_, run_eq_some_iff.2 ⟨hend, rfl⟩, ?_⟩
  have haccount : (State.after net settings payloads.length none payloads).account.captures =
      [] ++ cs := hcaptures
  rwa [haccount]

/-- An empty payload comes back, and one that is accepted in two parts, with delays that leave
nothing of their timeouts. -/
theorem run_echoed_of_delayed_parts :
    ∃ account,
      run ⟨"peer",
          [{ connect := [.delay 30], read := [.act .awaitShutdown, .act .echo, .act .eof] },
          { connect := [.delay 10, .delay 20], write := [.delay 4, .act 1, .delay 6, .act 100],
            flush := [.act ()], read := [.act .awaitShutdown, .act .echo, .act .eof] }]⟩
        { connectTimeout := .ofMillis 30, readTimeout := .ofMillis 0, writeTimeout := .ofMillis 10,
          halfClose := true } [⟨"a", []⟩, ⟨"b", [66, 67, 68]⟩] = some account ∧
      List.Forall₂ Payload.Echoed [⟨"a", []⟩, ⟨"b", [66, 67, 68]⟩] account.captures := by
  refine run_echoed _ _ _ rfl rfl fun i hi => ?_
  match i, hi with
  | 0, _ =>
    exact ⟨⟨30, by decide, .delay 30 .nil⟩, ⟨0, by decide, .nil⟩, .nil, .nil, rfl⟩
  | 1, _ =>
    exact ⟨⟨30, by decide, .delay 10 (.delay 20 .nil)⟩,
      ⟨10, by decide, .delay 4 (.act (by decide) (.delay 6 (.act (by decide) .nil)))⟩,
      .act trivial .nil, .nil, rfl⟩

end Replay

end WireReplay
