import WireReplay.Proofs.Isolation
import WireReplay.Proofs.Joined
import WireReplay.Proofs.RelayedTurn

/-!
# Fragmentation

How a peer cuts what it delivers into pieces, and in how many pieces it accepts what is written to
it, cannot be told from a run or a relay. Two scripts that differ in such cuts only have the same
joined script, and a run against joined scripts goes as the run does, payload by payload.
-/

namespace WireReplay

def pieces (ps : List Bytes) : List (Step Delivery) := ps.map fun bytes => .act (.data bytes)

/-- Two read lists of which one delivers the same bytes in other pieces than the other. -/
inductive SameDeliveries : List (Step Delivery) → List (Step Delivery) → Prop
  | nil : SameDeliveries [] []
  | cons (step : Step Delivery) {rest rest' : List (Step Delivery)}
      (h : SameDeliveries rest rest') : SameDeliveries (step :: rest) (step :: rest')
  | recut {ps ps' : List Bytes} {rest rest' : List (Step Delivery)}
      (hps : ∀ bytes ∈ ps, bytes ≠ []) (hps' : ∀ bytes ∈ ps', bytes ≠ [])
      (hsame : ps.flatten = ps'.flatten) (h : SameDeliveries rest rest') :
      SameDeliveries (pieces ps ++ rest) (pieces ps' ++ rest')

def OnlyAccepts (steps : List (Step Nat)) : Prop := ∀ step ∈ steps, ∃ n, 0 < n ∧ step = .act n

/-- Two scripts that differ in nothing but cuts. -/
structure PeerScript.Recut (script script' : PeerScript) : Prop where
  connect_eq : script'.connect = script.connect
  write : script'.write = script.write ∨ OnlyAccepts script.write ∧ OnlyAccepts script'.write
  flush_eq : script'.flush = script.flush
  shutdown_eq : script'.shutdown = script.shutdown
  read : SameDeliveries script.read script'.read

structure Network.Recut (net net' : Network) : Prop where
  target_eq : net'.target = net.target
  peers : List.Forall₂ PeerScript.Recut net.peers net'.peers

namespace Link

theorem prepend_nil (steps : List (Step Delivery)) : prepend [] steps = steps := by
  obtain ⟨more, rest, hsteps, h⟩ := exists_leftover steps
  rw [h, hsteps]
  rfl

theorem prepend_prepend (first second : Bytes) (steps : List (Step Delivery)) :
    prepend first (prepend second steps) = prepend (first ++ second) steps := by
  obtain ⟨more, rest, hsteps, h⟩ := exists_leftover steps
  rw [h second, h (first ++ second), List.append_assoc]
  cases hboth : second ++ more with
  | nil =>
    obtain ⟨rfl, rfl⟩ := List.append_eq_nil_iff.1 hboth
    rw [← hsteps, h first]
  | cons byte bytes => rfl

theorem join_pieces {ps : List Bytes} (h : ∀ bytes ∈ ps, bytes ≠ [])
    (rest : List (Step Delivery)) : join (pieces ps ++ rest) = prepend ps.flatten (join rest) := by
  induction ps with
  | nil => exact (prepend_nil _).symm
  | cons bytes ps ih =>
    have hrest := ih fun b hb => h b (List.mem_cons_of_mem _ hb)
    cases bytes with
    | nil => exact absurd rfl (h [] List.mem_cons_self)
    | cons byte bytes =>
      change prepend (byte :: bytes) (join (pieces ps ++ rest)) = _
      rw [hrest, prepend_prepend, List.flatten_cons]

theorem join_cons_congr (step : Step Delivery) {rest rest' : List (Step Delivery)}
    (h : join rest = join rest') : join (step :: rest) = join (step :: rest') := by
  cases step with
  | act answer =>
    cases answer with
    | data bytes =>
      cases bytes with
      | nil => exact congrArg (_ :: ·) h
      | cons byte bytes => exact congrArg (prepend (byte :: bytes)) h
    | _ => exact congrArg (_ :: ·) h
  | _ => exact congrArg (_ :: ·) h

end Link

theorem SameDeliveries.join_eq {steps steps' : List (Step Delivery)}
    (h : SameDeliveries steps steps') : Link.join steps' = Link.join steps := by
  induction h with
  | nil => rfl
  | cons step _ ih => exact Link.join_cons_congr step ih
  | recut hps hps' hsame _ ih => rw [Link.join_pieces hps, Link.join_pieces hps', hsame, ih]

theorem SameDeliveries.cancel_not_mem {steps steps' : List (Step Delivery)}
    (h : SameDeliveries steps steps') (hs : Step.cancel ∉ steps) : Step.cancel ∉ steps' := by
  induction h with
  | nil => exact hs
  | cons step _ ih =>
    rw [List.mem_cons, not_or] at hs ⊢
    exact ⟨hs.1, ih hs.2⟩
  | recut _ _ _ _ ih =>
    rw [List.mem_append, not_or] at hs ⊢
    exact ⟨by simp [pieces], ih hs.2⟩

namespace PeerScript.Recut

variable {script script' : PeerScript}

theorem joined_eq (h : script.Recut script') : script'.joined = script.joined := by
  obtain ⟨connect, write, flush, shutdown, read⟩ := script
  obtain ⟨connect', write', flush', shutdown', read'⟩ := script'
  obtain ⟨rfl, hwrite, rfl, rfl, hread⟩ := h
  have htrim : Link.trim write' = Link.trim write := by
    rcases hwrite with rfl | ⟨hw, hw'⟩
    · rfl
    · rw [Link.trim_eq_nil hw, Link.trim_eq_nil hw']
  simp only [joined, htrim, hread.join_eq]

theorem isCalm (h : script.Recut script') (hs : script.IsCalm) : script'.IsCalm where
  connect := by rw [h.connect_eq]; exact hs.connect
  write := by
    rcases h.write with hw | ⟨_, hw⟩
    · rw [hw]
      exact hs.write
    · intro hm
      obtain ⟨n, _, hn⟩ := hw _ hm
      cases hn
  flush := by rw [h.flush_eq]; exact hs.flush
  shutdown := by rw [h.shutdown_eq]; exact hs.shutdown
  read := h.read.cancel_not_mem hs.read

end PeerScript.Recut

namespace Network

def joined (net : Network) : Network := { net with peers := net.peers.map PeerScript.joined }

theorem Recut.joined_eq {net net' : Network} (h : net.Recut net') : net'.joined = net.joined := by
  obtain ⟨target, peers⟩ := net
  obtain ⟨target', peers'⟩ := net'
  obtain ⟨rfl, hpeers⟩ := h
  refine congrArg (Network.mk target') ?_
  dsimp only at hpeers ⊢
  induction hpeers with
  | nil => rfl
  | cons hfirst _ ih => rw [List.map_cons, List.map_cons, hfirst.joined_eq, ih]

theorem Recut.isCalm {net net' : Network} (h : net.Recut net') (hnet : net.IsCalm) :
    net'.IsCalm := by
  have hall {peers peers' : List PeerScript} (hpeers : List.Forall₂ PeerScript.Recut peers peers')
      (hcalm : ∀ script ∈ peers, script.IsCalm) : ∀ script ∈ peers', script.IsCalm := by
    induction hpeers with
    | nil => exact fun _ hm => absurd hm List.not_mem_nil
    | cons hfirst _ ih =>
      rw [List.forall_mem_cons] at hcalm ⊢
      exact ⟨hfirst.isCalm hcalm.1, ih hcalm.2⟩
  exact hall h.peers hnet

theorem peer_joined (net : Network) (attempt : Nat) :
    net.joined.peer attempt = (net.peer attempt).joined := by
  have hlast : net.joined.peers.getLastD {} = (net.peers.getLastD {}).joined := by
    rw [List.getLastD_eq_getLast?, List.getLastD_eq_getLast?, joined, List.getLast?_map]
    cases net.peers.getLast? with
    | none => rfl
    | some script => rfl
  rw [peer, hlast]
  exact List.getD_map _ _ _

end Network

def Dialed.joined : Dialed → Dialed
  | .opened link => .opened link.joined
  | dialed => dialed

theorem Network.dial_joined (net : Network) (attempt : Nat) (timeout : Duration) (clock : Clock) :
    net.joined.dial attempt timeout clock =
      ((net.dial attempt timeout clock).1.joined, (net.dial attempt timeout clock).2) := by
  have hdialing : net.joined.dialing attempt timeout clock = net.dialing attempt timeout clock := by
    unfold dialing
    rw [peer_joined]
    rfl
  rw [dial_eq, dial_eq, hdialing]
  unfold dialed
  rw [peer_joined]
  cases (net.dialing attempt timeout clock).ending <;> rfl

theorem Link.map_observed_joined (links : List Link) :
    (links.map Link.joined).map Link.observed = links.map Link.observed := by
  rw [List.map_map]
  rfl

namespace Replay

def Line.joined : Line → Line
  | .shared link => .shared link.joined
  | line => line

def State.joined (s : State) : State :=
  { s with line := s.line.joined, links := s.links.map Link.joined }

namespace State

variable {net : Network} {settings : Settings} {total started : Nat} {s : State} {p : Payload}

theorem dial_joined {dialed : Dialed} {later : Clock}
    (hd : net.dial s.attempts settings.connectTimeout s.clock = (dialed, later)) :
    net.joined.dial s.joined.attempts settings.connectTimeout s.joined.clock =
      (dialed.joined, later) :=
  (net.dial_joined s.attempts settings.connectTimeout s.clock).trans (by rw [hd])

theorem closed_joined (s : State) (link : Link) :
    { s.joined with
      attempts := s.joined.attempts + 1
      links := s.joined.links ++ [link.joined.close] } =
    { s with
      attempts := s.attempts + 1
      links := s.links ++ [link.close] }.joined := by
  simp only [joined, List.map_append, List.map_cons, List.map_nil]
  rfl

theorem lineAfter_joined (verdict : Verdict) (reason : String) :
    (lineAfter verdict reason).joined = lineAfter verdict reason := by
  unfold lineAfter
  split <;> rfl

theorem replayFresh_joined (hnet : net.IsCalm) (hc : s.clock.cancelAt = none) :
    s.joined.replayFresh net.joined settings p = (s.replayFresh net settings p).joined := by
  rcases hd : net.dial s.attempts settings.connectTimeout s.clock with ⟨dialed, later⟩
  have hdial := dial_joined hd
  cases dialed with
  | never =>
    rw [replayFresh_of_never hd, replayFresh_of_never hdial]
    rfl
  | refused verdict =>
    rw [replayFresh_of_refused hd, replayFresh_of_refused hdial]
    rfl
  | opened link =>
    have hturn : turnFresh link.joined settings p later =
        (turnFresh link settings p later).joined :=
      Link.exchange_joined _ _ _ (Network.isCalm_of_opened hnet hd)
        ((Network.cancelAt_of_dial hnet hd).trans hc)
    cases hv : (turnFresh link settings p later).verdict with
    | none =>
      rw [replayFresh_of_no_verdict hd hv,
        replayFresh_of_no_verdict hdial (by rw [hturn]; exact hv), hturn]
      dsimp only [Turn.joined]
      rw [closed_joined]
      rfl
    | some verdict =>
      rw [replayFresh_of_verdict hd hv, replayFresh_of_verdict hdial (by rw [hturn]; exact hv),
        hturn]
      dsimp only [Turn.joined]
      rw [closed_joined]
      rfl

theorem replayShared_joined {link : Link} (hlink : link.script.IsCalm)
    (hc : s.clock.cancelAt = none) :
    s.joined.replayShared net.joined settings total link.joined started p =
      (s.replayShared net settings total link started p).joined := by
  have hcan := Clock.isCancelled_of_none hc
  have hturn : turnShared link.joined settings p s.joined.clock =
      (turnShared link settings p s.clock).joined :=
    Link.exchange_joined _ _ _ hlink hc
  cases hv : (turnShared link settings p s.clock).verdict with
  | none =>
    rw [replayShared_of_no_verdict hcan hv,
      replayShared_of_no_verdict (by exact hcan) (by rw [hturn]; exact hv), hturn]
    rfl
  | some verdict =>
    by_cases hs : verdict = .silent
    · subst hs
      rw [replayShared_of_silent hcan hv,
        replayShared_of_silent (by exact hcan) (by rw [hturn]; exact hv), hturn]
      rfl
    · rw [replayShared_of_ended hcan hv hs,
        replayShared_of_ended (by exact hcan) (by rw [hturn]; exact hv) hs, hturn]
      simp only [joined, lineAfter_joined, List.map_append, List.map_cons, List.map_nil]
      rfl

theorem replayFirst_joined (hnet : net.IsCalm) (hc : s.clock.cancelAt = none) :
    s.joined.replayFirst net.joined settings total p =
      (s.replayFirst net settings total p).joined := by
  rcases hd : net.dial s.attempts settings.connectTimeout s.clock with ⟨dialed, later⟩
  have hdial := dial_joined hd
  cases dialed with
  | never =>
    rw [replayFirst_of_never hd, replayFirst_of_never hdial]
    rfl
  | refused verdict =>
    rw [replayFirst_of_refused hd, replayFirst_of_refused hdial]
    simp only [joined, lineAfter_joined]
    rfl
  | opened link =>
    rw [replayFirst_of_opened hd, replayFirst_of_opened hdial]
    exact replayShared_joined (s := { s with attempts := s.attempts + 1, clock := later })
      (Network.isCalm_of_opened hnet hd) ((Network.cancelAt_of_dial hnet hd).trans hc)

theorem replay_joined (hnet : net.IsCalm) (h : s.IsCalm) (settings : Settings) (total : Nat)
    (p : Payload) :
    replay net.joined settings total s.joined p = (replay net settings total s p).joined := by
  have hcan := h.isCancelled_eq
  cases hl : s.line with
  | stuck =>
    have hl' : s.joined.line = .stuck := by rw [joined, hl]; rfl
    rw [replay_of_stuck hl, replay_of_stuck hl']
  | lost outcome reason =>
    have hl' : s.joined.line = .lost outcome reason := by rw [joined, hl]; rfl
    rw [replay_of_lost hl, replay_of_lost hl']
    rfl
  | fresh =>
    have hl' : s.joined.line = .fresh := by rw [joined, hl]; rfl
    rw [replay_of_fresh hl hcan, replay_of_fresh hl' hcan]
    exact replayFresh_joined hnet h.cancelAt_eq
  | unopened =>
    have hl' : s.joined.line = .unopened := by rw [joined, hl]; rfl
    rw [replay_of_unopened hl hcan, replay_of_unopened hl' hcan]
    exact replayFirst_joined hnet h.cancelAt_eq
  | shared link =>
    have hl' : s.joined.line = .shared link.joined := by rw [joined, hl]; rfl
    rw [replay_of_shared hl, replay_of_shared hl']
    exact replayShared_joined (h.link link hl) h.cancelAt_eq

theorem foldl_replay_joined (hnet : net.IsCalm) (settings : Settings) (total : Nat)
    (ps : List Payload) (h : s.IsCalm) :
    ps.foldl (replay net.joined settings total) s.joined =
      (ps.foldl (replay net settings total) s).joined := by
  induction ps generalizing s with
  | nil => rfl
  | cons p ps ih =>
    rw [List.foldl_cons, List.foldl_cons, replay_joined hnet h]
    exact ih (replay_isCalm hnet h)

theorem start_joined (net : Network) (settings : Settings) (total : Nat) :
    start net.joined settings total none = (start net settings total none).joined := by
  unfold start joined
  cases settings.freshConnections <;> rfl

end State

/-- What can be observed of a run: all but what the peers had still to answer. -/
def Account.observed (account : Account) : Account :=
  { account with links := account.links.map Link.observed }

theorem State.line_joined_eq_stuck_iff (s : State) : s.joined.line = .stuck ↔ s.line = .stuck := by
  unfold joined
  cases s.line <;> simp [Line.joined]

theorem State.account_joined (s : State) : s.joined.account.observed = s.account.observed := by
  have hlinks : s.joined.close.links.map Link.observed = s.close.links.map Link.observed := by
    obtain ⟨clock, line, attempts, links, captures, log⟩ := s
    cases line with
    | shared link =>
      simp only [joined, close, Line.joined, List.map_append, Link.map_observed_joined]
      rfl
    | _ => exact Link.map_observed_joined links
  unfold account Account.observed
  rw [hlinks]
  rfl

theorem run_joined (net : Network) (settings : Settings) (payloads : List Payload)
    (hnet : net.IsCalm) :
    (run net.joined settings payloads).map Account.observed =
      (run net settings payloads).map Account.observed := by
  have hafter : State.after net.joined settings payloads.length none payloads =
      (State.after net settings payloads.length none payloads).joined := by
    unfold State.after
    rw [State.start_joined]
    exact State.foldl_replay_joined hnet settings payloads.length payloads
      (State.start_isCalm net settings payloads.length)
  have hline := State.line_joined_eq_stuck_iff
    (State.after net settings payloads.length none payloads)
  rw [← hafter] at hline
  by_cases hstuck : (State.after net settings payloads.length none payloads).line = .stuck
  · rw [run_of_stuck hstuck, run_of_stuck (hline.2 hstuck)]
  · have hrun : run net settings payloads = some _ := run_eq_some_iff.2 ⟨hstuck, rfl⟩
    have hjoined : run net.joined settings payloads = some _ :=
      run_eq_some_iff.2 ⟨fun h => hstuck (hline.1 h), rfl⟩
    rw [hrun, hjoined, hafter]
    exact congrArg some (State.account_joined _)

end Replay

namespace Relay

/-- Two relays that come to the same, the second one with the link that `f` makes of the peer. -/
structure SameCourse (f : Link → Link) (r r' : Finish × State) : Prop where
  finish_eq : r'.1 = r.1
  clock_eq : r'.2.clock = r.2.clock
  peer_eq : r'.2.peer = f r.2.peer
  written_eq : r'.2.output.written = r.2.output.written

theorem SameCourse.trans {f : Link → Link} {r r' r'' : Finish × State} (h : SameCourse f r r')
    (h' : SameCourse id r' r'') : SameCourse f r r'' where
  finish_eq := h'.finish_eq.trans h.finish_eq
  clock_eq := h'.clock_eq.trans h.clock_eq
  peer_eq := h'.peer_eq.trans h.peer_eq
  written_eq := h'.written_eq.trans h.written_eq

namespace State

variable {link output output' : Link} {clock : Clock} {received : Nat}

theorem pump_output (sent : Nat) (idle : Option Duration)
    (h : output.script.AcceptsAtOnce) (h' : output'.script.AcceptsAtOnce)
    (hw : output'.written = output.written) :
    SameCourse id ((State.mk clock link output received).pump sent idle)
      ((State.mk clock link output' received).pump sent idle) := by
  induction hn : link.backlog using Nat.strongRecOn
    generalizing link output output' clock received with
  | ind n ih =>
    rcases link.deliver_cases (limit idle clock) clock with ⟨bytes, later, peer, hb, hd⟩ | hover
    · have hlt := Link.backlog_lt_of_delivered hb hd
      obtain ⟨next, hpump, hnext, hwritten⟩ := pump_of_delivered sent received hb h hd
      obtain ⟨next', hpump', hnext', hwritten'⟩ := pump_of_delivered sent received hb h' hd
      rw [hpump, hpump']
      exact ih _ (hn ▸ hlt) hnext hnext' (by rw [hwritten, hwritten', hw]) rfl
    · rw [pump_of_not_delivered sent idle hover, pump_of_not_delivered sent idle hover]
      exact ⟨rfl, rfl, rfl, hw⟩

/-- A pump on a joined link, which may get more with a delivery, passes on the same. -/
theorem pump_joined (sent : Nat) (idle : Option Duration)
    (h : output.script.AcceptsAtOnce) (h' : output'.script.AcceptsAtOnce)
    (hw : output'.written = output.written) :
    SameCourse Link.joined ((State.mk clock link output received).pump sent idle)
      ((State.mk clock link.joined output' received).pump sent idle) := by
  induction hn : link.backlog using Nat.strongRecOn
    generalizing link output output' clock received with
  | ind n ih =>
    rcases Link.deliver_joined link (limit idle clock) clock with
      ⟨bytes, more, later, after, after', hb, hlink, hjoined, hafter⟩ | ⟨hover, hjoined⟩
    · have hboth : bytes ++ more ≠ [] := fun h => hb (List.append_eq_nil_iff.1 h).1
      have hlt := Link.backlog_lt_of_delivered hb hlink
      have htook : (after.took bytes).joined = (after'.took bytes).pending more :=
        congrArg (Link.took · bytes) hafter
      obtain ⟨next, hpump, hnext, hwritten⟩ := pump_of_delivered sent received hb h hlink
      obtain ⟨next', hpump', hnext', hwritten'⟩ :=
        pump_of_delivered sent received hboth h' hjoined
      have hrest := @ih _ (hn ▸ hlt) (after.took bytes) next next later (received + bytes.length)
        hnext hnext rfl rfl
      obtain ⟨last, hpending, hlast, hall⟩ := pump_pending (after'.took bytes) later next
        (received + bytes.length) sent idle more hnext
      rw [htook, hpending, Link.took_took, Nat.add_assoc, ← List.length_append] at hrest
      rw [hpump, hpump']
      refine hrest.trans (pump_output sent idle hlast hnext' ?_)
      rw [hwritten', hall, hwritten, hw, List.append_assoc]
    · rw [pump_of_not_delivered sent idle hover,
        pump_of_not_delivered sent idle (by rw [hjoined]; exact hover), hjoined]
      exact ⟨rfl, rfl, rfl, hw⟩

theorem relay_joined (data : Bytes) (settings : Settings)
    (h : output.script.AcceptsAtOnce) (h' : output'.script.AcceptsAtOnce)
    (hw : output'.written = output.written) :
    SameCourse Link.joined ((State.mk clock link output 0).relay data settings)
      ((State.mk clock link.joined output' 0).relay data settings) := by
  have hsend := Link.send_joined link data settings.halfClose (limit settings.writeTimeout clock)
    clock
  rcases hs : link.send data settings.halfClose (limit settings.writeTimeout clock) clock with
    ⟨ending, later, peer⟩
  rw [hs] at hsend
  by_cases hd : ending = .done ()
  · subst hd
    rw [relay_of_sent (s := ⟨clock, link, output, 0⟩) hs,
      relay_of_sent (s := ⟨clock, link.joined, output', 0⟩) hsend]
    exact pump_joined data.length settings.idleTimeout h h' hw
  · rw [relay_of_unsent (s := ⟨clock, link, output, 0⟩) hd hs,
      relay_of_unsent (s := ⟨clock, link.joined, output', 0⟩) hd hsend]
    exact ⟨rfl, rfl, rfl, hw⟩

end State

/-- Two relays that cannot be told from one another. -/
structure Alike (r r' : Finish × State) : Prop where
  finish_eq : r'.1 = r.1
  output_eq : r'.2.output.written = r.2.output.written
  peer_eq : r'.2.peer.observed = r.2.peer.observed
  clock_eq : r'.2.clock = r.2.clock

theorem relay_recut {peer peer' output output' : PeerScript} (hpeer : peer.Recut peer')
    (h : output.AcceptsAtOnce) (h' : output'.AcceptsAtOnce) (data : Bytes) (settings : Settings) :
    Alike (relay peer output data settings) (relay peer' output' data settings) := by
  have hlink : ({ script := peer' } : Link).joined = ({ script := peer } : Link).joined :=
    congrArg (fun script => ({ script } : Link)) hpeer.joined_eq
  have hfirst : SameCourse Link.joined (relay peer output data settings)
      ((State.mk {} ({ script := peer } : Link).joined { script := output } 0).relay data
        settings) :=
    State.relay_joined data settings h h rfl
  have hsecond : SameCourse Link.joined (relay peer' output' data settings)
      ((State.mk {} ({ script := peer } : Link).joined { script := output } 0).relay data
        settings) := by
    rw [← hlink]
    exact State.relay_joined data settings h' h rfl
  constructor
  case finish_eq => exact hsecond.finish_eq.symm.trans hfirst.finish_eq
  case output_eq => exact hsecond.written_eq.symm.trans hfirst.written_eq
  case peer_eq =>
    have hsame := hsecond.peer_eq.symm.trans hfirst.peer_eq
    calc (relay peer' output' data settings).2.peer.observed
      _ = (relay peer' output' data settings).2.peer.joined.observed := rfl
      _ = (relay peer output data settings).2.peer.joined.observed := by rw [hsame]
  case clock_eq => exact hsecond.clock_eq.symm.trans hfirst.clock_eq

end Relay

namespace Replay

/-- Cuts cannot be noticed: neither a run that nothing cancels nor a relay to an output that accepts
at once can be told from one with a peer that differs in cuts only. -/
theorem recut_unnoticed :
    (∀ (net net' : Network) (settings : Settings) (payloads : List Payload),
      net.Recut net' → net.IsCalm →
        (run net' settings payloads).map Account.observed =
          (run net settings payloads).map Account.observed) ∧
    ∀ (peer peer' output output' : PeerScript) (data : Bytes) (settings : Relay.Settings),
      peer.Recut peer' → output.AcceptsAtOnce → output'.AcceptsAtOnce →
        Relay.Alike (relay peer output data settings) (relay peer' output' data settings) := by
  constructor
  · intro net net' settings payloads hrecut hnet
    rw [← run_joined net settings payloads hnet,
      ← run_joined net' settings payloads (hrecut.isCalm hnet), hrecut.joined_eq]
  · intro peer peer' output output' data settings hpeer h h'
    exact Relay.relay_recut hpeer h h' data settings

/-- A reply in one piece and in two, and a write that is accepted at once and byte by byte. -/
theorem recut_unnoticed_of_two_pieces :
    ∃ account account',
      run ⟨"peer", [{
          read := [.act (.data [1, 2, 3]), .delay 3000, .act (.data [4]), .act .eof] }]⟩
        { freshConnections := false } [⟨"a", [65, 66]⟩, ⟨"b", [67]⟩] = some account ∧
      run ⟨"peer", [{
          write := [.act 1, .act 1]
          read := [.act (.data [1]), .act (.data [2, 3]), .delay 3000, .act (.data [4]),
            .act .eof] }]⟩
        { freshConnections := false } [⟨"a", [65, 66]⟩, ⟨"b", [67]⟩] = some account' ∧
      account.captures.map (fun c => (c.outcome, c.received)) =
        [(.timeout, [1, 2, 3]), (.ok, [4])] ∧
      account'.observed = account.observed ∧
      Relay.Alike
        (relay { read := [.act (.data [1, 2, 3]), .delay 3000, .act (.data [4]), .act .eof] } {}
          [65, 66] { idleTimeout := none })
        (relay
          { write := [.act 1, .act 1]
            read := [.act (.data [1]), .act (.data [2, 3]), .delay 3000, .act (.data [4]),
              .act .eof] }
          { write := [.act 2] } [65, 66] { idleTimeout := none }) := by
  have hread : SameDeliveries
      [.act (.data [1, 2, 3]), .delay 3000, .act (.data [4]), .act .eof]
      [.act (.data [1]), .act (.data [2, 3]), .delay 3000, .act (.data [4]), .act .eof] :=
    @SameDeliveries.recut [[1, 2, 3]] [[1], [2, 3]] _ _ (by simp) (by simp) rfl
      (.cons (.delay 3000) (.cons (.act (.data [4])) (.cons (.act .eof) .nil)))
  have hrecut : PeerScript.Recut
      { read := [.act (.data [1, 2, 3]), .delay 3000, .act (.data [4]), .act .eof] }
      { write := [.act 1, .act 1]
        read := [.act (.data [1]), .act (.data [2, 3]), .delay 3000, .act (.data [4]),
          .act .eof] } :=
    ⟨rfl, .inr ⟨by simp [OnlyAccepts], by simp [OnlyAccepts]⟩, rfl, rfl, hread⟩
  have hcalm : Network.IsCalm ⟨"peer", [{
      read := [.act (.data [1, 2, 3]), .delay 3000, .act (.data [4]), .act .eof] }]⟩ := by
    intro script hm
    obtain rfl := List.mem_singleton.1 hm
    constructor <;> simp
  have hrun : (run ⟨"peer", [{
        read := [.act (.data [1, 2, 3]), .delay 3000, .act (.data [4]), .act .eof] }]⟩
        { freshConnections := false } [⟨"a", [65, 66]⟩, ⟨"b", [67]⟩]).map
      (fun account => account.captures.map fun c => (c.outcome, c.received)) =
      some [(.timeout, [1, 2, 3]), (.ok, [4])] := by
    decide +kernel
  obtain ⟨account, haccount, hcaptures⟩ := Option.map_eq_some_iff.1 hrun
  have hnet : Network.Recut ⟨"peer", [_]⟩ ⟨"peer", [_]⟩ := ⟨by rfl, .cons hrecut .nil⟩
  have hsame := recut_unnoticed.1 _ _ { freshConnections := false }
    [⟨"a", [65, 66]⟩, ⟨"b", [67]⟩] hnet hcalm
  rw [haccount] at hsame
  obtain ⟨account', haccount', hobserved⟩ := Option.map_eq_some_iff.1 hsame
  refine ⟨account, account', haccount, haccount', hcaptures, hobserved,
    recut_unnoticed.2 _ _ _ _ _ _ hrecut ?_ ?_⟩
  · constructor <;> simp
  · constructor <;> simp

end Replay

end WireReplay
