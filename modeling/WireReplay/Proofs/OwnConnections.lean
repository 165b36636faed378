import WireReplay.Proofs.Isolation
import WireReplay.Proofs.Ledger

/-!
# A connection for each payload

Where each payload has a connection of its own, none is open between two payloads: the connection
is given up at the end of the turn, however that ends. The turns go on until the run is seen to be
cancelled. What is cancelled in its turn makes the clock show it, so at most one payload is
cancelled behind an attempt to connect, and behind it there are no attempts any more.
-/

namespace WireReplay

theorem Clock.isCancelled_of_wait {clock : Clock} {limit : Limit} {ready : Option Nat}
    (h : (clock.wait limit ready).1 = .cancelled) :
    (clock.wait limit ready).2.isCancelled = true := by
  unfold wait at h ⊢
  split_ifs at h ⊢ with hready hover hcancel
  · cases hk : clock.heeded limit with
    | none => rw [hk] at hcancel; simp at hcancel
    | some k =>
      have hmoment : clock.cancelAt = some k := by
        unfold heeded at hk
        split_ifs at hk
        exact hk
      simp only [advance, isCancelled, hmoment, Option.getD_some, Option.any_some,
        decide_eq_true_eq]
      omega
  · cases hl : limit.deadline with
    | none => rw [hl] at h; cases ready <;> cases h
    | some deadline =>
      rw [hl] at h
      cases ready with
      | none => cases h
      | some moment =>
        dsimp only at h
        split_ifs at h

namespace Call

variable {σ α β : Type} {call : Call σ α β} {limit : Limit} {clock : Clock} {state : σ}

theorem isCancelled_of_sleep {ready : Option Nat} {left : List (Step α)}
    {onward : Clock → Settled σ α β}
    (hon : ∀ later, (onward later).ending = .cancelled → (onward later).clock.isCancelled = true)
    (h : (sleep limit ready clock state left onward).ending = .cancelled) :
    (sleep limit ready clock state left onward).clock.isCancelled = true := by
  have hw : (clock.wait limit ready).1 = .cancelled →
      (clock.wait limit ready).2.isCancelled = true := Clock.isCancelled_of_wait
  unfold sleep at h ⊢
  generalize clock.wait limit ready = waited at h hw ⊢
  obtain ⟨wake, later⟩ := waited
  cases wake with
  | ready => exact hon later h
  | cancelled => exact hw rfl
  | timedOut => cases h
  | never => cases h

theorem isCancelled_of_block {left : List (Step α)}
    (h : (block limit clock state left : Settled σ α β).ending = .cancelled) :
    (block limit clock state left : Settled σ α β).clock.isCancelled = true :=
  isCancelled_of_sleep (fun _ hnever => by cases hnever) h

theorem isCancelled_of_run (call : Call σ α β) (limit : Limit) (clock : Clock) (state : σ)
    (steps : List (Step α)) (h : (call.run limit clock state steps).ending = .cancelled) :
    (call.run limit clock state steps).clock.isCancelled = true := by
  induction steps generalizing clock state with
  | nil =>
    rw [run] at h ⊢
    split at h
    · cases h
    · exact isCancelled_of_block h
  | cons step rest ih =>
    cases step with
    | delay ms => exact isCancelled_of_sleep (fun later => ih later state) h
    | notBefore moment => exact isCancelled_of_sleep (fun later => ih later state) h
    | cancel => exact ih clock.cancel state h
    | hang => exact isCancelled_of_block h
    | error fault =>
      rw [run] at h ⊢
      split_ifs at h ⊢
      exact ih clock state h
    | act answer =>
      cases hr : call.reply state answer with
      | pass next => rw [run_act_pass hr] at h ⊢; exact ih clock next h
      | block => rw [run_act_block hr] at h ⊢; exact isCancelled_of_block h
      | fail fault next => rw [run_act_fail hr] at h; cases h
      | done value next front => rw [run_act_done hr] at h; cases h

end Call

namespace Link

variable {link : Link} {limit : Limit} {clock : Clock}

theorem isCancelled_of_send (data : Bytes) (halfClose : Bool)
    (h : (link.send data halfClose limit clock).ending = .cancelled) :
    (link.send data halfClose limit clock).clock.isCancelled = true := by
  revert h
  refine send_cases (P := fun m => m.ending = .cancelled → m.clock.isCancelled = true) ?_ ?_ ?_
  · intro _ h
    cases data with
    | nil => cases h
    | cons byte bytes => exact Call.isCancelled_of_run _ _ _ _ _ h
  · intro w _ _ _ h
    exact Call.isCancelled_of_run _ _ _ _ _ h
  · intro w f _ _ _ _ h
    cases halfClose with
    | false => cases h
    | true => exact Call.isCancelled_of_run signalling _ _ _ _ h

theorem isCancelled_of_capture (link : Link) (timeout : Duration) (clock : Clock)
    (received : Bytes)
    (h : (link.capture timeout clock received).verdict = some .cancelled) :
    (link.capture timeout clock received).clock.isCancelled = true := by
  revert h
  apply capture_induction timeout (P := fun _ _ _ turn =>
    turn.verdict = some .cancelled → turn.clock.isCancelled = true)
  · exact fun _ _ _ hc _ => hc
  · intro link clock received _ _ hv
    apply Call.isCancelled_of_run
    change (link.readNext timeout clock).ending = .cancelled
    generalize (link.readNext timeout clock).ending = ending at hv
    cases ending <;> simp_all [Ending.lastVerdict]
  · exact fun _ _ _ _ _ _ _ _ ih => ih

theorem isCancelled_of_exchange {data : Bytes} {settings : Replay.Settings} {halfClose : Bool}
    (h : (link.exchange data settings halfClose clock).verdict = some .cancelled) :
    (link.exchange data settings halfClose clock).clock.isCancelled = true := by
  cases hc : clock.isCancelled with
  | true =>
    rw [exchange_of_cancelled data settings halfClose hc]
    exact hc
  | false =>
    by_cases hs : (link.sendAll data settings halfClose clock).ending = .done ()
    · rw [exchange_of_sent hc hs] at h ⊢
      exact isCancelled_of_capture _ _ _ _ h
    · rw [exchange_of_unsent hc hs] at h ⊢
      apply isCancelled_of_send
      change (link.sendAll data settings halfClose clock).ending = .cancelled
      generalize (link.sendAll data settings halfClose clock).ending = ending at h
      cases ending <;> simp_all [Ending.unsentVerdict]

end Link

theorem Network.isCancelled_of_refused {net : Network} {attempt : Nat} {timeout : Duration}
    {clock later : Clock} (hd : net.dial attempt timeout clock = (.refused .cancelled, later)) :
    later.isCancelled = true := by
  rw [← clock_of_dial hd]
  apply Call.isCancelled_of_run
  rw [dial_eq] at hd
  have hdialed := congrArg Prod.fst hd
  change (net.dialing attempt timeout clock).ending = .cancelled
  generalize (net.dialing attempt timeout clock).ending = ending at hdialed
  cases ending <;> simp_all [dialed]

theorem Verdict.outcome_eq_cancelled_iff {verdict : Verdict} :
    verdict.outcome = .cancelled ↔ verdict = .cancelled := by
  cases verdict <;> simp [outcome]

/-- The payload had its turn to the end. -/
def Outcome.IsCompleted (o : Outcome) : Prop := o = .ok ∨ o = .timeout ∨ o = .ioError

theorem Verdict.isCompleted {verdict : Verdict} (h : verdict ≠ .cancelled) :
    verdict.outcome.IsCompleted := by
  cases verdict <;> simp_all [outcome, Outcome.IsCompleted]

namespace Replay

namespace Visit

def closedLink (settings : Settings) (v : Visit) : Link := (v.turn settings).link.close

end Visit

/-- The connections of the payloads that made a visit, each given up behind its only payload. -/
def closings (settings : Settings) (vs : List (Option Visit)) : List Link :=
  vs.filterMap fun visit => visit.map (·.closedLink settings)

theorem isClosed_of_mem_closings {settings : Settings} {vs : List (Option Visit)} {link : Link}
    (h : link ∈ closings settings vs) : link.isClosed = true := by
  obtain ⟨visit, _, hv⟩ := List.mem_filterMap.1 h
  obtain ⟨v, _, rfl⟩ := Option.map_eq_some_iff.1 hv
  rfl

namespace State

variable {net : Network} {settings : Settings} {total : Nat} {s : State} {p : Payload}

/-- One payload in its turn: one attempt, one capture that tells whether the clock shows a
cancellation in the end, and what was opened is closed. -/
structure Turned (net : Network) (settings : Settings) (s : State) (p : Payload) (after : State) :
    Prop where
  attempts_eq : after.attempts = s.attempts + 1
  links_eq : after.links = s.links ++ closings settings [s.visit net settings p]
  captured : after.line = .stuck ∨ ∃ c, after.captures = s.captures ++ [c] ∧
    (c.outcome.IsCompleted ∨ c.outcome = .cancelled ∧ after.clock.isCancelled = true)

theorem captured_cases (verdict : Verdict) (received : Bytes) (elapsed : Duration) {clock : Clock}
    (h : verdict = .cancelled → clock.isCancelled = true) :
    (p.captured verdict received elapsed).outcome.IsCompleted ∨
      (p.captured verdict received elapsed).outcome = .cancelled ∧ clock.isCancelled = true := by
  by_cases hv : verdict = .cancelled
  · exact .inr ⟨Verdict.outcome_eq_cancelled_iff.2 hv, h hv⟩
  · exact .inl (Verdict.isCompleted hv)

theorem visit_of_not_opened (hl : s.line = .fresh)
    (hd : ∀ link, (net.dial s.attempts settings.connectTimeout s.clock).1 ≠ .opened link) :
    s.visit net settings p = none := by
  unfold visit
  rcases hdial : net.dial s.attempts settings.connectTimeout s.clock with ⟨dialed, clock⟩
  rw [hdial] at hd
  cases dialed with
  | opened link => exact absurd rfl (hd link)
  | _ => simp only [hl, ite_self]

theorem visit_of_opened {link : Link} {clock : Clock} (hl : s.line = .fresh)
    (hc : s.clock.isCancelled = false)
    (hd : net.dial s.attempts settings.connectTimeout s.clock = (.opened link, clock)) :
    s.visit net settings p = some ⟨p, s.links.length, link, clock, settings.halfClose⟩ := by
  simp only [visit, hl, hc, hd, Bool.false_eq_true, if_false]

theorem replayFresh_turned (hl : s.line = .fresh) (hc : s.clock.isCancelled = false) :
    Turned net settings s p (s.replayFresh net settings p) := by
  have hmiss (hv : s.visit net settings p = none) :
      s.links = s.links ++ closings settings [s.visit net settings p] := by
    rw [hv]
    exact (List.append_nil _).symm
  refine replayFresh_cases ?_ ?_ ?_ ?_
  · intro clock hd
    exact ⟨rfl, hmiss (visit_of_not_opened hl (by simp [hd])), .inl rfl⟩
  · intro verdict clock hd
    refine ⟨rfl, hmiss (visit_of_not_opened hl (by simp [hd])), .inr ⟨_, rfl, ?_⟩⟩
    apply captured_cases
    rintro rfl
    exact Network.isCancelled_of_refused hd
  · intro link clock hd _
    refine ⟨rfl, ?_, .inl rfl⟩
    rw [visit_of_opened hl hc hd]
    rfl
  · intro link clock verdict hd hv
    refine ⟨rfl, ?_, .inr ⟨_, rfl, ?_⟩⟩
    · rw [visit_of_opened hl hc hd]
      rfl
    · apply captured_cases
      rintro rfl
      exact Link.isCancelled_of_exchange hv

theorem visit_of_cancelled (hc : s.clock.isCancelled = true) : s.visit net settings p = none := by
  rw [visit, if_pos hc]

theorem visit_of_stuck (hl : s.line = .stuck) : s.visit net settings p = none := by
  simp only [visit, hl, ite_self]

theorem closings_cons (visit : Option Visit) (vs : List (Option Visit)) :
    closings settings (visit :: vs) = closings settings [visit] ++ closings settings vs :=
  List.filterMap_append (l := [visit])

theorem foldl_replay_links (net : Network) (settings : Settings) (total : Nat)
    (ps : List Payload) (s : State) (hs : s.IsFresh) :
    (ps.foldl (replay net settings total) s).links =
      s.links ++ closings settings (s.visits net settings total ps) := by
  induction ps generalizing s with
  | nil => exact (List.append_nil _).symm
  | cons p ps ih =>
    have hone : (replay net settings total s p).links =
        s.links ++ closings settings [s.visit net settings p] := by
      rcases hs with hl | hl
      · cases hc : s.clock.isCancelled with
        | true =>
          rw [replay_of_cancelled (by rw [hl]; rfl) hc, visit_of_cancelled hc]
          exact (List.append_nil _).symm
        | false =>
          rw [replay_of_fresh hl hc]
          exact (replayFresh_turned hl hc).links_eq
      · rw [replay_of_stuck hl, visit_of_stuck hl]
        exact (List.append_nil _).symm
    rw [List.foldl_cons, ih _ hs.replay, hone, List.append_assoc]
    exact congrArg (s.links ++ ·) (closings_cons _ _).symm

/-- The captures that the payloads `ps` add: those of the payloads that had their turn to the end,
and behind them the cancelled ones, of which only the first may have been in its turn. There is one
attempt to connect for each of the former, and one more if a payload was cancelled in its turn. -/
structure Stops (net : Network) (settings : Settings) (total : Nat) (s : State)
    (ps : List Payload) (completed cancelled : List Capture) : Prop where
  captures_eq : (ps.foldl (replay net settings total) s).captures =
    s.captures ++ (completed ++ cancelled)
  isCompleted : ∀ c ∈ completed, c.outcome.IsCompleted
  isCancelled : ∀ c ∈ cancelled, c.outcome = .cancelled
  received_eq : ∀ c ∈ cancelled.tail, c.received = []
  attempts_eq : (ps.foldl (replay net settings total) s).attempts = s.attempts + completed.length +
    if cancelled ≠ [] ∧ ((ps.take completed.length).foldl (replay net settings total)
      s).clock.isCancelled = false then 1 else 0

theorem outcome_of_mem_skipped {ps : List Payload} {outcome : Outcome} {reason : String}
    {c : Capture} (h : c ∈ ps.map (·.skipped outcome reason)) :
    c.outcome = outcome ∧ c.received = [] := by
  obtain ⟨p, _, rfl⟩ := List.mem_map.1 h
  exact ⟨rfl, rfl⟩

theorem stops_of_cancelled (ps : List Payload) (hl : s.line = .fresh)
    (hc : s.clock.isCancelled = true) :
    Stops net settings total s ps [] (ps.map (·.skipped .cancelled cancelledReason)) := by
  have hall : ps.foldl (replay net settings total) s = _ :=
    foldl_replay_of_cancelled ps s (by rw [hl]; rfl) hc
  constructor
  case captures_eq => rw [hall]; rfl
  case isCompleted => exact fun c hm => absurd hm List.not_mem_nil
  case isCancelled => exact fun c hm => (outcome_of_mem_skipped hm).1
  case received_eq => exact fun c hm => (outcome_of_mem_skipped (List.mem_of_mem_tail hm)).2
  case attempts_eq => rw [hall, if_neg (by simp [hc])]; rfl

theorem foldl_replay_stops (ps : List Payload) (s : State) (hl : s.line = .fresh)
    (hend : (ps.foldl (replay net settings total) s).line ≠ .stuck) :
    ∃ completed cancelled, Stops net settings total s ps completed cancelled := by
  induction ps generalizing s with
  | nil => exact ⟨[], [], by constructor <;> simp⟩
  | cons p ps ih =>
    cases hc : s.clock.isCancelled with
    | true => exact ⟨[], _, stops_of_cancelled (p :: ps) hl hc⟩
    | false =>
      have hreplay : replay net settings total s p = s.replayFresh net settings p :=
        replay_of_fresh hl hc
      have hturned : Turned net settings s p (s.replayFresh net settings p) :=
        replayFresh_turned hl hc
      rw [List.foldl_cons, hreplay] at hend
      have hstuck : (s.replayFresh net settings p).line ≠ .stuck :=
        fun hs => hend (by rw [foldl_replay_of_stuck ps _ hs, hs])
      have hfresh : (s.replayFresh net settings p).line = .fresh :=
        (replayFresh_isFresh hl).resolve_right hstuck
      obtain ⟨c, hcaptures, ho | ⟨ho, hlater⟩⟩ := hturned.captured.resolve_left hstuck
      · obtain ⟨completed, cancelled, h⟩ := ih _ hfresh hend
        refine ⟨c :: completed, cancelled, ?_, ?_, h.isCancelled, h.received_eq, ?_⟩
        · rw [List.foldl_cons, hreplay, h.captures_eq, hcaptures, List.append_assoc]
          rfl
        · exact List.forall_mem_cons.2 ⟨ho, h.isCompleted⟩
        · rw [List.foldl_cons, hreplay, h.attempts_eq, hturned.attempts_eq, List.length_cons,
            List.take_succ_cons, List.foldl_cons, hreplay]
          omega
      · have h : Stops net settings total _ ps [] _ := stops_of_cancelled ps hfresh hlater
        refine ⟨[], c :: ps.map (·.skipped .cancelled cancelledReason), ?_, h.isCompleted, ?_, ?_,
          ?_⟩
        · rw [List.foldl_cons, hreplay, h.captures_eq, hcaptures, List.append_assoc]
          rfl
        · exact List.forall_mem_cons.2 ⟨ho, h.isCancelled⟩
        · exact fun d hm => (outcome_of_mem_skipped hm).2
        · rw [List.foldl_cons, hreplay, h.attempts_eq, hturned.attempts_eq,
            if_neg (by simp [hlater]), if_pos ⟨List.cons_ne_nil _ _, hc⟩]
          rfl

end State

/-- The state of a run when so many of its payloads are through. -/
def State.before (net : Network) (settings : Settings) (payloads : List Payload)
    (cancelAt : Option Nat) (i : Nat) : State :=
  State.after net settings payloads.length cancelAt (payloads.take i)

section Before

variable {net : Network} {settings : Settings} {payloads : List Payload} {cancelAt : Option Nat}

theorem State.foldl_drop_before (net : Network) (settings : Settings) (payloads : List Payload)
    (cancelAt : Option Nat) (i : Nat) :
    (payloads.drop i).foldl (replay net settings payloads.length)
        (before net settings payloads cancelAt i) =
      State.after net settings payloads.length cancelAt payloads := by
  unfold before State.after
  rw [← List.foldl_append, List.take_append_drop]

theorem State.before_isFresh (hf : settings.freshConnections = true) (i : Nat) :
    (before net settings payloads cancelAt i).IsFresh :=
  IsFresh.foldl_replay (payloads.take i) (.inl (start_line_of_fresh net hf _ cancelAt))

theorem State.before_line (hf : settings.freshConnections = true)
    (hend : (State.after net settings payloads.length cancelAt payloads).line ≠ .stuck) (i : Nat) :
    (before net settings payloads cancelAt i).line = .fresh := by
  apply (before_isFresh hf i).resolve_right
  intro hstuck
  apply hend
  rw [← foldl_drop_before net settings payloads cancelAt i, foldl_replay_of_stuck _ _ hstuck,
    hstuck]

theorem State.before_links (hf : settings.freshConnections = true) (i : Nat) :
    (before net settings payloads cancelAt i).links =
      closings settings ((start net settings payloads.length cancelAt).visits net settings
        payloads.length (payloads.take i)) :=
  (foldl_replay_links net settings payloads.length (payloads.take i) _
    (.inl (start_line_of_fresh net hf _ cancelAt))).trans (List.nil_append _)

end Before

/-- The account of a run that gives each payload a connection of its own and stops doing so when
it is seen to be cancelled. There is one attempt for each payload that had its turn to the end, and
one more for the first one that is cancelled, if it was in its turn. -/
structure Orderly (net : Network) (settings : Settings) (payloads : List Payload)
    (cancelAt : Option Nat) (account : Account) : Prop where
  length_eq : account.captures.length = payloads.length
  parted : ∃ completed cancelled, account.captures = completed ++ cancelled ∧
    (∀ c ∈ completed, c.outcome = .ok ∨ c.outcome = .timeout ∨ c.outcome = .ioError) ∧
    (∀ c ∈ cancelled, c.outcome = .cancelled) ∧
    (∀ c ∈ cancelled.tail, c.received = []) ∧
    account.attempts = completed.length +
      if cancelled ≠ [] ∧ (State.before net settings payloads cancelAt
        completed.length).clock.isCancelled = false then 1 else 0
  attempts_of_seen : ∀ i, (State.before net settings payloads cancelAt i).clock.isCancelled = true →
    account.attempts = (State.before net settings payloads cancelAt i).attempts
  links_eq : account.links = closings settings (visits net settings payloads cancelAt)
  closed : ∀ link ∈ account.links, link.isClosed = true

theorem orderly_of_run {net : Network} {settings : Settings} {payloads : List Payload}
    {cancelAt : Option Nat} {account : Account} (hf : settings.freshConnections = true)
    (h : run net settings payloads cancelAt = some account) :
    Orderly net settings payloads cancelAt account := by
  obtain ⟨hend, rfl⟩ := run_eq_some_iff.1 h
  have hstart := State.start_line_of_fresh net hf payloads.length cancelAt
  have hall : State.before net settings payloads cancelAt payloads.length =
      State.after net settings payloads.length cancelAt payloads := by
    rw [State.before, List.take_length]
  have hlast := State.before_line hf hend payloads.length
  have hlinks : (State.before net settings payloads cancelAt payloads.length).links = _ :=
    State.before_links hf payloads.length
  rw [hall] at hlast hlinks
  rw [List.take_length] at hlinks
  rw [State.account_of_not_shared (by simp [hlast])]
  constructor
  case length_eq => exact State.length_captures_after hend
  case parted =>
    obtain ⟨completed, cancelled, hstops⟩ := State.foldl_replay_stops payloads _ hstart hend
    refine ⟨completed, cancelled, hstops.captures_eq, hstops.isCompleted, hstops.isCancelled,
      hstops.received_eq, hstops.attempts_eq.trans ?_⟩
    exact congrArg (· + _) (Nat.zero_add _)
  case attempts_of_seen =>
    intro i hc
    rw [← State.foldl_drop_before net settings payloads cancelAt i,
      State.foldl_replay_of_cancelled _ _ (by rw [State.before_line hf hend i]; rfl) hc]
  case links_eq => exact hlinks
  case closed =>
    intro link hm
    rw [hlinks] at hm
    exact isClosed_of_mem_closings hm

/-- With a connection for each payload, every connection that was opened is given up before the next
payload has its turn, and before the run is over, whenever it is cancelled. The payloads have their
turns up to one of them, and all from there on are cancelled. No connection is attempted once the
run is seen to be cancelled. -/
theorem run_fresh_orderly (net : Network) (settings : Settings) (payloads : List Payload)
    (cancelAt : Option Nat) (hf : settings.freshConnections = true) :
    (∀ i, (State.before net settings payloads cancelAt i).IsFresh ∧
      (State.before net settings payloads cancelAt i).links =
        closings settings ((State.start net settings payloads.length cancelAt).visits net settings
          payloads.length (payloads.take i)) ∧
      ∀ link ∈ (State.before net settings payloads cancelAt i).links, link.isClosed = true) ∧
    ∀ account, run net settings payloads cancelAt = some account →
      Orderly net settings payloads cancelAt account := by
  refine ⟨fun i => ⟨State.before_isFresh hf i, State.before_links hf i, fun link hm => ?_⟩,
    fun account h => orderly_of_run hf h⟩
  rw [State.before_links hf i] at hm
  exact isClosed_of_mem_closings hm

/-- Of four payloads the third is cancelled in its turn, when part of its reply was received. -/
theorem run_fresh_orderly_of_cancelled_read :
    ∃ account,
      run ⟨"peer", [{ read := [.act .eof] }, { connect := [.error (.system 111)] },
          { read := [.act (.data [1]), .cancel, .hang] }]⟩ {}
        [⟨"a", [65]⟩, ⟨"b", [66]⟩, ⟨"c", [67]⟩, ⟨"d", [68]⟩] = some account ∧
      account.captures.map (fun c => (c.outcome, c.received)) =
        [(.ok, []), (.ioError, []), (.cancelled, [1]), (.cancelled, [])] ∧
      account.attempts = 3 ∧
      Orderly ⟨"peer", [{ read := [.act .eof] }, { connect := [.error (.system 111)] },
          { read := [.act (.data [1]), .cancel, .hang] }]⟩ {}
        [⟨"a", [65]⟩, ⟨"b", [66]⟩, ⟨"c", [67]⟩, ⟨"d", [68]⟩] none account := by
  have hrun : (run ⟨"peer", [{ read := [.act .eof] }, { connect := [.error (.system 111)] },
          { read := [.act (.data [1]), .cancel, .hang] }]⟩ {}
        [⟨"a", [65]⟩, ⟨"b", [66]⟩, ⟨"c", [67]⟩, ⟨"d", [68]⟩]).map
      (fun account => (account.captures.map (fun c => (c.outcome, c.received)),
        account.attempts)) =
      some ([(.ok, []), (.ioError, []), (.cancelled, [1]), (.cancelled, [])], 3) := by
    decide +kernel
  obtain ⟨account, hsome, haccount⟩ := Option.map_eq_some_iff.1 hrun
  obtain ⟨hcaptures, hattempts⟩ := Prod.mk.inj haccount
  exact ⟨account, hsome, hcaptures, hattempts,
    (run_fresh_orderly _ _ _ _ rfl).2 account hsome⟩

end Replay

end WireReplay
