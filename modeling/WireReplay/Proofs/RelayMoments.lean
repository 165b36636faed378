import Mathlib.Logic.Relation
import WireReplay.Proofs.RelayedTurn
import WireReplay.Proofs.Visits

/-!
# The moments of a relay

A relay under way is seen between any two of its calls, and while its output accepts one piece
after the other. Each such moment leads to the next by one call or by one step of the output's
script, and whatever moment a relay is taken up at, it comes to the same end. So what holds at the
start and is kept from moment to moment holds of the relay all the time.
-/

namespace WireReplay

def Settled.mapState {σ τ α β : Type} (f : σ → τ) (settled : Settled σ α β) : Settled τ α β :=
  ⟨settled.ending, settled.clock, f settled.state, settled.steps⟩

namespace Call

variable {σ τ α β : Type} {call : Call σ α β} {limit : Limit}

/-- Where a call stands on its way along the script. -/
structure Point (σ α : Type) where
  clock : Clock
  state : σ
  steps : List (Step α)

/-- One step of the script takes the call from one point to another and does not end it. -/
inductive Advances (call : Call σ α β) (limit : Limit) : Point σ α → Point σ α → Prop
  | delay {clock later : Clock} {state : σ} {ms : Nat} {rest : List (Step α)}
      (h : clock.wait limit (some (clock.now + ms)) = (.ready, later)) :
      Advances call limit ⟨clock, state, .delay ms :: rest⟩ ⟨later, state, rest⟩
  | notBefore {clock later : Clock} {state : σ} {moment : Nat} {rest : List (Step α)}
      (h : clock.wait limit (some moment) = (.ready, later)) :
      Advances call limit ⟨clock, state, .notBefore moment :: rest⟩ ⟨later, state, rest⟩
  | cancel {clock : Clock} {state : σ} {rest : List (Step α)} :
      Advances call limit ⟨clock, state, .cancel :: rest⟩ ⟨clock.cancel, state, rest⟩
  | retry {clock : Clock} {state : σ} {fault : Fault} {rest : List (Step α)}
      (h : call.retries fault = true) :
      Advances call limit ⟨clock, state, .error fault :: rest⟩ ⟨clock, state, rest⟩
  | pass {clock : Clock} {state next : σ} {answer : α} {rest : List (Step α)}
      (h : call.reply state answer = .pass next) :
      Advances call limit ⟨clock, state, .act answer :: rest⟩ ⟨clock, next, rest⟩

/-- A call comes to the same end from any point on its way. -/
theorem run_of_advances {p q : Point σ α} (h : call.Advances limit p q) :
    call.run limit q.clock q.state q.steps = call.run limit p.clock p.state p.steps := by
  cases h with
  | delay h => simp only [run, sleep, h]
  | notBefore h => simp only [run, sleep, h]
  | cancel => rfl
  | retry h => simp only [run, if_pos h]
  | pass h => exact (run_act_pass h).symm

theorem sleep_mapState (f : σ → τ) (ready : Option Nat) (clock : Clock) (state : σ)
    (left : List (Step α)) (onward : Clock → Settled σ α β) :
    (sleep limit ready clock state left onward).mapState f =
      sleep limit ready clock (f state) left fun later => (onward later).mapState f := by
  unfold sleep
  split <;> rfl

theorem block_mapState (f : σ → τ) (clock : Clock) (state : σ) (left : List (Step α)) :
    (block limit clock state left : Settled σ α β).mapState f = block limit clock (f state) left :=
  sleep_mapState f none clock state left _

end Call

namespace Link

variable {link : Link} {limit : Limit} {clock later : Clock} {bytes : Bytes} {accepted : Nat}
  {steps : List (Step Nat)}

theorem writing_reply_add (before total accepted n : Nat) :
    (writing (before + total)).reply (before + accepted) n =
      match (writing total).reply accepted n with
      | .pass state => .pass (before + state)
      | .block => .block
      | .fail fault state => .fail fault (before + state)
      | .done value state front => .done value (before + state) front := by
  have hle : before + total ≤ before + accepted + n ↔ total ≤ accepted + n := by omega
  simp only [writing, hle]
  split_ifs
  · rfl
  · rfl
  · rw [Nat.add_assoc]

theorem writing_run_add (before total : Nat) (limit : Limit) (clock : Clock) (accepted : Nat)
    (steps : List (Step Nat)) :
    (writing (before + total)).run limit clock (before + accepted) steps =
      ((writing total).run limit clock accepted steps).mapState (before + ·) := by
  induction steps generalizing clock accepted with
  | nil => rfl
  | cons step rest ih =>
    cases step with
    | delay ms => simp only [Call.run, Call.sleep_mapState, ih]
    | notBefore moment => simp only [Call.run, Call.sleep_mapState, ih]
    | cancel => exact ih clock.cancel accepted
    | hang => exact (Call.block_mapState (before + ·) clock accepted _).symm
    | error fault =>
      have hretries (total : Nat) : (writing total).retries fault = fault.isInterrupted := rfl
      rw [Call.run, Call.run, hretries, hretries]
      by_cases hretry : fault.isInterrupted = true
      · rw [if_pos hretry, if_pos hretry]
        exact ih clock accepted
      · rw [if_neg hretry, if_neg hretry]
        rfl
    | act n =>
      have hreply := writing_reply_add before total accepted n
      cases hr : (writing total).reply accepted n with
      | pass next =>
        rw [hr] at hreply
        rw [Call.run_act_pass hr, Call.run_act_pass hreply]
        exact ih clock next
      | block =>
        rw [hr] at hreply
        rw [Call.run_act_block hr, Call.run_act_block hreply]
        exact (Call.block_mapState (before + ·) clock accepted _).symm
      | fail fault next =>
        rw [hr] at hreply
        rw [Call.run_act_fail hr, Call.run_act_fail hreply]
        rfl
      | done value next front =>
        rw [hr] at hreply
        rw [Call.run_act_done hr, Call.run_act_done hreply]
        rfl

theorem lt_of_advances {total : Nat} (htotal : 0 < total)
    (h : (writing total).Advances limit ⟨clock, 0, link.script.write⟩ ⟨later, accepted, steps⟩) :
    accepted < total := by
  generalize link.script.write = write at h
  cases h with
  | pass h =>
    simp only [writing] at h
    split_ifs at h with _ hle
    cases h
    omega
  | _ => exact htotal

theorem afterWrite_afterWrite (link : Link) (bytes : Bytes) (first last : Ending Unit)
    (accepted more : Nat) (steps left : List (Step Nat)) :
    (link.afterWrite bytes first accepted steps).afterWrite (bytes.drop accepted) last more left =
      link.afterWrite bytes last (accepted + more) left := by
  simp only [afterWrite, List.take_add, List.append_assoc]

theorem write_eq (hb : bytes ≠ []) (link : Link) (limit : Limit) (clock : Clock) :
    link.write bytes limit clock =
      ((writing bytes.length).run limit clock 0 link.script.write).moved (link.afterWrite bytes) := by
  cases bytes with
  | nil => exact absurd rfl hb
  | cons byte bytes => exact write_cons_eq link byte bytes limit clock

theorem write_of_advances (hb : bytes ≠ [])
    (h : (writing bytes.length).Advances limit ⟨clock, 0, link.script.write⟩
      ⟨later, accepted, steps⟩) (ending : Ending Unit) :
    (link.afterWrite bytes ending accepted steps).write (bytes.drop accepted) limit later =
      link.write bytes limit clock := by
  have hlt := lt_of_advances (List.length_pos_iff.2 hb) h
  have hlength : accepted + (bytes.drop accepted).length = bytes.length := by
    rw [List.length_drop]
    omega
  have hrest : bytes.drop accepted ≠ [] := by
    rw [ne_eq, List.drop_eq_nil_iff]
    omega
  have hwhole := writing_run_add accepted (bytes.drop accepted).length limit later 0 steps
  rw [hlength, Nat.add_zero] at hwhole
  calc (link.afterWrite bytes ending accepted steps).write (bytes.drop accepted) limit later
    _ = ((writing (bytes.drop accepted).length).run limit later 0 steps).moved
          ((link.afterWrite bytes ending accepted steps).afterWrite (bytes.drop accepted)) :=
        write_eq hrest _ limit later
    _ = ((writing bytes.length).run limit later accepted steps).moved (link.afterWrite bytes) := by
        rw [hwhole]
        unfold Settled.moved
        rw [afterWrite_afterWrite]
        rfl
    _ = ((writing bytes.length).run limit clock 0 link.script.write).moved
          (link.afterWrite bytes) := by rw [← Call.run_of_advances h]
    _ = link.write bytes limit clock := (write_eq hb link limit clock).symm

theorem send_of_advances (hb : bytes ≠ [])
    (h : (writing bytes.length).Advances limit ⟨clock, 0, link.script.write⟩
      ⟨later, accepted, steps⟩) (ending : Ending Unit) (halfClose : Bool) :
    (link.afterWrite bytes ending accepted steps).send (bytes.drop accepted) halfClose limit later =
      link.send bytes halfClose limit clock := by
  rw [send_eq_andThen, send_eq_andThen, write_of_advances hb h]

theorem andThen_done (m : Moved Unit) :
    (m.andThen fun link clock => ⟨.done (), clock, link⟩) = m := by
  by_cases h : m.ending = .done ()
  · rw [Moved.andThen_of_done _ h, ← h]
  · rw [Moved.andThen_of_not_done _ h]

theorem send_of_written (h : (link.write bytes limit clock).ending = .done ()) :
    link.send bytes false limit clock = (link.write bytes limit clock).link.flush limit
      (link.write bytes limit clock).clock := by
  rw [send_eq_andThen, Moved.andThen_of_done _ h]
  exact andThen_done _

theorem send_of_unwritten (halfClose : Bool)
    (h : (link.write bytes limit clock).ending ≠ .done ()) :
    link.send bytes halfClose limit clock = link.write bytes limit clock := by
  rw [send_eq_andThen, Moved.andThen_of_not_done _ h]

theorem write_script_read (link : Link) (data : Bytes) (limit : Limit) (clock : Clock) :
    (link.write data limit clock).link.script.read = link.script.read := by
  cases data <;> rfl

theorem send_script_read (link : Link) (data : Bytes) (halfClose : Bool) (limit : Limit)
    (clock : Clock) :
    (link.send data halfClose limit clock).link.script.read = link.script.read := by
  refine send_cases ?_ ?_ ?_
  · exact fun _ => write_script_read _ _ _ _
  · rintro _ rfl _ _
    exact write_script_read _ _ _ _
  · rintro _ _ rfl _ rfl _
    cases halfClose <;> exact write_script_read _ _ _ _

end Link

namespace Relay

/-- What a relay does next. -/
inductive Stage
  | sending
  | reading
  | writing (last rest : Bytes)
  | flushing (last : Bytes)
  | ended (finish : Finish)

/-- A relay at a moment, with what was noted on the way: each read that delivered something, and
what the output had received when it was flushed last. -/
structure Moment where
  stage : Stage
  state : State
  reads : List Bytes := []
  flushed : Bytes := []

def unsentFinish (settings : Settings) (ending : Ending Unit) : Finish :=
  .ofEnding (.failed (.custom .timedOut
    s!"write timed out after {settings.writeTimeout.boundedMillis} ms")) ending

namespace State

def afterOutput (s : State) (call : Moved Unit) : State :=
  { s with clock := call.clock, output := call.link }

/-- Goes on with the relay behind a call that was to pass on the rest of `count` bytes. -/
def handOver (s : State) (count sent : Nat) (idle : Option Duration) (call : Moved Unit) :
    Finish × State :=
  if call.ending = .done () then
    { s.afterOutput call with received := s.received + count }.pump sent idle
  else (.ofEnding .never call.ending, s.afterOutput call)

variable {s : State} {sent : Nat} {idle : Option Duration} {bytes : Bytes} {later : Clock}
  {peer : Link}

theorem handOver_of_done {call : Moved Unit} (h : call.ending = .done ()) (count : Nat) :
    s.handOver count sent idle call =
      { s.afterOutput call with received := s.received + count }.pump sent idle := if_pos h

theorem handOver_of_not_done {call : Moved Unit} (h : call.ending ≠ .done ()) (count : Nat) :
    s.handOver count sent idle call = (.ofEnding .never call.ending, s.afterOutput call) := if_neg h

theorem relay_of_not_sent {data : Bytes} {settings : Settings} {ending : Ending Unit}
    (hne : ending ≠ .done ())
    (h : s.peer.send data settings.halfClose (limit settings.writeTimeout s.clock) s.clock =
      ⟨ending, later, peer⟩) :
    s.relay data settings = (unsentFinish settings ending, { s with clock := later, peer }) := by
  rw [relay, h]
  cases ending with
  | done => exact absurd rfl hne
  | _ => rfl

theorem pump_of_read (hb : bytes ≠ [])
    (h : s.peer.read room (limit idle s.clock) s.clock = ⟨.done bytes, later, peer⟩) :
    s.pump sent idle = { s with clock := later, peer }.handOver bytes.length sent idle
      (s.output.send bytes false patience later) := by
  rw [pump]
  generalize s.peer.read room (limit idle s.clock) s.clock = read at h ⊢
  cases h
  cases bytes with
  | nil => exact absurd rfl hb
  | cons byte bytes =>
    unfold passOn handOver
    dsimp only
    generalize s.output.send (byte :: bytes) false patience later = call
    obtain ⟨ending, last, output⟩ := call
    cases ending <;> rfl

/-- What holds of a pump that gets no more from its peer, of one that cannot pass on what it gets,
and of every pump if it holds of the one behind the next read, holds of every pump. -/
theorem pump_induction (sent : Nat) (idle : Option Duration) {P : State → Finish × State → Prop}
    (last : ∀ (s : State) (ending : Ending Bytes) (later : Clock) (peer : Link),
      s.peer.read room (limit idle s.clock) s.clock = ⟨ending, later, peer⟩ →
      (∀ bytes, ending = .done bytes → bytes = []) →
      P s (lastFinish sent s.received ending, { s with clock := later, peer }))
    (stopped : ∀ (s : State) (bytes : Bytes) (later : Clock) (peer : Link),
      s.peer.read room (limit idle s.clock) s.clock = ⟨.done bytes, later, peer⟩ → bytes ≠ [] →
      (s.output.send bytes false patience later).ending ≠ .done () →
      P s (.ofEnding .never (s.output.send bytes false patience later).ending,
        { s with clock := later, peer }.afterOutput (s.output.send bytes false patience later)))
    (more : ∀ (s : State) (bytes : Bytes) (later : Clock) (peer : Link) (r : Finish × State),
      s.peer.read room (limit idle s.clock) s.clock = ⟨.done bytes, later, peer⟩ → bytes ≠ [] →
      (s.output.send bytes false patience later).ending = .done () →
      P { { s with clock := later, peer }.afterOutput (s.output.send bytes false patience later) with
        received := s.received + bytes.length } r → P s r)
    (s : State) : P s (s.pump sent idle) := by
  induction hn : s.peer.backlog using Nat.strongRecOn generalizing s with
  | ind n ih =>
    rcases hread : s.peer.read room (limit idle s.clock) s.clock with ⟨ending, later, peer⟩
    by_cases hd : ∀ bytes, ending = .done bytes → bytes = []
    · rw [pump_of_over (by rw [hread]; exact hd), hread]
      exact last s ending later peer hread hd
    · obtain ⟨bytes, hd⟩ := Classical.not_forall.1 hd
      obtain ⟨rfl, hb⟩ := Classical.not_imp.1 hd
      have hlt := Link.backlog_lt_of_read hread hb
      rw [pump_of_read hb hread]
      by_cases hsend : (s.output.send bytes false patience later).ending = .done ()
      · rw [handOver_of_done hsend]
        exact more s bytes later peer _ hread hb hsend (ih _ (hn ▸ hlt) _ rfl)
      · rw [handOver_of_not_done hsend]
        exact stopped s bytes later peer hread hb hsend

end State

namespace Moment

/-- One call, or one step of the output's script, takes a relay from a moment to the next. -/
inductive Next (data : Bytes) (settings : Settings) : Moment → Moment → Prop
  | sent {s : State} {later : Clock} {peer : Link} {reads : List Bytes} {flushed : Bytes}
      (h : s.peer.send data settings.halfClose (limit settings.writeTimeout s.clock) s.clock =
        ⟨.done (), later, peer⟩) :
      Next data settings ⟨.sending, s, reads, flushed⟩
        ⟨.reading, { s with clock := later, peer }, reads, flushed⟩
  | unsent {s : State} {ending : Ending Unit} {later : Clock} {peer : Link} {reads : List Bytes}
      {flushed : Bytes}
      (h : s.peer.send data settings.halfClose (limit settings.writeTimeout s.clock) s.clock =
        ⟨ending, later, peer⟩) (hne : ending ≠ .done ()) :
      Next data settings ⟨.sending, s, reads, flushed⟩
        ⟨.ended (unsentFinish settings ending), { s with clock := later, peer }, reads, flushed⟩
  | read {s : State} {bytes : Bytes} {later : Clock} {peer : Link} {reads : List Bytes}
      {flushed : Bytes}
      (h : s.peer.read room (limit settings.idleTimeout s.clock) s.clock =
        ⟨.done bytes, later, peer⟩) (hb : bytes ≠ []) :
      Next data settings ⟨.reading, s, reads, flushed⟩
        ⟨.writing bytes bytes, { s with clock := later, peer }, reads ++ [bytes], flushed⟩
  | last {s : State} {ending : Ending Bytes} {later : Clock} {peer : Link} {reads : List Bytes}
      {flushed : Bytes}
      (h : s.peer.read room (limit settings.idleTimeout s.clock) s.clock = ⟨ending, later, peer⟩)
      (hover : ∀ bytes, ending = .done bytes → bytes = []) :
      Next data settings ⟨.reading, s, reads, flushed⟩
        ⟨.ended (lastFinish data.length s.received ending), { s with clock := later, peer }, reads,
          flushed⟩
  | accepted {s : State} {last rest : Bytes} {later : Clock} {n : Nat} {steps : List (Step Nat)}
      {reads : List Bytes} {flushed : Bytes} (hrest : rest ≠ [])
      (h : (Link.writing rest.length).Advances patience ⟨s.clock, 0, s.output.script.write⟩
        ⟨later, n, steps⟩) :
      Next data settings ⟨.writing last rest, s, reads, flushed⟩
        ⟨.writing last (rest.drop n),
          { s with clock := later, output := s.output.afterWrite rest .never n steps }, reads,
          flushed⟩
  | written {s : State} {last rest : Bytes} {reads : List Bytes} {flushed : Bytes}
      (h : (s.output.write rest patience s.clock).ending = .done ()) :
      Next data settings ⟨.writing last rest, s, reads, flushed⟩
        ⟨.flushing last, s.afterOutput (s.output.write rest patience s.clock), reads, flushed⟩
  | unwritten {s : State} {last rest : Bytes} {reads : List Bytes} {flushed : Bytes}
      (h : (s.output.write rest patience s.clock).ending ≠ .done ()) :
      Next data settings ⟨.writing last rest, s, reads, flushed⟩
        ⟨.ended (.ofEnding .never (s.output.write rest patience s.clock).ending),
          s.afterOutput (s.output.write rest patience s.clock), reads, flushed⟩
  | flushed {s : State} {last : Bytes} {reads : List Bytes} {flushed : Bytes}
      (h : (s.output.flush patience s.clock).ending = .done ()) :
      Next data settings ⟨.flushing last, s, reads, flushed⟩
        ⟨.reading, { s.afterOutput (s.output.flush patience s.clock) with
          received := s.received + last.length }, reads, s.output.written⟩
  | unflushed {s : State} {last : Bytes} {reads : List Bytes} {flushed : Bytes}
      (h : (s.output.flush patience s.clock).ending ≠ .done ()) :
      Next data settings ⟨.flushing last, s, reads, flushed⟩
        ⟨.ended (.ofEnding .never (s.output.flush patience s.clock).ending),
          s.afterOutput (s.output.flush patience s.clock), reads, flushed⟩

abbrev Reaches (data : Bytes) (settings : Settings) : Moment → Moment → Prop :=
  Relation.ReflTransGen (Next data settings)

def outcome (m : Moment) (data : Bytes) (settings : Settings) : Finish × State :=
  match m.stage with
  | .sending => m.state.relay data settings
  | .reading => m.state.pump data.length settings.idleTimeout
  | .writing last rest => m.state.handOver last.length data.length settings.idleTimeout
      (m.state.output.send rest false patience m.state.clock)
  | .flushing last => m.state.handOver last.length data.length settings.idleTimeout
      (m.state.output.flush patience m.state.clock)
  | .ended finish => (finish, m.state)

variable {data : Bytes} {settings : Settings} {m m' : Moment}

theorem outcome_of_next (h : Next data settings m m') :
    m'.outcome data settings = m.outcome data settings := by
  cases h with
  | sent h => exact (State.relay_of_sent h).symm
  | unsent h hne => exact (State.relay_of_not_sent hne h).symm
  | read h hb => exact (State.pump_of_read hb h).symm
  | @last s ending later peer reads flushed h hover =>
    have hpump : s.pump data.length settings.idleTimeout = _ :=
      State.pump_of_over (by rw [h]; exact hover)
    rw [h] at hpump
    exact hpump.symm
  | accepted hrest h =>
    exact congrArg (State.handOver _ _ _ _) (Link.send_of_advances hrest h .never false)
  | written h => exact congrArg (State.handOver _ _ _ _) (Link.send_of_written h).symm
  | unwritten h =>
    exact (State.handOver_of_not_done h _).symm.trans
      (congrArg (State.handOver _ _ _ _) (Link.send_of_unwritten false h).symm)
  | flushed h => exact (State.handOver_of_done h _).symm
  | unflushed h => exact (State.handOver_of_not_done h _).symm

/-- Whatever moment a relay is taken up at, it comes to the same end. -/
theorem outcome_of_reaches (h : Reaches data settings m m') :
    m'.outcome data settings = m.outcome data settings := by
  induction h with
  | refl => rfl
  | tail _ hnext ih => exact (outcome_of_next hnext).trans ih

theorem reaches_ended_of_reading (data : Bytes) (settings : Settings) (s : State)
    (reads : List Bytes) (flushed : Bytes) :
    ∃ reads' flushed', Reaches data settings ⟨.reading, s, reads, flushed⟩
      ⟨.ended (s.pump data.length settings.idleTimeout).1,
        (s.pump data.length settings.idleTimeout).2, reads', flushed'⟩ := by
  revert reads flushed
  apply State.pump_induction data.length settings.idleTimeout (P := fun s r => ∀ reads flushed,
    ∃ reads' flushed', Reaches data settings ⟨.reading, s, reads, flushed⟩
      ⟨.ended r.1, r.2, reads', flushed'⟩)
  · intro s ending later peer hread hover reads flushed
    exact ⟨reads, flushed, .single (.last hread hover)⟩
  · intro s bytes later peer hread hb hsend reads flushed
    refine ⟨reads ++ [bytes], flushed, .head (.read hread hb) ?_⟩
    by_cases hwrite : (s.output.write bytes patience later).ending = .done ()
    · rw [Link.send_of_written hwrite] at hsend ⊢
      exact .head (.written hwrite) (.single (.unflushed hsend))
    · rw [Link.send_of_unwritten false hwrite]
      exact .single (.unwritten hwrite)
  · intro s bytes later peer r hread hb hsend ih reads flushed
    have hwrite := (Link.send_flushed hsend).1
    rw [Link.send_of_written hwrite] at hsend ih
    obtain ⟨reads', flushed', hreaches⟩ := ih (reads ++ [bytes])
      (s.output.write bytes patience later).link.written
    exact ⟨reads', flushed', .head (.read hread hb) (.head (.written hwrite)
      (.head (.flushed hsend) hreaches))⟩

theorem reaches_ended (data : Bytes) (settings : Settings) (s : State) (reads : List Bytes)
    (flushed : Bytes) :
    ∃ reads' flushed', Reaches data settings ⟨.sending, s, reads, flushed⟩
      ⟨.ended (s.relay data settings).1, (s.relay data settings).2, reads', flushed'⟩ := by
  rcases hsend : s.peer.send data settings.halfClose (limit settings.writeTimeout s.clock) s.clock
    with ⟨ending, later, peer⟩
  by_cases hd : ending = .done ()
  · subst hd
    obtain ⟨reads', flushed', hreaches⟩ := reaches_ended_of_reading data settings
      { s with clock := later, peer } reads flushed
    rw [State.relay_of_sent hsend]
    exact ⟨reads', flushed', .head (.sent hsend) hreaches⟩
  · rw [State.relay_of_not_sent hd hsend]
    exact ⟨reads, flushed, .single (.unsent hsend hd)⟩

end Moment

end Relay

end WireReplay
