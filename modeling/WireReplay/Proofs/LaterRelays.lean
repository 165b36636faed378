import WireReplay.Proofs.RelayMoments
import WireReplay.Proofs.Shift

/-!
# Relays that are made later

A relay heeds no cancellation and knows no moment but those that its clock shows. One that is made
`d` later against the same scripts takes the same course `d` later, whatever its clock knows of a
cancellation.
-/

namespace WireReplay

/-- The same call came to the same end `d` later. -/
structure Settled.Later {σ α β : Type} (d : Nat) (settled later : Settled σ α β) : Prop where
  ending_eq : later.ending = settled.ending
  now_eq : later.clock.now = settled.clock.now + d
  state_eq : later.state = settled.state
  steps_eq : later.steps = settled.steps.map (Step.shift d)

structure Moved.Later {β : Type} (d : Nat) (m later : Moved β) : Prop where
  ending_eq : later.ending = m.ending
  now_eq : later.clock.now = m.clock.now + d
  link_eq : later.link = m.link.shift d

/-- A wait that heeds no cancellation depends on nothing but the moment at which it begins. -/
theorem Clock.wait_unheeded {limit : Limit} (hl : limit.cancellable = false) {clock other : Clock}
    (hnow : other.now = clock.now) (ready : Option Nat) :
    (other.wait limit ready).1 = (clock.wait limit ready).1 ∧
      (other.wait limit ready).2.now = (clock.wait limit ready).2.now := by
  unfold wait
  rw [heeded_of_heedless hl, heeded_of_heedless hl, hnow]
  cases ready <;> cases limit.deadline <;> simp only [Option.any_none, advance, hnow] <;>
    split_ifs <;> simp [hnow]

theorem Clock.wait_later {limit : Limit} {d : Nat} (hl : limit.cancellable = false)
    {clock later : Clock} (hnow : later.now = clock.now + d) (ready : Option Nat) :
    (later.wait (limit.shift d) (ready.map (· + d))).1 = (clock.wait limit ready).1 ∧
      (later.wait (limit.shift d) (ready.map (· + d))).2.now =
        (clock.wait limit ready).2.now + d := by
  have hsame : later.now = (clock.shift d).now := hnow
  have hl' : (limit.shift d).cancellable = false := hl
  have hunheeded := wait_unheeded hl' hsame (ready.map (· + d))
  rw [clock.wait_shift] at hunheeded
  exact hunheeded

namespace Call

variable {σ α β : Type} {call : Call σ α β} {limit : Limit} {clock later : Clock} {state : σ}
  {d : Nat}

theorem sleep_later (hl : limit.cancellable = false) (hnow : later.now = clock.now + d)
    (ready : Option Nat) (left : List (Step α)) {onward onward' : Clock → Settled σ α β}
    (h : ∀ {clock later : Clock}, later.now = clock.now + d →
      (onward clock).Later d (onward' later)) :
    (sleep limit ready clock state left onward).Later d
      (sleep (limit.shift d) (ready.map (· + d)) later state (left.map (Step.shift d)) onward') := by
  obtain ⟨hwake, hwoken⟩ := Clock.wait_later hl hnow ready
  unfold sleep
  generalize later.wait (limit.shift d) (ready.map (· + d)) = waited' at hwake hwoken ⊢
  generalize clock.wait limit ready = waited at hwake hwoken ⊢
  obtain ⟨wake', woken'⟩ := waited'
  obtain ⟨wake, woken⟩ := waited
  cases hwake
  cases wake' with
  | ready => exact h hwoken
  | _ => exact ⟨rfl, hwoken, rfl, rfl⟩

theorem block_later (hl : limit.cancellable = false) (hnow : later.now = clock.now + d)
    (left : List (Step α)) :
    (block limit clock state left : Settled σ α β).Later d
      (block (limit.shift d) later state (left.map (Step.shift d))) :=
  sleep_later hl hnow none left fun hnow => ⟨rfl, hnow, rfl, rfl⟩

theorem run_later (hcall : call.PutsBackAnswers) (hl : limit.cancellable = false)
    (hnow : later.now = clock.now + d) (state : σ) (steps : List (Step α)) :
    (call.run limit clock state steps).Later d
      (call.run (limit.shift d) later state (steps.map (Step.shift d))) := by
  induction steps generalizing clock later state with
  | nil =>
    rw [List.map_nil, run, run]
    cases call.atEnd state with
    | none => exact block_later hl hnow []
    | some result => exact ⟨rfl, hnow, rfl, rfl⟩
  | cons step rest ih =>
    rw [List.map_cons]
    cases step with
    | delay ms =>
      have hready : later.now + ms = clock.now + ms + d := by omega
      rw [Step.shift_delay, run, run, hready]
      exact sleep_later hl hnow (some (clock.now + ms)) (.notBefore (clock.now + ms) :: rest)
        fun hnow => ih hnow state
    | notBefore moment =>
      rw [Step.shift_notBefore, run, run]
      exact sleep_later hl hnow (some moment) (.notBefore moment :: rest) fun hnow => ih hnow state
    | cancel =>
      have hcancelled : later.cancel.now = clock.cancel.now + d := hnow
      exact ih hcancelled state
    | hang => exact block_later hl hnow (.hang :: rest)
    | error fault =>
      rw [Step.shift_error, run, run]
      split
      · exact ih hnow state
      · exact ⟨rfl, hnow, rfl, rfl⟩
    | act answer =>
      rw [Step.shift_act]
      cases hr : call.reply state answer with
      | pass next =>
        rw [run_act_pass hr, run_act_pass hr]
        exact ih hnow next
      | block =>
        rw [run_act_block hr, run_act_block hr]
        exact block_later hl hnow (.act answer :: rest)
      | fail fault next =>
        rw [run_act_fail hr, run_act_fail hr]
        exact ⟨rfl, hnow, rfl, rfl⟩
      | done value next front =>
        rw [run_act_done hr, run_act_done hr]
        refine ⟨rfl, hnow, rfl, ?_⟩
        rw [List.map_append, map_shift_of_putsBackAnswers hcall hr]

end Call

theorem Settled.Later.moved {σ α β : Type} {settled later : Settled σ α β} {d : Nat}
    {after after' : Ending β → σ → List (Step α) → Link} (hlater : settled.Later d later)
    (h : ∀ ending state steps,
      after' ending state (steps.map (Step.shift d)) = (after ending state steps).shift d) :
    (settled.moved after).Later d (later.moved after') where
  ending_eq := hlater.ending_eq
  now_eq := hlater.now_eq
  link_eq := by
    simp only [Settled.moved]
    rw [hlater.ending_eq, hlater.state_eq, hlater.steps_eq, h]

theorem Moved.Later.andThen {m later : Moved Unit} {d : Nat} {next next' : Link → Clock → Moved Unit}
    (hlater : m.Later d later) (h : ∀ link clock later, later.now = clock.now + d →
      (next link clock).Later d (next' (link.shift d) later)) :
    (m.andThen next).Later d (later.andThen next') := by
  by_cases hd : m.ending = .done ()
  · rw [Moved.andThen_of_done next hd, Moved.andThen_of_done next' (hlater.ending_eq.trans hd),
      hlater.link_eq]
    exact h m.link m.clock later.clock hlater.now_eq
  · rw [Moved.andThen_of_not_done next hd,
      Moved.andThen_of_not_done next' (by rwa [hlater.ending_eq])]
    exact hlater

namespace Link

variable (limit : Limit) {clock later : Clock} {d : Nat}

theorem write_later (hl : limit.cancellable = false) (hnow : later.now = clock.now + d)
    (link : Link) (data : Bytes) :
    (link.write data limit clock).Later d ((link.shift d).write data (limit.shift d) later) := by
  cases data with
  | nil => exact ⟨rfl, hnow, rfl⟩
  | cons byte bytes =>
    rw [write_cons_eq, write_cons_eq]
    exact (Call.run_later (writing_putsBackAnswers _) hl hnow _ _).moved fun _ _ _ => rfl

theorem flush_later (hl : limit.cancellable = false) (hnow : later.now = clock.now + d)
    (link : Link) :
    (link.flush limit clock).Later d ((link.shift d).flush (limit.shift d) later) := by
  rw [flush_eq, flush_eq]
  exact (Call.run_later signalling_putsBackAnswers hl hnow _ _).moved fun _ _ _ => rfl

theorem shutDown_later (hl : limit.cancellable = false) (hnow : later.now = clock.now + d)
    (link : Link) :
    (link.shutDown limit clock).Later d ((link.shift d).shutDown (limit.shift d) later) := by
  rw [shutDown_eq, shutDown_eq]
  exact (Call.run_later signalling_putsBackAnswers hl hnow _ _).moved fun _ _ _ => rfl

theorem read_later (hl : limit.cancellable = false) (hnow : later.now = clock.now + d)
    (link : Link) (room : Nat) :
    (link.read room limit clock).Later d ((link.shift d).read room (limit.shift d) later) := by
  rw [read_eq, read_eq]
  exact (Call.run_later (reading_putsBackAnswers _ _ _) hl hnow _ _).moved fun _ _ _ => rfl

theorem send_later (hl : limit.cancellable = false) (hnow : later.now = clock.now + d)
    (link : Link) (data : Bytes) (halfClose : Bool) :
    (link.send data halfClose limit clock).Later d
      ((link.shift d).send data halfClose (limit.shift d) later) := by
  rw [send_eq_andThen, send_eq_andThen]
  refine (write_later limit hl hnow link data).andThen fun link _ _ hnow => ?_
  refine (flush_later limit hl hnow link).andThen fun link _ _ hnow => ?_
  cases halfClose with
  | false => exact ⟨rfl, hnow, rfl⟩
  | true => exact shutDown_later limit hl hnow link

end Link

namespace Relay

theorem limit_later {clock later : Clock} {d : Nat} (hnow : later.now = clock.now + d)
    (timeout : Option Duration) : limit timeout later = (limit timeout clock).shift d := by
  unfold limit
  rw [hnow]
  cases timeout with
  | none => rfl
  | some timeout => exact congrArg (Limit.mk · false) (timeout.deadline_add clock.now d)

namespace State

/-- The same state of a relay `d` later. -/
structure Later (d : Nat) (s later : State) : Prop where
  now_eq : later.clock.now = s.clock.now + d
  peer_eq : later.peer = s.peer.shift d
  output_eq : later.output = s.output.shift d
  received_eq : later.received = s.received

variable {s later : State} {d : Nat}

theorem Later.exists_read (h : s.Later d later) {idle : Option Duration} {ending : Ending Bytes}
    {clock : Clock} {peer : Link}
    (hread : s.peer.read room (limit idle s.clock) s.clock = ⟨ending, clock, peer⟩) :
    ∃ clock' : Clock, clock'.now = clock.now + d ∧
      later.peer.read room (limit idle later.clock) later.clock =
        ⟨ending, clock', peer.shift d⟩ := by
  have hlater := Link.read_later (limit idle s.clock) rfl h.now_eq s.peer room
  rw [hread, ← h.peer_eq, ← limit_later h.now_eq] at hlater
  generalize later.peer.read room (limit idle later.clock) later.clock = read at hlater
  obtain ⟨ending', clock', peer'⟩ := read
  obtain ⟨hending, hnow, hlink⟩ := hlater
  cases hending
  cases hlink
  exact ⟨clock', hnow, rfl⟩

theorem Later.send (h : s.Later d later) {clock clock' : Clock} (hnow : clock'.now = clock.now + d)
    (bytes : Bytes) :
    (s.output.send bytes false patience clock).Later d
      (later.output.send bytes false patience clock') := by
  have hsent := Link.send_later patience rfl hnow s.output bytes false
  have hpatience : patience.shift d = patience := rfl
  rwa [hpatience, ← h.output_eq] at hsent

theorem pump_later (h : s.Later d later) (sent : Nat) (idle : Option Duration) :
    (later.pump sent idle).1 = (s.pump sent idle).1 ∧
      (s.pump sent idle).2.Later d (later.pump sent idle).2 := by
  revert later
  apply pump_induction sent idle (P := fun s r => ∀ {later : State}, s.Later d later →
    (later.pump sent idle).1 = r.1 ∧ r.2.Later d (later.pump sent idle).2)
  · intro s ending clock peer hread hover later h
    obtain ⟨clock', hnow, hread'⟩ := h.exists_read hread
    have hpump : later.pump sent idle = _ := pump_of_over (by rw [hread']; exact hover)
    rw [hpump, hread', h.received_eq]
    exact ⟨rfl, hnow, rfl, h.output_eq, rfl⟩
  · intro s bytes clock peer hread hb hsend later h
    obtain ⟨clock', hnow, hread'⟩ := h.exists_read hread
    have hsent := h.send hnow bytes
    rw [pump_of_read hb hread', handOver_of_not_done (by rwa [hsent.ending_eq]), hsent.ending_eq]
    exact ⟨rfl, hsent.now_eq, rfl, hsent.link_eq, h.received_eq⟩
  · intro s bytes clock peer r hread hb hsend ih later h
    obtain ⟨clock', hnow, hread'⟩ := h.exists_read hread
    have hsent := h.send hnow bytes
    rw [pump_of_read hb hread', handOver_of_done (hsent.ending_eq.trans hsend)]
    exact ih ⟨hsent.now_eq, rfl, hsent.link_eq, by rw [h.received_eq]⟩

/-- A relay that is made `d` later takes the same course `d` later. -/
theorem relay_later (h : s.Later d later) (data : Bytes) (settings : Settings) :
    (later.relay data settings).1 = (s.relay data settings).1 ∧
      (s.relay data settings).2.Later d (later.relay data settings).2 := by
  have hsent := Link.send_later (limit settings.writeTimeout s.clock) rfl h.now_eq s.peer
    data settings.halfClose
  rw [← h.peer_eq, ← limit_later h.now_eq] at hsent
  rcases hsend : s.peer.send data settings.halfClose (limit settings.writeTimeout s.clock) s.clock
    with ⟨ending, clock, peer⟩
  rcases hsend' : later.peer.send data settings.halfClose
    (limit settings.writeTimeout later.clock) later.clock with ⟨ending', clock', peer'⟩
  rw [hsend, hsend'] at hsent
  obtain ⟨hending, hnow, hlink⟩ := hsent
  cases hending
  cases hlink
  by_cases hd : ending = .done ()
  · subst hd
    have hreading : State.Later d { s with clock, peer }
        { later with clock := clock', peer := peer.shift d } :=
      ⟨hnow, rfl, h.output_eq, h.received_eq⟩
    rw [relay_of_sent hsend, relay_of_sent hsend']
    exact pump_later hreading _ _
  · rw [relay_of_not_sent hd hsend, relay_of_not_sent hd hsend']
    exact ⟨rfl, hnow, rfl, h.output_eq, h.received_eq⟩

end State

end Relay

end WireReplay
