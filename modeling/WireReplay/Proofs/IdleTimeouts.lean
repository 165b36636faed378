import WireReplay.Proofs.Deadlines
import WireReplay.Proofs.LongerTimeouts
import WireReplay.Proofs.RelayMoments

/-!
# Idle timeouts of relays

If its output never hangs, only its peer can keep a relay from ending, and an idle timeout then ends
it. A relay that was not ended by its idle timeout takes the same course under a longer one, or
under none, and one that was has put out the beginning of what it would have put out. Without an
idle timeout a relay waits for good exactly if the peer's script does so before anything in it ends
the relay.
-/

namespace WireReplay

theorem Clock.wait_patient (clock : Clock) (t : Nat) :
    clock.wait Relay.patience (some t) = (.ready, clock.advance t) := by
  unfold wait
  by_cases ht : t ≤ clock.now
  · simp [ht, advance]
  · simp [ht, Relay.patience, heeded]

namespace Call

variable {σ α β : Type} {call : Call σ α β} {limit : Limit} {clock : Clock} {state : σ}
  {steps : List (Step α)}

theorem sleep_patient (t : Nat) (clock : Clock) (state : σ) (left : List (Step α))
    (onward : Clock → Settled σ α β) :
    sleep Relay.patience (some t) clock state left onward = onward (clock.advance t) := by
  rw [sleep, Clock.wait_patient]

theorem block_patient (clock : Clock) (state : σ) (left : List (Step α)) :
    (block Relay.patience clock state left : Settled σ α β) = ⟨.never, clock, state, left⟩ := by
  simp [block, sleep, Clock.wait, Relay.patience, Clock.heeded]

structure IsPrompt (call : Call σ α β) : Prop where
  reply : ∀ state answer, call.reply state answer ≠ .block
  atEnd : ∀ state, call.atEnd state ≠ none

/-- Such a call is over at some time, one way or the other, if the script does not hang. -/
theorem run_patient (hcall : call.IsPrompt) (hs : Step.hang ∉ steps) (clock : Clock) (state : σ) :
    (∃ value, (call.run Relay.patience clock state steps).ending = .done value) ∨
      ∃ fault, (call.run Relay.patience clock state steps).ending = .failed fault := by
  induction steps generalizing clock state with
  | nil =>
    rw [run]
    cases hend : call.atEnd state with
    | none => exact absurd hend (hcall.atEnd state)
    | some result => exact .inl ⟨result.1, rfl⟩
  | cons step rest ih =>
    have hrest : Step.hang ∉ rest := fun h => hs (List.mem_cons_of_mem _ h)
    cases step with
    | delay ms => rw [run, sleep_patient]; exact ih hrest _ _
    | notBefore moment => rw [run, sleep_patient]; exact ih hrest _ _
    | cancel => exact ih hrest _ _
    | hang => exact absurd List.mem_cons_self hs
    | error fault =>
      rw [run]
      split
      · exact ih hrest _ _
      · exact .inr ⟨fault, rfl⟩
    | act answer =>
      cases hr : call.reply state answer with
      | pass next => rw [run_act_pass hr]; exact ih hrest _ _
      | block => exact absurd hr (hcall.reply state answer)
      | fail fault next => rw [run_act_fail hr]; exact .inr ⟨fault, rfl⟩
      | done value next front => rw [run_act_done hr]; exact .inl ⟨value, rfl⟩

theorem sleep_steps {P : List (Step α) → Prop} {ready : Option Nat} {left : List (Step α)}
    {onward : Clock → Settled σ α β} (hleft : P left) (h : ∀ later, P (onward later).steps) :
    P (sleep limit ready clock state left onward).steps := by
  unfold sleep
  split
  · exact h _
  all_goals exact hleft

theorem hang_not_mem_run (hcall : call.PutsBackAnswers) (hs : Step.hang ∉ steps) (limit : Limit)
    (clock : Clock) (state : σ) : Step.hang ∉ (call.run limit clock state steps).steps := by
  induction steps generalizing clock state with
  | nil =>
    rw [run]
    split
    · exact hs
    · exact sleep_steps (P := (Step.hang ∉ ·)) hs fun _ => hs
  | cons step rest ih =>
    have hrest : Step.hang ∉ rest := fun h => hs (List.mem_cons_of_mem _ h)
    cases step with
    | delay ms =>
      refine sleep_steps (P := (Step.hang ∉ ·)) ?_ fun _ => ih hrest _ _
      exact List.not_mem_cons_of_ne_of_not_mem (by simp) hrest
    | notBefore moment => exact sleep_steps (P := (Step.hang ∉ ·)) hs fun _ => ih hrest _ _
    | cancel => exact ih hrest _ _
    | hang => exact absurd List.mem_cons_self hs
    | error fault =>
      rw [run]
      split
      · exact ih hrest _ _
      · exact hrest
    | act answer =>
      cases hr : call.reply state answer with
      | pass next => rw [run_act_pass hr]; exact ih hrest _ _
      | block => rw [run_act_block hr]; exact sleep_steps (P := (Step.hang ∉ ·)) hs fun _ => hs
      | fail fault next => rw [run_act_fail hr]; exact hrest
      | done value next front =>
        rw [run_act_done hr]
        intro hm
        rcases List.mem_append.1 hm with hm | hm
        · obtain ⟨given, hg⟩ := hcall _ _ _ _ _ hr _ hm
          cases hg
        · exact hrest hm

end Call

/-- No write to such a peer and no flush waits for good. -/
structure PeerScript.NeverHangs (script : PeerScript) : Prop where
  write : Step.hang ∉ script.write
  flush : Step.hang ∉ script.flush

namespace Link

variable {link : Link} {limit : Limit} {clock : Clock}

theorem writing_isPrompt (total : Nat) : (writing total).IsPrompt where
  reply accepted n := by
    simp only [writing]
    split_ifs <;> simp
  atEnd _ := by simp [writing]

theorem signalling_isPrompt : signalling.IsPrompt where
  reply _ _ := by simp [signalling]
  atEnd _ := by simp [signalling]

end Link

structure Moved.IsPatient (m : Moved Unit) : Prop where
  ending : m.ending = .done () ∨ ∃ fault, m.ending = .failed fault
  script : m.link.script.NeverHangs

namespace Link

variable {link : Link} {clock : Clock}

theorem write_patient (h : link.script.NeverHangs) (data : Bytes) (clock : Clock) :
    (link.write data Relay.patience clock).IsPatient := by
  cases data with
  | nil => exact ⟨.inl rfl, h⟩
  | cons byte bytes =>
    rw [write_cons_eq]
    constructor
    · obtain ⟨⟨⟩, hd⟩ | hf := Call.run_patient (writing_isPrompt (byte :: bytes).length) h.write
        clock 0
      · exact .inl hd
      · exact .inr hf
    · exact { h with write := Call.hang_not_mem_run (writing_putsBackAnswers _) h.write _ _ _ }

theorem flush_patient (h : link.script.NeverHangs) (clock : Clock) :
    (link.flush Relay.patience clock).IsPatient := by
  rw [flush_eq]
  constructor
  · obtain ⟨⟨⟩, hd⟩ | hf := Call.run_patient signalling_isPrompt h.flush clock ()
    · exact .inl hd
    · exact .inr hf
  · exact { h with flush := Call.hang_not_mem_run signalling_putsBackAnswers h.flush _ _ _ }

theorem send_patient (h : link.script.NeverHangs) (data : Bytes) (clock : Clock) :
    (link.send data false Relay.patience clock).IsPatient := by
  refine send_cases ?_ ?_ ?_
  · exact fun _ => write_patient h data clock
  · rintro _ rfl _ _
    exact flush_patient (write_patient h data clock).script _
  · rintro _ _ rfl _ rfl _
    exact ⟨.inl rfl, (flush_patient (write_patient h data clock).script _).script⟩

end Link

namespace Relay

/-- Nothing in this list of steps ends a reading relay that sent `written` bytes, neither an end of
file nor an empty delivery nor an error, before the list makes it wait for good. -/
def blocksForGood (written : Nat) (isShutDown : Bool) : List (Step Delivery) → Bool
  | [] => true
  | .hang :: _ => true
  | .error _ :: _ => false
  | .act .eof :: _ => false
  | .act (.data bytes) :: rest => !bytes.isEmpty && blocksForGood written isShutDown rest
  | .act (.awaitWritten count) :: rest =>
    decide (written < count) || blocksForGood written isShutDown rest
  | .act .awaitShutdown :: rest => !isShutDown || blocksForGood written isShutDown rest
  | .act .echo :: rest => blocksForGood written isShutDown rest
  | .delay _ :: rest => blocksForGood written isShutDown rest
  | .notBefore _ :: rest => blocksForGood written isShutDown rest
  | .cancel :: rest => blocksForGood written isShutDown rest

variable {written : Nat} {isShutDown : Bool}

theorem blocksForGood_leftover (bytes : Bytes) (rest : List (Step Delivery)) :
    blocksForGood written isShutDown (Link.leftover bytes ++ rest) =
      blocksForGood written isShutDown rest := by
  unfold Link.leftover
  by_cases hb : bytes.isEmpty = true
  · rw [if_pos hb]
    rfl
  · rw [if_neg hb]
    simp [blocksForGood, hb]

/-- What a read without a deadline tells about a list that is to block for good, or not to. -/
def Told (written : Nat) (isShutDown blocks : Bool) (steps : List (Step Delivery)) :
    Ending Bytes → Prop
  | .done [] => blocks = false
  | .done (_ :: _) => blocksForGood written isShutDown steps = blocks
  | .failed _ => blocks = false
  | .never => blocks = true
  | _ => False

theorem told_of_delivered {bytes : Bytes} (hb : bytes ≠ []) (rest : List (Step Delivery)) :
    Told written isShutDown (blocksForGood written isShutDown rest)
      (Link.leftover (bytes.drop room) ++ rest) (.done (bytes.take room)) := by
  have hne : bytes.take room ≠ [] := Link.take_ne_nil hb (by decide)
  cases htake : bytes.take room with
  | nil => exact absurd htake hne
  | cons => exact blocksForGood_leftover _ _

theorem reading_told (written : Nat) (isShutDown : Bool) (clock : Clock) (unechoed : Bytes)
    (steps : List (Step Delivery)) :
    Told written isShutDown (blocksForGood written isShutDown steps)
      ((Link.reading room written isShutDown).run patience clock unechoed steps).steps
      ((Link.reading room written isShutDown).run patience clock unechoed steps).ending := by
  have hblocked (clock : Clock) (unechoed : Bytes) (left : List (Step Delivery)) :
      Told written isShutDown true
        (Call.block patience clock unechoed left : Settled Bytes Delivery Bytes).steps
        (Call.block patience clock unechoed left : Settled Bytes Delivery Bytes).ending := by
    rw [Call.block_patient]
    rfl
  induction steps generalizing clock unechoed with
  | nil => exact hblocked _ _ _
  | cons step rest ih =>
    cases step with
    | delay ms => rw [Call.run, Call.sleep_patient]; exact ih _ _
    | notBefore moment => rw [Call.run, Call.sleep_patient]; exact ih _ _
    | cancel => exact ih _ _
    | hang => exact hblocked _ _ _
    | error fault => exact rfl
    | act answer =>
      cases answer with
      | data bytes =>
        by_cases hb : bytes = []
        · subst hb
          exact rfl
        · have hblocks : blocksForGood written isShutDown (.act (.data bytes) :: rest) =
              blocksForGood written isShutDown rest := by
            simp [blocksForGood, hb]
          rw [hblocks]
          exact told_of_delivered hb rest
      | eof => exact rfl
      | awaitWritten count =>
        by_cases hcount : count ≤ written
        · rw [Call.run_act_pass (if_pos hcount), blocksForGood,
            decide_eq_false (Nat.not_lt.2 hcount)]
          exact ih clock unechoed
        · rw [Call.run_act_block (if_neg hcount), blocksForGood,
            decide_eq_true (Nat.lt_of_not_le hcount)]
          exact hblocked _ _ _
      | awaitShutdown =>
        cases isShutDown with
        | true =>
          have hr : (Link.reading room written true).reply unechoed .awaitShutdown =
            .pass unechoed := rfl
          rw [Call.run_act_pass hr]
          exact ih clock unechoed
        | false => exact hblocked _ _ _
      | echo =>
        by_cases hu : unechoed.isEmpty = true
        · rw [Call.run_act_pass (if_pos hu)]
          exact ih clock unechoed
        · rw [Call.run_act_done (if_neg hu)]
          exact told_of_delivered (fun h => hu (by rw [h]; rfl)) rest

def Blocks (peer : Link) : Bool :=
  blocksForGood peer.written.length peer.isShutDown peer.script.read

theorem read_told {link after : Link} {clock later : Clock} {ending : Ending Bytes}
    (h : link.read room patience clock = ⟨ending, later, after⟩) :
    Told after.written.length after.isShutDown (Blocks link) after.script.read ending := by
  obtain rfl := congrArg Moved.link h
  obtain rfl := congrArg Moved.ending h
  exact reading_told link.written.length link.isShutDown clock link.unechoed link.script.read

def Finish.TimedOut (finish : Finish) : Prop :=
  ∃ summary, finish = .finished summary ∧ summary.outcome = .timeout

namespace State

variable {s : State} {sent : Nat} {idle longer : Option Duration}

theorem output_written_prefix_pump (s : State) (sent : Nat) (idle : Option Duration) :
    s.output.written <+: (s.pump sent idle).2.output.written := by
  apply pump_induction sent idle (P := fun s r => s.output.written <+: r.2.output.written)
  · intro s ending later peer _ _
    exact List.prefix_rfl
  · intro s bytes later peer _ _ _
    obtain ⟨accepted, _, hw, _⟩ := s.output.send_written bytes false patience later
    exact ⟨accepted, hw.symm⟩
  · intro s bytes later peer r _ _ _ ih
    obtain ⟨accepted, _, hw, _⟩ := s.output.send_written bytes false patience later
    exact List.IsPrefix.trans ⟨accepted, hw.symm⟩ ih

theorem read_longer (hle : ∀ clock, (limit idle clock).Within (limit longer clock))
    {ending : Ending Bytes} {later : Clock} {peer : Link}
    (h : s.peer.read room (limit idle s.clock) s.clock = ⟨ending, later, peer⟩)
    (hne : ending ≠ .timedOut) :
    s.peer.read room (limit longer s.clock) s.clock = ⟨ending, later, peer⟩ := by
  refine Eq.trans (congrArg (Settled.moved · s.peer.afterRead) ?_) h
  refine Call.run_longer (hle s.clock) _ _ _ _ ?_
  intro hexpired
  exact hne ((congrArg Moved.ending h).symm.trans hexpired)

/-- A pump that was not ended by its idle timeout does not notice that it is longer, and any other
has put out the beginning of what a longer one lets through. -/
theorem pump_longer (hle : ∀ clock, (limit idle clock).Within (limit longer clock)) (s : State)
    (sent : Nat) :
    (¬ (s.pump sent idle).1.TimedOut → s.pump sent longer = s.pump sent idle) ∧
      (s.pump sent idle).2.output.written <+: (s.pump sent longer).2.output.written := by
  apply pump_induction sent idle (P := fun s r =>
    (¬ r.1.TimedOut → s.pump sent longer = r) ∧
      r.2.output.written <+: (s.pump sent longer).2.output.written)
  · intro s ending later peer hread hover
    refine ⟨fun hfinish => ?_, output_written_prefix_pump s sent longer⟩
    have hne : ending ≠ .timedOut := by
      rintro rfl
      exact hfinish ⟨_, rfl, rfl⟩
    have hsame := read_longer hle hread hne
    have hpump : s.pump sent longer = _ := pump_of_over (by rw [hsame]; exact hover)
    rw [hpump, hsame]
  · intro s bytes later peer hread hb hsend
    have hpump : s.pump sent longer = _ := pump_of_read hb (read_longer hle hread (by simp))
    rw [hpump, handOver_of_not_done hsend]
    exact ⟨fun _ => rfl, List.prefix_rfl⟩
  · intro s bytes later peer r hread hb hsend ih
    have hpump : s.pump sent longer = _ := pump_of_read hb (read_longer hle hread (by simp))
    rw [hpump, handOver_of_done hsend]
    exact ih

theorem ofEnding_of_patient {call : Moved Unit} (hcall : call.IsPatient)
    (h : call.ending ≠ .done ()) :
    ∃ fault, Finish.ofEnding .never call.ending = .failed fault := by
  obtain hd | ⟨fault, hf⟩ := hcall.ending
  · exact absurd hd h
  · exact ⟨fault, by rw [hf]; rfl⟩

theorem pump_ends {timeout : Duration} (ht : timeout.isMeasurable = true) (s : State) (sent : Nat)
    (h : s.output.script.NeverHangs) : (s.pump sent (some timeout)).1 ≠ .never := by
  revert h
  apply pump_induction sent (some timeout) (P := fun s r =>
    s.output.script.NeverHangs → r.1 ≠ .never)
  · intro s ending later peer hread _ _
    have hdeadline : (limit (some timeout) s.clock).deadline = some (s.clock.now + timeout.ticks) :=
      if_pos ht
    have hends : (s.peer.read room (limit (some timeout) s.clock) s.clock).ending ≠ .never :=
      (Call.run_inTime _ _ _ hdeadline (Nat.le_add_right _ _)).ends
    have hheeds : (s.peer.read room (limit (some timeout) s.clock) s.clock).ending ≠ .cancelled :=
      Call.run_ending_ne_cancelled _ rfl _ _ _
    rw [hread] at hends hheeds
    cases ending with
    | never => exact absurd rfl hends
    | cancelled => exact absurd rfl hheeds
    | _ => simp [lastFinish, Finish.ofEnding]
  · intro s bytes later peer _ _ hsend h
    obtain ⟨fault, hfault⟩ := ofEnding_of_patient (Link.send_patient h bytes later) hsend
    rw [hfault]
    simp
  · intro s bytes later peer r _ _ _ ih h
    exact ih (Link.send_patient h bytes later).script

end State

structure WaitsOnly (blocks : Bool) (finish : Finish) : Prop where
  not_timedOut : ¬ finish.TimedOut
  never_iff : finish = .never ↔ blocks = true ∧ ∀ fault, finish ≠ .failed fault

theorem waitsOnly_failed (blocks : Bool) (fault : Fault) : WaitsOnly blocks (.failed fault) where
  not_timedOut := by rintro ⟨summary, ⟨⟩, _⟩
  never_iff := ⟨nofun, fun h => absurd rfl (h.2 fault)⟩

theorem waitsOnly_last {written sent received : Nat} {isShutDown blocks : Bool}
    {steps : List (Step Delivery)} {ending : Ending Bytes}
    (h : Told written isShutDown blocks steps ending)
    (hover : ∀ bytes, ending = .done bytes → bytes = []) :
    WaitsOnly blocks (lastFinish sent received ending) := by
  cases ending with
  | done bytes =>
    cases hover bytes rfl
    obtain rfl : blocks = false := h
    refine ⟨?_, nofun, nofun⟩
    rintro ⟨summary, ⟨⟩, ho⟩
    cases ho
  | failed fault => exact waitsOnly_failed blocks fault
  | never =>
    obtain rfl : blocks = true := h
    refine ⟨?_, fun _ => ⟨rfl, nofun⟩, fun _ => rfl⟩
    rintro ⟨summary, ⟨⟩, _⟩
  | timedOut => exact h.elim
  | cancelled => exact h.elim

/-- Without an idle timeout, and with an output that never hangs, a pump waits for good only if its
peer makes it. -/
theorem State.pump_waitsOnly (s : State) (sent : Nat) (h : s.output.script.NeverHangs) :
    WaitsOnly (Blocks s.peer) (s.pump sent none).1 := by
  revert h
  apply pump_induction sent none (P := fun s r =>
    s.output.script.NeverHangs → WaitsOnly (Blocks s.peer) r.1)
  · intro s ending later peer hread hover _
    exact waitsOnly_last (read_told hread) hover
  · intro s bytes later peer _ _ hsend h
    obtain ⟨fault, hfault⟩ := ofEnding_of_patient (Link.send_patient h bytes later) hsend
    rw [hfault]
    exact waitsOnly_failed _ fault
  · intro s bytes later peer r hread hb _ ih h
    have htold := read_told hread
    cases bytes with
    | nil => exact absurd rfl hb
    | cons byte bytes =>
      have hblocks : Blocks peer = Blocks s.peer := htold
      rw [← hblocks]
      exact ih (Link.send_patient h (byte :: bytes) later).script

theorem blocks_of_sent {peer : PeerScript} {data : Bytes} {halfClose : Bool} {limit : Limit}
    {later : Clock} {link : Link}
    (h : ({ script := peer } : Link).send data halfClose limit {} = ⟨.done (), later, link⟩) :
    Blocks link = blocksForGood data.length halfClose peer.read := by
  obtain ⟨accepted, _, hw, hall⟩ :=
    Link.send_written { script := peer } data halfClose limit {}
  have hs := Link.send_isShutDown { script := peer } data halfClose limit {}
  have hr := Link.send_script_read { script := peer } data halfClose limit {}
  rw [h] at hw hall hs hr
  have hshut : link.isShutDown = halfClose := by
    rw [Bool.eq_iff_iff, hs]
    simp
  rw [Blocks, hw, hall rfl, hshut, hr]
  rfl

theorem unsentFinish_eq_failed {settings : Settings}
    (hwrite : settings.writeTimeout.isMeasurable = true) (link : Link) (data : Bytes) (clock : Clock)
    (hd : (link.send data settings.halfClose (limit settings.writeTimeout clock) clock).ending ≠
      .done ()) :
    ∃ fault, unsentFinish settings
      (link.send data settings.halfClose (limit settings.writeTimeout clock) clock).ending =
        .failed fault := by
  have hdeadline : (limit settings.writeTimeout clock).deadline =
      some (clock.now + settings.writeTimeout.ticks) := if_pos hwrite
  have hends := (link.send_inTime data settings.halfClose hdeadline (Nat.le_add_right _ _)).ends
  have hheeds : (link.send data settings.halfClose (limit settings.writeTimeout clock)
      clock).ending ≠ .cancelled := Link.send_ending_ne_cancelled rfl _ _ _ _
  generalize (link.send data settings.halfClose (limit settings.writeTimeout clock) clock).ending =
    ending at hd hends hheeds
  cases ending with
  | done => exact absurd rfl hd
  | cancelled => exact absurd rfl hheeds
  | never => exact absurd rfl hends
  | failed fault => exact ⟨fault, rfl⟩
  | timedOut => exact ⟨_, rfl⟩

/-- If its output never hangs, a relay with an idle timeout ends. One that the timeout did not end
is the same with a longer idle timeout or none, and any has put out the beginning of what is put
out then. Without an idle timeout nothing is taken for one, and only a peer that blocks for good
keeps the relay from ending. -/
theorem relay_idle_timeouts (peer output : PeerScript) (data : Bytes) (settings : Settings)
    (timeout : Duration) (longer : Option Duration)
    (hwrite : settings.writeTimeout.isMeasurable = true) (ht : timeout.isMeasurable = true)
    (hle : ∀ d, longer = some d → timeout.nanos ≤ d.nanos) (houtput : output.NeverHangs) :
    let impatient := relay peer output data { settings with idleTimeout := some timeout }
    let patient := relay peer output data { settings with idleTimeout := longer }
    impatient.1 ≠ .never ∧
    (¬ impatient.1.TimedOut → patient = impatient) ∧
    impatient.2.output.written <+: patient.2.output.written ∧
    (longer = none → ¬ patient.1.TimedOut ∧
      (patient.1 = .never ↔ blocksForGood data.length settings.halfClose peer.read = true ∧
        ∀ fault, patient.1 ≠ .failed fault)) := by
  intro impatient patient
  have hwithin (clock : Clock) : (limit (some timeout) clock).Within (limit longer clock) := by
    cases longer with
    | none => exact ⟨rfl, nofun⟩
    | some d => exact Duration.deadline_within (hle d rfl) clock.now false
  rcases hsend : ({ script := peer } : Link).send data settings.halfClose
    (limit settings.writeTimeout {}) {} with ⟨ending, later, link⟩
  have hrelay (idle : Option Duration) (hd : ending = .done ()) :
      relay peer output data { settings with idleTimeout := idle } =
        State.pump ⟨later, link, { script := output }, 0⟩ data.length idle :=
    State.relay_of_sent (hd ▸ hsend)
  have hfailed (idle : Option Duration) (hd : ending ≠ .done ()) :
      relay peer output data { settings with idleTimeout := idle } =
        (unsentFinish settings ending, ⟨later, link, { script := output }, 0⟩) :=
    State.relay_of_not_sent hd hsend
  by_cases hd : ending = .done ()
  · simp only [impatient, patient, hrelay _ hd]
    obtain ⟨hsame, hprefix⟩ := State.pump_longer hwithin
      ⟨later, link, { script := output }, 0⟩ data.length
    refine ⟨State.pump_ends ht _ _ houtput, hsame, hprefix, ?_⟩
    rintro rfl
    obtain ⟨hnot, hnever⟩ := State.pump_waitsOnly ⟨later, link, { script := output }, 0⟩
      data.length houtput
    rw [← blocks_of_sent (hd ▸ hsend)]
    exact ⟨hnot, hnever⟩
  · have hfault : ∃ fault, unsentFinish settings ending = .failed fault := by
      have hunsent := unsentFinish_eq_failed hwrite { script := peer } data {}
        (by rw [hsend]; exact hd)
      rwa [hsend] at hunsent
    obtain ⟨fault, hfault⟩ := hfault
    simp only [impatient, patient, hfailed _ hd, hfault]
    obtain ⟨hnot, hnever⟩ := waitsOnly_failed
      (blocksForGood data.length settings.halfClose peer.read) fault
    exact ⟨by simp, fun _ => trivial, List.prefix_rfl, fun _ => ⟨hnot, hnever⟩⟩

/-- A slow output is not taken for a silent peer, but a pause of the peer is; behind the pause the
peer stays silent for good. -/
theorem relay_idle_timeouts_of_pause :
    let peer : PeerScript := { read := [.act (.data [7]), .delay 50, .act (.data [8])] }
    let output : PeerScript := { write := [.delay 100] }
    let impatient := relay peer output [1] { idleTimeout := some (.ofMillis 20) }
    let patient := relay peer output [1] { idleTimeout := none }
    impatient.1 = .finished ⟨1, 1, .timeout⟩ ∧ impatient.2.clock.now = 120 ∧
    impatient.2.output.written = [7] ∧ patient.2.output.written = [7, 8] ∧
    impatient.2.output.written <+: patient.2.output.written ∧ patient.1 = .never ∧
    blocksForGood 1 false peer.read = true := by
  intro peer output impatient patient
  have himpatient : impatient.1 = .finished ⟨1, 1, .timeout⟩ ∧ impatient.2.clock.now = 120 ∧
      impatient.2.output.written = [7] := by decide +kernel
  have hpatient : patient.2.output.written = [7, 8] ∧ patient.1 = .never := by decide +kernel
  obtain ⟨-, -, hprefix, hnone⟩ := relay_idle_timeouts peer output [1] {} (.ofMillis 20) none
    (by decide) (by decide) nofun ⟨by decide, by decide⟩
  exact ⟨himpatient.1, himpatient.2.1, himpatient.2.2, hpatient.1, hprefix, hpatient.2,
    ((hnone rfl).2.1 hpatient.2).1⟩

end Relay

end WireReplay
