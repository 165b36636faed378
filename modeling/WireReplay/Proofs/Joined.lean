import WireReplay.Proofs.Deliveries

/-!
# Scripts without cuts

A peer that delivers bytes in several pieces, one right behind the other, and one that accepts what
is written to it in several pieces, might as well do so at once. The joined script of a peer has
none of these cuts. Calls on the two scripts end alike, except that a read of the joined script may
be ahead by the pieces that it finds already joined.
-/

namespace WireReplay

def Step.accepts : Step Nat → Bool
  | .act n => n != 0
  | _ => false

namespace Link

/-- A write list without the acceptances at its end: behind the last step all is accepted. -/
def trim : List (Step Nat) → List (Step Nat)
  | [] => []
  | step :: rest => if step.accepts && (trim rest).isEmpty then [] else step :: trim rest

/-- Delivers `bytes` in front of the other steps, joined with what these deliver at once. -/
def prepend (bytes : Bytes) : List (Step Delivery) → List (Step Delivery)
  | .act (.data (byte :: more)) :: rest => leftover (bytes ++ byte :: more) ++ rest
  | steps => leftover bytes ++ steps

/-- A read list in which pieces that follow one another are joined. -/
def join : List (Step Delivery) → List (Step Delivery)
  | [] => []
  | .act (.data (byte :: bytes)) :: rest => prepend (byte :: bytes) (join rest)
  | step :: rest => step :: join rest

end Link

def PeerScript.joined (script : PeerScript) : PeerScript :=
  { script with write := Link.trim script.write, read := Link.join script.read }

def Link.joined (link : Link) : Link := { link with script := link.script.joined }

def Moved.joined {β : Type} (m : Moved β) : Moved β := { m with link := m.link.joined }

def Turn.joined (turn : Turn) : Turn := { turn with link := turn.link.joined }

def Settled.mapSteps {σ α β : Type} (f : List (Step α) → List (Step α)) (settled : Settled σ α β) :
    Settled σ α β := { settled with steps := f settled.steps }

section MapSteps

variable {σ α β : Type} {limit : Limit} {clock : Clock} {state : σ}

theorem Call.sleep_mapSteps (f : List (Step α) → List (Step α)) (ready : Option Nat)
    (left : List (Step α)) {onward onward' : Clock → Settled σ α β}
    (h : ∀ later, onward' later = (onward later).mapSteps f) :
    sleep limit ready clock state (f left) onward' =
      (sleep limit ready clock state left onward).mapSteps f := by
  unfold sleep
  split
  · exact h _
  all_goals rfl

theorem Call.block_mapSteps (f : List (Step α) → List (Step α)) (left : List (Step α)) :
    (block limit clock state (f left) : Settled σ α β) =
      (block limit clock state left).mapSteps f :=
  sleep_mapSteps f none left fun _ => rfl

end MapSteps

namespace Link

theorem trim_cons_of_not_accepts {step : Step Nat} (h : step.accepts = false)
    (rest : List (Step Nat)) : trim (step :: rest) = step :: trim rest := by
  rw [trim, h]
  rfl

theorem trim_eq_nil {steps : List (Step Nat)} (h : ∀ step ∈ steps, ∃ n, 0 < n ∧ step = .act n) :
    trim steps = [] := by
  induction steps with
  | nil => rfl
  | cons step rest ih =>
    obtain ⟨n, hn, rfl⟩ := h step List.mem_cons_self
    have hrest := ih fun step hm => h step (List.mem_cons_of_mem _ hm)
    have haccepts : (Step.act n).accepts = true := by simp [Step.accepts]; omega
    rw [trim, haccepts, hrest]
    rfl

theorem writing_run_trim (total : Nat) (limit : Limit) (clock : Clock) (accepted : Nat)
    (steps : List (Step Nat)) :
    (writing total).run limit clock accepted (trim steps) =
      ((writing total).run limit clock accepted steps).mapSteps trim := by
  induction steps generalizing clock accepted with
  | nil => rfl
  | cons step rest ih =>
    cases step with
    | delay ms =>
      rw [trim_cons_of_not_accepts rfl]
      exact Call.sleep_mapSteps trim _ (.notBefore (clock.now + ms) :: rest)
        fun later => ih later accepted
    | notBefore moment =>
      rw [trim_cons_of_not_accepts rfl]
      exact Call.sleep_mapSteps trim _ (.notBefore moment :: rest) fun later => ih later accepted
    | cancel => exact ih clock.cancel accepted
    | hang =>
      rw [trim_cons_of_not_accepts rfl]
      exact Call.block_mapSteps trim (.hang :: rest)
    | error fault =>
      rw [trim_cons_of_not_accepts rfl, Call.run, Call.run]
      split
      · exact ih clock accepted
      · rfl
    | act n =>
      by_cases hn : n = 0
      · subst hn
        rfl
      · have haccepts : (Step.act n).accepts = true := by simp [Step.accepts, hn]
        by_cases htotal : total ≤ accepted + n
        · have hr : (writing total).reply accepted n = .done () total [] := by
            simp only [writing, if_neg hn, if_pos htotal]
          rw [Call.run_act_done hr, trim, haccepts]
          cases hrest : trim rest with
          | nil => exact congrArg (Settled.mk (.done ()) clock total) hrest.symm
          | cons first others =>
            refine (Call.run_act_done hr).trans ?_
            exact congrArg (Settled.mk (.done ()) clock total) hrest.symm
        · have hr : (writing total).reply accepted n = .pass (accepted + n) := by
            simp only [writing, if_neg hn, if_neg htotal]
          have hnext := ih clock (accepted + n)
          rw [Call.run_act_pass hr, trim, haccepts, ← hnext]
          cases hrest : trim rest with
          | nil => rfl
          | cons first others => exact Call.run_act_pass hr

theorem leftover_cons (byte : UInt8) (bytes : Bytes) :
    leftover (byte :: bytes) = [.act (.data (byte :: bytes))] := rfl

theorem exists_leftover (steps : List (Step Delivery)) : ∃ more rest,
    steps = leftover more ++ rest ∧
      ∀ bytes, prepend bytes steps = leftover (bytes ++ more) ++ rest := by
  have hother (h : ∀ bytes, prepend bytes steps = leftover bytes ++ steps) : ∃ more rest,
      steps = leftover more ++ rest ∧
        ∀ bytes, prepend bytes steps = leftover (bytes ++ more) ++ rest :=
    ⟨[], steps, rfl, fun bytes => by rw [h, List.append_nil]⟩
  cases steps with
  | nil => exact hother fun _ => rfl
  | cons step rest =>
    cases step with
    | act answer =>
      cases answer with
      | data bytes =>
        cases bytes with
        | nil => exact hother fun _ => rfl
        | cons byte more => exact ⟨byte :: more, rest, rfl, fun _ => rfl⟩
      | _ => exact hother fun _ => rfl
    | _ => exact hother fun _ => rfl

/-- A delivery from the joined list may be ahead by the pieces that were joined behind it. Otherwise
the two calls settle alike. -/
inductive Joins : Settled Bytes Delivery Bytes → Settled Bytes Delivery Bytes → Prop
  | ahead {bytes more state : Bytes} {clock : Clock} {steps rest : List (Step Delivery)}
      (hb : bytes ≠ []) (h : join steps = leftover more ++ rest) :
      Joins ⟨.done bytes, clock, state, steps⟩ ⟨.done (bytes ++ more), clock, state, rest⟩
  | same {settled : Settled Bytes Delivery Bytes}
      (h : ∀ bytes, settled.ending = .done bytes → bytes = []) :
      Joins settled (settled.mapSteps join)

theorem sleep_joins {limit : Limit} {clock : Clock} {state : Bytes} (ready : Option Nat)
    (left : List (Step Delivery)) {onward onward' : Clock → Settled Bytes Delivery Bytes}
    (h : ∀ later, Joins (onward later) (onward' later)) :
    Joins (Call.sleep limit ready clock state left onward)
      (Call.sleep limit ready clock state (join left) onward') := by
  unfold Call.sleep
  split
  · exact h _
  all_goals exact .same fun _ hdone => by cases hdone

theorem block_joins {limit : Limit} {clock : Clock} {state : Bytes}
    (left : List (Step Delivery)) :
    Joins (Call.block limit clock state left) (Call.block limit clock state (join left)) :=
  sleep_joins none left fun _ => .same fun _ hdone => by cases hdone

theorem join_act_of_not_data {answer : Delivery} (h : ∀ bytes, answer ≠ .data bytes)
    (rest : List (Step Delivery)) : join (.act answer :: rest) = .act answer :: join rest := by
  cases answer with
  | data bytes => exact absurd rfl (h bytes)
  | _ => rfl

theorem delivering_run_joins (written : Nat) (isShutDown : Bool) (limit : Limit) (clock : Clock)
    (unechoed : Bytes) (steps : List (Step Delivery)) :
    Joins ((delivering written isShutDown).run limit clock unechoed steps)
      ((delivering written isShutDown).run limit clock unechoed (join steps)) := by
  induction steps generalizing clock unechoed with
  | nil => exact block_joins []
  | cons step rest ih =>
    cases step with
    | delay ms =>
      exact sleep_joins _ (.notBefore (clock.now + ms) :: rest) fun later => ih later unechoed
    | notBefore moment =>
      exact sleep_joins _ (.notBefore moment :: rest) fun later => ih later unechoed
    | cancel => exact ih clock.cancel unechoed
    | hang => exact block_joins (.hang :: rest)
    | error fault => exact .same fun _ hdone => by cases hdone
    | act answer =>
      by_cases hdata : ∀ bytes, answer ≠ .data bytes
      · have hjoin := join_act_of_not_data hdata rest
        cases hr : (delivering written isShutDown).reply unechoed answer with
        | pass next =>
          rw [hjoin, Call.run_act_pass hr, Call.run_act_pass hr]
          exact ih clock next
        | block =>
          rw [hjoin, Call.run_act_block hr, Call.run_act_block hr, ← hjoin]
          exact block_joins _
        | fail fault next =>
          rw [hjoin, Call.run_act_fail hr, Call.run_act_fail hr]
          exact .same fun _ hdone => by cases hdone
        | done bytes next front =>
          rw [hjoin, Call.run_act_done hr, Call.run_act_done hr]
          cases answer with
          | data bytes => exact absurd rfl (hdata bytes)
          | eof =>
            cases hr
            exact .same fun _ hdone => by cases hdone; rfl
          | echo =>
            simp only [delivering] at hr
            split_ifs at hr with hempty
            cases hr
            have hjoins : Joins ⟨.done unechoed, clock, [], rest⟩
                ⟨.done (unechoed ++ []), clock, [], join rest⟩ := .ahead (by simpa using hempty) rfl
            rwa [List.append_nil] at hjoins
          | awaitWritten count => simp only [delivering] at hr; split_ifs at hr
          | awaitShutdown => simp only [delivering] at hr; split_ifs at hr
      · obtain ⟨bytes, rfl⟩ : ∃ bytes, answer = .data bytes := by
          simpa using hdata
        cases bytes with
        | nil => exact .same fun _ hdone => by cases hdone; rfl
        | cons byte bytes =>
          obtain ⟨more, others, hrest, hprepend⟩ := exists_leftover (join rest)
          rw [join, hprepend, List.cons_append, leftover_cons]
          exact .ahead (List.cons_ne_nil _ _) hrest

variable {link : Link} {limit : Limit} {clock : Clock}

theorem deliver_joined (link : Link) (limit : Limit) (clock : Clock) :
    (∃ bytes more later after after', bytes ≠ [] ∧
      link.deliver limit clock = ⟨.done bytes, later, after⟩ ∧
      link.joined.deliver limit clock = ⟨.done (bytes ++ more), later, after'⟩ ∧
      after.joined = after'.pending more) ∨
    ((∀ bytes, (link.deliver limit clock).ending = .done bytes → bytes = []) ∧
      link.joined.deliver limit clock = (link.deliver limit clock).joined) := by
  have h := delivering_run_joins link.written.length link.isShutDown limit clock link.unechoed
    link.script.read
  have hlink : link.deliver limit clock =
      ((delivering link.written.length link.isShutDown).run limit clock link.unechoed
        link.script.read).moved link.afterDelivery := rfl
  have hjoined : link.joined.deliver limit clock =
      ((delivering link.written.length link.isShutDown).run limit clock link.unechoed
        (join link.script.read)).moved link.joined.afterDelivery := rfl
  rw [hlink, hjoined]
  generalize (delivering _ _).run limit clock _ link.script.read = settled at h ⊢
  generalize (delivering _ _).run limit clock _ (join link.script.read) = settled' at h ⊢
  cases h with
  | @ahead bytes more state later steps rest hb hsteps =>
    refine .inl ⟨bytes, more, later, _, _, hb, rfl, rfl, ?_⟩
    simp only [joined, PeerScript.joined, afterDelivery, pending, hsteps]
  | same hover => exact .inr ⟨hover, rfl⟩

theorem write_joined (link : Link) (data : Bytes) (limit : Limit) (clock : Clock) :
    link.joined.write data limit clock = (link.write data limit clock).joined := by
  cases data with
  | nil => rfl
  | cons byte bytes =>
    have hrun := writing_run_trim (byte :: bytes).length limit clock 0 link.script.write
    exact congrArg (Settled.moved · (link.joined.afterWrite (byte :: bytes))) hrun

theorem andThen_joined {m : Moved Unit} {next : Link → Clock → Moved Unit}
    (h : ∀ link clock, next link.joined clock = (next link clock).joined) :
    m.joined.andThen next = (m.andThen next).joined := by
  by_cases hd : m.ending = .done ()
  · rw [Moved.andThen_of_done next hd, Moved.andThen_of_done next (by exact hd)]
    exact h m.link m.clock
  · rw [Moved.andThen_of_not_done next hd, Moved.andThen_of_not_done next (by exact hd)]

theorem send_joined (link : Link) (data : Bytes) (halfClose : Bool) (limit : Limit)
    (clock : Clock) :
    link.joined.send data halfClose limit clock =
      (link.send data halfClose limit clock).joined := by
  rw [send_eq_andThen, send_eq_andThen, write_joined]
  apply andThen_joined
  intro link clock
  have hflush : link.joined.flush limit clock = (link.flush limit clock).joined := rfl
  rw [hflush]
  apply andThen_joined
  intro link clock
  cases halfClose with
  | false => rfl
  | true => rfl

/-- A capture on a joined link, which may get more with a delivery, captures the same. -/
theorem capture_joined (timeout : Duration) {link : Link} {clock : Clock} (received : Bytes)
    (hcalm : link.script.IsCalm) (hc : clock.cancelAt = none) :
    link.joined.capture timeout clock received = (link.capture timeout clock received).joined := by
  induction hn : link.backlog using Nat.strongRecOn generalizing link clock received with
  | ind n ih =>
    have hcan := Clock.isCancelled_of_none hc
    have hcalm' := deliver_isCalm hcalm ⟨timeout.deadline clock.now, true⟩ clock
    rcases deliver_joined link ⟨timeout.deadline clock.now, true⟩ clock with
      ⟨bytes, more, later, after, after', hb, hlink, hjoined, hafter⟩ | ⟨hover, hjoined⟩
    · rw [hlink] at hcalm'
      have hlater : later.cancelAt = none := hcalm'.cancelAt_eq.trans hc
      have hlaterCan := Clock.isCancelled_of_none hlater
      have hboth : bytes ++ more ≠ [] := fun h => hb (List.append_eq_nil_iff.1 h).1
      have hlt := backlog_lt_of_delivered hb hlink
      have htook : (after.took bytes).joined = (after'.took bytes).pending more :=
        congrArg (took · bytes) hafter
      calc link.joined.capture timeout clock received
        _ = (after'.took (bytes ++ more)).capture timeout later (received ++ (bytes ++ more)) :=
          capture_of_delivered received hcan hlaterCan hboth hjoined
        _ = ((after'.took bytes).pending more).capture timeout later (received ++ bytes) := by
          rw [capture_pending _ _ _ _ hlaterCan, took_took, List.append_assoc]
        _ = (after.took bytes).joined.capture timeout later (received ++ bytes) := by rw [htook]
        _ = ((after.took bytes).capture timeout later (received ++ bytes)).joined :=
          ih _ (hn ▸ hlt) (received ++ bytes) hcalm'.script hlater rfl
        _ = (link.capture timeout clock received).joined := by
          rw [capture_of_delivered received hcan hlaterCan hb hlink]
    · rw [capture_of_not_delivered received hcan hover,
        capture_of_not_delivered received hcan (by rw [hjoined]; exact hover), hjoined]
      rfl

theorem exchange_joined (data : Bytes) (settings : Replay.Settings) (halfClose : Bool)
    (hcalm : link.script.IsCalm) (hc : clock.cancelAt = none) :
    link.joined.exchange data settings halfClose clock =
      (link.exchange data settings halfClose clock).joined := by
  have hcan := Clock.isCancelled_of_none hc
  have hsend : link.joined.sendAll data settings halfClose clock =
      (link.sendAll data settings halfClose clock).joined := send_joined _ _ _ _ _
  have hsent : (link.sendAll data settings halfClose clock).IsCalm clock.cancelAt :=
    send_isCalm hcalm data halfClose ⟨settings.writeTimeout.deadline clock.now, true⟩ clock
  by_cases hs : (link.sendAll data settings halfClose clock).ending = .done ()
  · rw [exchange_of_sent hcan hs, exchange_of_sent hcan (by rw [hsend]; exact hs), hsend]
    exact capture_joined settings.readTimeout [] hsent.script (hsent.cancelAt_eq.trans hc)
  · rw [exchange_of_unsent hcan hs, exchange_of_unsent hcan (by rw [hsend]; exact hs), hsend]
    rfl

end Link

end WireReplay
