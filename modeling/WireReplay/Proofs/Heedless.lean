import WireReplay.Proofs.Calm

/-!
# Calls that heed no cancellation

Of a run that nothing cancels it cannot be told whether its calls would heed a cancellation: they
take the same course as calls that would not, and neither they nor a turn made of them end by being
cancelled.
-/

namespace WireReplay

/-- The same limit for a call that heeds no cancellation. -/
def Limit.heedless (limit : Limit) : Limit := { limit with cancellable := false }

theorem Clock.wait_heedless {clock : Clock} (hc : clock.cancelAt = none) (limit : Limit)
    (ready : Option Nat) : clock.wait limit.heedless ready = clock.wait limit ready := by
  have hheeded : ∀ limit, clock.heeded limit = none := fun limit => by rw [heeded, hc, ite_self]
  unfold wait
  rw [hheeded, hheeded]
  rfl

theorem Clock.heeded_of_heedless {limit : Limit} (hl : limit.cancellable = false) (clock : Clock) :
    clock.heeded limit = none := by
  simp [heeded, hl]

theorem Clock.wait_ne_cancelled (clock : Clock) {limit : Limit} (hl : limit.cancellable = false)
    (ready : Option Nat) : (clock.wait limit ready).1 ≠ .cancelled := by
  unfold wait
  rw [heeded_of_heedless hl]
  cases ready <;> cases limit.deadline <;> simp <;> split_ifs <;> simp

namespace Call

variable {σ α β : Type} {call : Call σ α β} {limit : Limit} {clock : Clock} {state : σ}

theorem sleep_heedless {ready : Option Nat} {left : List (Step α)}
    {onward onward' : Clock → Settled σ α β} (hc : clock.cancelAt = none)
    (h : ∀ later : Clock, later.cancelAt = none → onward' later = onward later) :
    sleep limit.heedless ready clock state left onward' =
      sleep limit ready clock state left onward := by
  have hlater := clock.wait_cancelAt limit ready
  unfold sleep
  rw [Clock.wait_heedless hc]
  generalize clock.wait limit ready = waited at hlater ⊢
  obtain ⟨wake, later⟩ := waited
  cases wake with
  | ready => exact h later (hlater.trans hc)
  | _ => rfl

/-- Where nothing cancels the run, it makes no difference whether a call heeds cancellation. -/
theorem run_heedless (call : Call σ α β) (limit : Limit) (state : σ) {steps : List (Step α)}
    (hs : Step.cancel ∉ steps) (hc : clock.cancelAt = none) :
    call.run limit.heedless clock state steps = call.run limit clock state steps := by
  induction steps generalizing clock state with
  | nil =>
    rw [run, run]
    split
    · rfl
    · exact sleep_heedless hc fun _ _ => rfl
  | cons step rest ih =>
    have hrest : Step.cancel ∉ rest := fun h => hs (List.mem_cons_of_mem _ h)
    cases step with
    | delay ms => exact sleep_heedless hc fun later hlater => ih state hrest hlater
    | notBefore moment => exact sleep_heedless hc fun later hlater => ih state hrest hlater
    | cancel => exact absurd List.mem_cons_self hs
    | hang => exact sleep_heedless hc fun _ _ => rfl
    | error fault => rw [run, run, ih state hrest hc]
    | act answer =>
      cases hr : call.reply state answer with
      | pass next => rw [run_act_pass hr, run_act_pass hr]; exact ih next hrest hc
      | block => rw [run_act_block hr, run_act_block hr]; exact sleep_heedless hc fun _ _ => rfl
      | fail fault next => rw [run_act_fail hr, run_act_fail hr]
      | done value next front => rw [run_act_done hr, run_act_done hr]

theorem sleep_ending_ne_cancelled {ready : Option Nat} {left : List (Step α)}
    {onward : Clock → Settled σ α β} (hl : limit.cancellable = false)
    (h : ∀ later, (onward later).ending ≠ .cancelled) :
    (sleep limit ready clock state left onward).ending ≠ .cancelled := by
  have hw := clock.wait_ne_cancelled hl ready
  unfold sleep
  split <;> rename_i later heq <;> rw [heq] at hw
  · exact h later
  · simp
  · exact absurd rfl hw
  · simp

theorem run_ending_ne_cancelled (call : Call σ α β) (hl : limit.cancellable = false)
    (clock : Clock) (state : σ) (steps : List (Step α)) :
    (call.run limit clock state steps).ending ≠ .cancelled := by
  fun_induction Call.run call limit clock state steps with
  | case3 clock state ms rest ih => exact sleep_ending_ne_cancelled hl ih
  | case4 clock state moment rest ih => exact sleep_ending_ne_cancelled hl ih
  | case5 clock state rest ih => exact ih
  | case7 clock state fault rest hr ih => exact ih
  | case9 clock state answer rest next hr ih => exact ih
  | case2 | case6 | case10 => exact sleep_ending_ne_cancelled hl fun _ => by simp
  | case1 | case8 | case11 | case12 => simp

end Call

namespace Link

variable {link : Link} {limit : Limit} {clock : Clock}

theorem write_heedless (h : link.script.IsCalm) (data : Bytes) (limit : Limit)
    (hc : clock.cancelAt = none) :
    link.write data limit.heedless clock = link.write data limit clock := by
  cases data with
  | nil => rfl
  | cons byte bytes =>
    rw [write_cons_eq, write_cons_eq]
    exact congrArg (Settled.moved · _) (Call.run_heedless _ limit 0 h.write hc)

theorem flush_heedless (h : link.script.IsCalm) (limit : Limit) (hc : clock.cancelAt = none) :
    link.flush limit.heedless clock = link.flush limit clock :=
  congrArg (Settled.moved · link.afterFlush) (Call.run_heedless signalling limit () h.flush hc)

theorem shutDown_heedless (h : link.script.IsCalm) (limit : Limit) (hc : clock.cancelAt = none) :
    link.shutDown limit.heedless clock = link.shutDown limit clock :=
  congrArg (Settled.moved · link.afterShutDown)
    (Call.run_heedless signalling limit () h.shutdown hc)

theorem andThen_congr {m : Moved Unit} {next next' : Link → Clock → Moved Unit}
    (h : m.ending = .done () → next m.link m.clock = next' m.link m.clock) :
    m.andThen next = m.andThen next' := by
  by_cases hd : m.ending = .done ()
  · rw [Moved.andThen_of_done next hd, Moved.andThen_of_done next' hd, h hd]
  · rw [Moved.andThen_of_not_done next hd, Moved.andThen_of_not_done next' hd]

theorem send_heedless (h : link.script.IsCalm) (data : Bytes) (halfClose : Bool) (limit : Limit)
    (hc : clock.cancelAt = none) :
    link.send data halfClose limit.heedless clock = link.send data halfClose limit clock := by
  have hwritten := write_isCalm h data limit clock
  rw [send_eq_andThen, send_eq_andThen, write_heedless h data limit hc]
  apply andThen_congr
  intro _
  have hwrittenClock := hwritten.cancelAt_eq.trans hc
  have hflushed : ((link.write data limit clock).link.flush limit
      (link.write data limit clock).clock).IsCalm (link.write data limit clock).clock.cancelAt :=
    flush_isCalm hwritten.script
  rw [flush_heedless hwritten.script limit hwrittenClock]
  apply andThen_congr
  intro _
  have hflushedClock := hflushed.cancelAt_eq.trans hwrittenClock
  rw [shutDown_heedless hflushed.script limit hflushedClock]

theorem andThen_ending_ne_cancelled {m : Moved Unit} {next : Link → Clock → Moved Unit}
    (hm : m.ending ≠ .cancelled) (h : ∀ link clock, (next link clock).ending ≠ .cancelled) :
    (m.andThen next).ending ≠ .cancelled := by
  by_cases hd : m.ending = .done ()
  · rw [Moved.andThen_of_done next hd]
    exact h m.link m.clock
  · rwa [Moved.andThen_of_not_done next hd]

theorem send_ending_ne_cancelled (hl : limit.cancellable = false) (link : Link) (data : Bytes)
    (halfClose : Bool) (clock : Clock) :
    (link.send data halfClose limit clock).ending ≠ .cancelled := by
  have hwrite : (link.write data limit clock).ending ≠ .cancelled := by
    cases data with
    | nil => simp [write]
    | cons => exact Call.run_ending_ne_cancelled _ hl _ _ _
  rw [send_eq_andThen]
  apply andThen_ending_ne_cancelled hwrite
  intro link clock
  apply andThen_ending_ne_cancelled (Call.run_ending_ne_cancelled _ hl _ _ _)
  intro link clock
  cases halfClose with
  | false => simp
  | true => exact Call.run_ending_ne_cancelled _ hl _ _ _

theorem read_heedless (h : link.script.IsCalm) (room : Nat) (limit : Limit)
    (hc : clock.cancelAt = none) :
    link.read room limit.heedless clock = link.read room limit clock :=
  congrArg (Settled.moved · link.afterRead)
    (Call.run_heedless (reading room _ _) limit link.unechoed h.read hc)

theorem readNext_ending_ne_cancelled (h : link.script.IsCalm) (timeout : Duration)
    (hc : clock.cancelAt = none) : (link.readNext timeout clock).ending ≠ .cancelled := by
  have hread := read_heedless h captureRoom ⟨timeout.deadline clock.now, true⟩ hc
  rw [readNext, ← hread]
  exact Call.run_ending_ne_cancelled _ rfl _ _ _

theorem capture_verdict_ne_cancelled (h : link.script.IsCalm) (timeout : Duration)
    (hc : clock.cancelAt = none) (received : Bytes) :
    (link.capture timeout clock received).verdict ≠ some .cancelled := by
  revert h hc
  apply capture_induction timeout (P := fun link clock _ turn =>
    link.script.IsCalm → clock.cancelAt = none → turn.verdict ≠ some .cancelled)
  · intro link clock received hcan _ hc
    rw [Clock.isCancelled_of_none hc] at hcan
    cases hcan
  · intro link clock received _ _ h hc
    have hending := readNext_ending_ne_cancelled h timeout hc
    generalize (link.readNext timeout clock).ending = ending at hending
    cases ending <;> simp_all [Ending.lastVerdict]
  · intro link clock received bytes turn _ _ _ ih h hc
    have hread := read_isCalm h captureRoom ⟨timeout.deadline clock.now, true⟩ clock
    exact ih hread.script (hread.cancelAt_eq.trans hc)

/-- A turn that nothing cancels is not cancelled. -/
theorem exchange_verdict_ne_cancelled (h : link.script.IsCalm) (data : Bytes)
    (settings : Replay.Settings) (halfClose : Bool) (hc : clock.cancelAt = none) :
    (link.exchange data settings halfClose clock).verdict ≠ some .cancelled := by
  have hcan := Clock.isCancelled_of_none hc
  have hcalm := send_isCalm h data halfClose ⟨settings.writeTimeout.deadline clock.now, true⟩ clock
  by_cases hs : (link.sendAll data settings halfClose clock).ending = .done ()
  · rw [exchange_of_sent hcan hs]
    exact capture_verdict_ne_cancelled hcalm.script _ (hcalm.cancelAt_eq.trans hc) _
  · have hending : (link.sendAll data settings halfClose clock).ending ≠ .cancelled := by
      have hsend := send_heedless h data halfClose
        ⟨settings.writeTimeout.deadline clock.now, true⟩ hc
      rw [sendAll, ← hsend]
      exact send_ending_ne_cancelled rfl _ _ _ _
    rw [exchange_of_unsent hcan hs]
    generalize (link.sendAll data settings halfClose clock).ending = ending at hs hending
    cases ending <;> simp_all [Ending.unsentVerdict]

end Link

end WireReplay
