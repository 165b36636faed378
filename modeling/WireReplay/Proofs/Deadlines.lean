import WireReplay.Proofs.Time

/-!
# Calls that are over by their deadline

A call whose limit has a deadline does not wait for good. It is over by the deadline, and if it
times out, it does so at the deadline and not before it. So connecting and sending take no longer
than their timeouts, and a capture no longer than one timeout for each byte and one for the end.
-/

namespace WireReplay

/-- The timeout is of so many whole milliseconds, and a clock can show the moment at which it
ends. -/
structure Duration.IsMillis (d : Duration) (ms : Nat) : Prop where
  eq : d = .ofMillis ms
  measurable : d.isMeasurable = true

theorem Duration.isMillis_ofMillis {ms : Nat} (h : ms < UInt64.size) :
    (ofMillis ms).IsMillis ms where
  eq := rfl
  measurable := by
    have hlt : ms * 1000000 < 0x8000000000000000 * 1000000000 := by
      simp only [UInt64.size] at h
      omega
    exact decide_eq_true hlt

theorem Duration.IsMillis.deadline {d : Duration} {ms : Nat} (h : d.IsMillis ms) (now : Nat) :
    d.deadline now = some (now + ms) := by
  rw [Duration.deadline, if_pos h.measurable, h.eq, ticks_ofMillis]

/-- How a wait ends, and the clock after it, if something was to end it at `deadline`. -/
structure Wake.InTime (wake : Wake) (later : Clock) (deadline : Nat) : Prop where
  ends : wake ≠ .never
  now_le : later.now ≤ deadline
  now_eq : wake = .timedOut → later.now = deadline

theorem Clock.wait_inTime {clock : Clock} {limit : Limit} {deadline : Nat} (ready : Option Nat)
    (hd : limit.deadline = some deadline) (hn : clock.now ≤ deadline) :
    (clock.wait limit ready).1.InTime (clock.wait limit ready).2 deadline := by
  unfold wait
  rw [hd]
  split_ifs with hready hover hcancel
  · exact ⟨by simp, hn, by simp⟩
  · have hle : deadline ≤ clock.now := by simpa using hover
    exact ⟨by simp, hn, fun _ => Nat.le_antisymm hn hle⟩
  · refine ⟨by simp, ?_, by simp⟩
    cases hk : clock.heeded limit with
    | none => rw [hk] at hcancel; simp at hcancel
    | some k =>
      rw [hk] at hcancel
      have hle : k ≤ deadline := by simp at hcancel; omega
      simp only [advance, Option.getD_some]
      omega
  · cases ready with
    | none => exact ⟨by simp, by simp only [advance]; omega, by simp only [advance]; omega⟩
    | some t =>
      by_cases ht : t ≤ deadline
      · simp only [if_pos ht]
        exact ⟨by simp, by simp only [advance]; omega, by simp⟩
      · simp only [if_neg ht]
        exact ⟨by simp, by simp only [advance]; omega, by simp only [advance]; omega⟩

structure Settled.InTime {σ α β : Type} (settled : Settled σ α β) (deadline : Nat) : Prop where
  ends : settled.ending ≠ .never
  now_le : settled.clock.now ≤ deadline
  now_eq : settled.ending = .timedOut → settled.clock.now = deadline

namespace Call

variable {σ α β : Type} {call : Call σ α β} {limit : Limit} {clock : Clock} {state : σ}
  {deadline : Nat}

theorem sleep_inTime {ready : Option Nat} {left : List (Step α)} {onward : Clock → Settled σ α β}
    (hd : limit.deadline = some deadline) (hn : clock.now ≤ deadline)
    (h : ready ≠ none → ∀ later : Clock, later.now ≤ deadline → (onward later).InTime deadline) :
    (sleep limit ready clock state left onward).InTime deadline := by
  have hw := clock.wait_inTime ready hd hn
  have hnone (hr : ready = none) : (clock.wait limit ready).1 ≠ .ready := by
    subst hr
    unfold Clock.wait
    rw [hd]
    split_ifs <;> simp_all
  unfold sleep
  generalize clock.wait limit ready = waited at hw hnone
  obtain ⟨wake, later⟩ := waited
  cases wake with
  | ready => exact h (fun hr => hnone hr rfl) later hw.now_le
  | timedOut => exact ⟨by simp, hw.now_le, fun _ => hw.now_eq rfl⟩
  | cancelled => exact ⟨by simp, hw.now_le, by simp⟩
  | never => exact absurd rfl hw.ends

theorem block_inTime {left : List (Step α)} (hd : limit.deadline = some deadline)
    (hn : clock.now ≤ deadline) :
    (block limit clock state left : Settled σ α β).InTime deadline :=
  sleep_inTime hd hn fun h => absurd rfl h

theorem run_inTime (call : Call σ α β) (state : σ) (steps : List (Step α))
    (hd : limit.deadline = some deadline) (hn : clock.now ≤ deadline) :
    (call.run limit clock state steps).InTime deadline := by
  induction steps generalizing clock state with
  | nil =>
    rw [run]
    split
    · exact ⟨by simp, hn, by simp⟩
    · exact block_inTime hd hn
  | cons step rest ih =>
    cases step with
    | delay ms => exact sleep_inTime hd hn fun _ later hlater => ih state hlater
    | notBefore moment => exact sleep_inTime hd hn fun _ later hlater => ih state hlater
    | cancel => exact @ih clock.cancel state hn
    | hang => exact block_inTime hd hn
    | error fault =>
      rw [run]
      split
      · exact ih state hn
      · exact ⟨by simp, hn, by simp⟩
    | act answer =>
      cases hr : call.reply state answer with
      | pass next => rw [run_act_pass hr]; exact ih next hn
      | block => rw [run_act_block hr]; exact block_inTime hd hn
      | fail fault next => rw [run_act_fail hr]; exact ⟨by simp, hn, by simp⟩
      | done value next front => rw [run_act_done hr]; exact ⟨by simp, hn, by simp⟩

end Call

structure Moved.InTime {β : Type} (m : Moved β) (deadline : Nat) : Prop where
  ends : m.ending ≠ .never
  now_le : m.clock.now ≤ deadline
  now_eq : m.ending = .timedOut → m.clock.now = deadline

theorem Settled.InTime.moved {σ α β : Type} {settled : Settled σ α β} {deadline : Nat}
    (h : settled.InTime deadline) (after : Ending β → σ → List (Step α) → Link) :
    (settled.moved after).InTime deadline := ⟨h.ends, h.now_le, h.now_eq⟩

theorem Moved.InTime.andThen {m : Moved Unit} {deadline : Nat} {next : Link → Clock → Moved Unit}
    (hm : m.InTime deadline)
    (h : ∀ link (clock : Clock), clock.now ≤ deadline → (next link clock).InTime deadline) :
    (m.andThen next).InTime deadline := by
  by_cases hd : m.ending = .done ()
  · rw [Moved.andThen_of_done next hd]
    exact h m.link m.clock hm.now_le
  · rwa [Moved.andThen_of_not_done next hd]

namespace Link

variable {limit : Limit} {clock : Clock} {deadline : Nat} {timeout : Duration} {ms : Nat}

theorem write_inTime (link : Link) (data : Bytes) (hd : limit.deadline = some deadline)
    (hn : clock.now ≤ deadline) : (link.write data limit clock).InTime deadline := by
  cases data with
  | nil => exact ⟨by simp [write], hn, by simp [write]⟩
  | cons byte bytes =>
    rw [write_cons_eq]
    exact (Call.run_inTime _ 0 _ hd hn).moved _

/-- All phases of sending share one deadline. -/
theorem send_inTime (link : Link) (data : Bytes) (halfClose : Bool)
    (hd : limit.deadline = some deadline) (hn : clock.now ≤ deadline) :
    (link.send data halfClose limit clock).InTime deadline := by
  rw [send_eq_andThen]
  apply (write_inTime link data hd hn).andThen
  intro link clock hn
  rw [flush_eq]
  apply ((Call.run_inTime signalling () link.script.flush hd hn).moved link.afterFlush).andThen
  intro link clock hn
  cases halfClose with
  | false => exact ⟨by simp, hn, by simp⟩
  | true =>
    exact (Call.run_inTime signalling () link.script.shutdown hd hn).moved link.afterShutDown

theorem sendAll_inTime (link : Link) (data : Bytes) {settings : Replay.Settings} (halfClose : Bool)
    (clock : Clock) (h : settings.writeTimeout.IsMillis ms) :
    (link.sendAll data settings halfClose clock).InTime (clock.now + ms) :=
  send_inTime link data halfClose (h.deadline clock.now) (Nat.le_add_right _ _)

theorem readNext_inTime (link : Link) (clock : Clock) (h : timeout.IsMillis ms) :
    (link.readNext timeout clock).InTime (clock.now + ms) := by
  rw [readNext, read_eq]
  apply Settled.InTime.moved
  exact Call.run_inTime _ _ _ (h.deadline clock.now) (Nat.le_add_right _ _)

end Link

/-- A turn that received so many bytes since `now` is over, and took no longer than `ms` for each of
them and for its end, and no shorter than `ms` if its peer fell silent. -/
structure Turn.InTime (turn : Turn) (now ms count : Nat) : Prop where
  ends : turn.verdict ≠ none
  now_le : turn.clock.now ≤ now + (count + 1) * ms
  le_now : turn.verdict = some .silent → now + ms ≤ turn.clock.now

theorem Ending.lastVerdict_ne_none {ending : Ending Bytes} (h : ending ≠ .never) :
    ending.lastVerdict ≠ none := by
  cases ending <;> simp_all [lastVerdict]

theorem Ending.eq_timedOut_of_silent {ending : Ending Bytes}
    (h : ending.lastVerdict = some .silent) : ending = .timedOut := by
  cases ending <;> simp_all [lastVerdict]

theorem Ending.unsentVerdict_ne_silent (timeout : Duration) (ending : Ending Unit) :
    ending.unsentVerdict timeout ≠ some .silent := by
  cases ending <;> simp [unsentVerdict]

namespace Link

variable {timeout : Duration} {ms : Nat}

theorem capture_inTime (link : Link) (clock : Clock) (received : Bytes)
    (h : timeout.IsMillis ms) : ∃ more,
      (link.capture timeout clock received).received = received ++ more ∧
        (link.capture timeout clock received).InTime clock.now ms more.length := by
  apply capture_induction timeout (P := fun _ clock received turn => ∃ more,
    turn.received = received ++ more ∧ turn.InTime clock.now ms more.length)
  · intro link clock received _
    refine ⟨[], (List.append_nil _).symm, by simp, ?_, by simp⟩
    exact Nat.le_add_right _ _
  · intro link clock received _ _
    have hread := readNext_inTime link clock h
    refine ⟨[], (List.append_nil _).symm, Ending.lastVerdict_ne_none hread.ends, ?_, ?_⟩
    · simpa using hread.now_le
    · intro hv
      exact Nat.le_of_eq (hread.now_eq (Ending.eq_timedOut_of_silent hv)).symm
  · intro link clock received bytes turn _ _ hb ih
    obtain ⟨more, hr, hturn⟩ := ih
    have hread := readNext_inTime link clock h
    have hlater : clock.now ≤ (link.readNext timeout clock).clock.now := now_le_read
    have hlength : 1 ≤ bytes.length := List.length_pos_iff.2 hb
    refine ⟨bytes ++ more, by rw [hr, List.append_assoc], hturn.ends, ?_, ?_⟩
    · have hpaid : ms + (more.length + 1) * ms ≤ ((bytes ++ more).length + 1) * ms := by
        calc ms + (more.length + 1) * ms
          _ = (1 + (more.length + 1)) * ms := by rw [Nat.add_mul 1, Nat.one_mul]
          _ ≤ ((bytes ++ more).length + 1) * ms := by
            apply Nat.mul_le_mul_right
            rw [List.length_append]
            omega
      have hnow := hread.now_le
      have hrest := hturn.now_le
      omega
    · intro hv
      have hsilent := hturn.le_now hv
      omega

/-- A turn is over by the end of the write timeout and of one read timeout for each byte received
and one for the end. -/
theorem exchange_inTime (link : Link) (data : Bytes) {settings : Replay.Settings}
    (halfClose : Bool) (clock : Clock) {write read : Nat}
    (hw : settings.writeTimeout.IsMillis write) (hr : settings.readTimeout.IsMillis read) :
    (link.exchange data settings halfClose clock).verdict ≠ none ∧
      (link.exchange data settings halfClose clock).clock.now ≤ clock.now +
        (write + ((link.exchange data settings halfClose clock).received.length + 1) * read) ∧
      ((link.exchange data settings halfClose clock).verdict = some .silent →
        clock.now + read ≤ (link.exchange data settings halfClose clock).clock.now) := by
  have hsend := sendAll_inTime link data halfClose clock hw
  have hsent : clock.now ≤ (link.sendAll data settings halfClose clock).clock.now :=
    link.now_le_send _ _ _ _
  cases hc : clock.isCancelled with
  | true =>
    rw [exchange_of_cancelled data settings halfClose hc]
    exact ⟨by simp, Nat.le_add_right _ _, by simp⟩
  | false =>
    by_cases hs : (link.sendAll data settings halfClose clock).ending = .done ()
    · rw [exchange_of_sent hc hs]
      obtain ⟨more, hmore, hturn⟩ := capture_inTime
        (link.sendAll data settings halfClose clock).link
        (link.sendAll data settings halfClose clock).clock [] hr
      rw [hmore, List.nil_append]
      refine ⟨hturn.ends, ?_, ?_⟩
      · have hnow := hturn.now_le
        have hstart := hsend.now_le
        omega
      · intro hv
        have hsilent := hturn.le_now hv
        omega
    · rw [exchange_of_unsent hc hs]
      refine ⟨?_, ?_, fun hv => absurd hv (Ending.unsentVerdict_ne_silent _ _)⟩
      · have hends := hsend.ends
        generalize (link.sendAll data settings halfClose clock).ending = ending at hs hends
        cases ending <;> simp_all [Ending.unsentVerdict]
      · have hnow := hsend.now_le
        dsimp only
        omega

end Link

theorem Network.dial_inTime {net : Network} {attempt : Nat} {timeout : Duration} {ms : Nat}
    {clock later : Clock} {dialed : Dialed} (h : timeout.IsMillis ms)
    (hd : net.dial attempt timeout clock = (dialed, later)) :
    dialed ≠ .never ∧ later.now ≤ clock.now + ms := by
  have hrun : (net.dialing attempt timeout clock).InTime (clock.now + ms) :=
    Call.run_inTime _ () _ (h.deadline clock.now) (Nat.le_add_right _ _)
  rw [dial_eq] at hd
  obtain ⟨rfl, rfl⟩ := Prod.mk.inj hd
  refine ⟨?_, hrun.now_le⟩
  have hends := hrun.ends
  generalize (net.dialing attempt timeout clock).ending = ending at hends
  cases ending <;> simp_all [dialed]

end WireReplay
