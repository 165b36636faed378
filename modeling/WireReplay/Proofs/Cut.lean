import WireReplay.Proofs.Arrivals
import WireReplay.Proofs.Calm

/-!
# Turns that are cut short

The same call is made twice at one moment against one calm script: once undisturbed, and once with
the run to be cancelled at a later moment `n`. If the undisturbed call is over before `n`, the
other one does the same; if not, the other one is cancelled, at `n`. This is handed on from the
calls to the phases of a turn and from them to the turn.
-/

namespace WireReplay

def Clock.cancelledAt (clock : Clock) (n : Nat) : Clock := { clock with cancelAt := some n }

theorem Clock.cancelledAt_isCancelled {clock : Clock} {n : Nat} (h : clock.now < n) :
    (clock.cancelledAt n).isCancelled = false := by
  exact decide_eq_false (Nat.not_le_of_lt h)

theorem Clock.wait_none_ne_ready (clock : Clock) (limit : Limit) :
    (clock.wait limit none).1 ≠ .ready := by
  unfold wait
  rw [if_neg (by simp)]
  split_ifs
  · simp
  · simp
  · cases limit.deadline <;> simp

/-- A wait that is over before `n` is not changed by a cancellation at `n`, and any other wait is
cancelled then. -/
theorem Clock.wait_cancelledAt {clock : Clock} {limit : Limit} (ready : Option Nat) {n : Nat}
    (hc : clock.cancelAt = none) (hn : clock.now < n) (hl : limit.cancellable = true) :
    ((clock.wait limit ready).1 ≠ .never ∧ (clock.wait limit ready).2.now < n ∧
      (clock.cancelledAt n).wait limit ready =
        ((clock.wait limit ready).1, (clock.wait limit ready).2.cancelledAt n)) ∨
    (((clock.wait limit ready).1 = .never ∨ n ≤ (clock.wait limit ready).2.now) ∧
      (clock.cancelledAt n).wait limit ready = (.cancelled, ⟨n, some n⟩)) := by
  have hfree : clock.heeded limit = none := by rw [heeded, hc, ite_self]
  have hcut : (clock.cancelledAt n).heeded limit = some n := if_pos hl
  have hnow : max clock.now n = n := Nat.max_eq_right (Nat.le_of_lt hn)
  unfold wait
  rw [hfree, hcut]
  cases ready with
  | none =>
    cases limit.deadline with
    | none => simp [advance, cancelledAt, hnow]
    | some d => grind [advance, cancelledAt]
  | some t =>
    cases limit.deadline with
    | none => grind [advance, cancelledAt]
    | some d => grind [advance, cancelledAt]

/-- How a call that is cancelled at `n` relates to the undisturbed one, `free`. -/
inductive Settled.Cut {σ α β : Type} (n : Nat) (free : Settled σ α β) : Settled σ α β → Prop
  | spared (_ : free.ending ≠ .never) (_ : free.clock.now < n) :
      Cut n free { free with clock := free.clock.cancelledAt n }
  | cut {state : σ} {steps : List (Step α)} (_ : free.ending = .never ∨ n ≤ free.clock.now) :
      Cut n free ⟨.cancelled, ⟨n, some n⟩, state, steps⟩

namespace Call

variable {σ α β : Type} {call : Call σ α β} {limit : Limit} {clock : Clock} {state : σ} {n : Nat}

theorem sleep_cut {ready : Option Nat} {left : List (Step α)} {onward : Clock → Settled σ α β}
    (hc : clock.cancelAt = none) (hn : clock.now < n) (hl : limit.cancellable = true)
    (hnow : ∀ later : Clock, later.now ≤ (onward later).clock.now)
    (h : ready ≠ none → ∀ later : Clock, later.cancelAt = none → later.now < n →
      Settled.Cut n (onward later) (onward (later.cancelledAt n))) :
    Settled.Cut n (sleep limit ready clock state left onward)
      (sleep limit ready (clock.cancelledAt n) state left onward) := by
  have hcancel := clock.wait_cancelAt limit ready
  have hready := clock.wait_none_ne_ready limit
  unfold sleep
  rcases Clock.wait_cancelledAt ready hc hn hl with ⟨hne, hlt, hw⟩ | ⟨hlate, hw⟩
  · rw [hw]
    rcases hfree : clock.wait limit ready with ⟨wake, later⟩
    rw [hfree] at hne hlt hcancel
    cases wake with
    | ready =>
      refine h ?_ later (hcancel.trans hc) hlt
      rintro rfl
      exact hready (congrArg Prod.fst hfree)
    | timedOut => exact .spared (by simp) hlt
    | cancelled => exact .spared (by simp) hlt
    | never => exact absurd rfl hne
  · rw [hw]
    refine .cut ?_
    rcases hfree : clock.wait limit ready with ⟨wake, later⟩
    rw [hfree] at hlate
    cases wake with
    | never => exact .inl rfl
    | ready => exact .inr ((hlate.resolve_left (by simp)).trans (hnow later))
    | timedOut => exact .inr (hlate.resolve_left (by simp))
    | cancelled => exact .inr (hlate.resolve_left (by simp))

theorem block_cut {left : List (Step α)} (hc : clock.cancelAt = none) (hn : clock.now < n)
    (hl : limit.cancellable = true) :
    Settled.Cut n (block limit clock state left : Settled σ α β)
      (block limit (clock.cancelledAt n) state left) :=
  sleep_cut hc hn hl (fun _ => le_rfl) fun h => absurd rfl h

theorem run_cut (call : Call σ α β) (hl : limit.cancellable = true) (state : σ)
    {steps : List (Step α)} (hs : Step.cancel ∉ steps) (hc : clock.cancelAt = none)
    (hn : clock.now < n) :
    Settled.Cut n (call.run limit clock state steps)
      (call.run limit (clock.cancelledAt n) state steps) := by
  induction steps generalizing clock state with
  | nil =>
    rw [run, run]
    split
    · exact .spared (by simp) hn
    · exact block_cut hc hn hl
  | cons step rest ih =>
    have hrest : Step.cancel ∉ rest := fun h => hs (List.mem_cons_of_mem _ h)
    cases step with
    | delay ms =>
      exact sleep_cut hc hn hl (fun later => now_le_run call limit later state rest)
        fun _ later => ih state hrest
    | notBefore moment =>
      exact sleep_cut hc hn hl (fun later => now_le_run call limit later state rest)
        fun _ later => ih state hrest
    | cancel => exact absurd List.mem_cons_self hs
    | hang => exact block_cut hc hn hl
    | error fault =>
      rw [run, run]
      split
      · exact ih state hrest hc hn
      · exact .spared (by simp) hn
    | act answer =>
      cases hr : call.reply state answer with
      | pass next => rw [run_act_pass hr, run_act_pass hr]; exact ih next hrest hc hn
      | block => rw [run_act_block hr, run_act_block hr]; exact block_cut hc hn hl
      | fail fault next =>
        rw [run_act_fail hr, run_act_fail hr]
        exact .spared (by simp) hn
      | done value next front =>
        rw [run_act_done hr, run_act_done hr]
        exact .spared (by simp) hn

end Call

inductive Moved.Cut {β : Type} (n : Nat) (free : Moved β) : Moved β → Prop
  | spared (_ : free.ending ≠ .never) (_ : free.clock.now < n) :
      Cut n free { free with clock := free.clock.cancelledAt n }
  | cut {link : Link} (_ : free.ending = .never ∨ n ≤ free.clock.now) :
      Cut n free ⟨.cancelled, ⟨n, some n⟩, link⟩

theorem Settled.Cut.moved {σ α β : Type} {n : Nat} {free cut : Settled σ α β} (h : Cut n free cut)
    (after : Ending β → σ → List (Step α) → Link) :
    Moved.Cut n (free.moved after) (cut.moved after) := by
  cases h with
  | spared he hn => exact .spared he hn
  | cut hlate => exact .cut hlate

theorem Moved.Cut.andThen {n : Nat} {free cut : Moved Unit} {next : Link → Clock → Moved Unit}
    (h : Cut n free cut) (hcalm : free.IsCalm none)
    (hnow : ∀ link clock, clock.now ≤ (next link clock).clock.now)
    (hnext : ∀ link clock, link.script.IsCalm → clock.cancelAt = none → clock.now < n →
      Cut n (next link clock) (next link (clock.cancelledAt n))) :
    Cut n (free.andThen next) (cut.andThen next) := by
  by_cases hd : free.ending = .done ()
  · rw [Moved.andThen_of_done next hd]
    cases h with
    | spared he hn =>
      rw [Moved.andThen_of_done next (by exact hd)]
      exact hnext free.link free.clock hcalm.script hcalm.cancelAt_eq hn
    | cut hlate =>
      rw [Moved.andThen_of_not_done next (by simp)]
      exact .cut (.inr ((hlate.resolve_left (by simp [hd])).trans (hnow _ _)))
  · rw [Moved.andThen_of_not_done next hd]
    cases h with
    | spared he hn =>
      rw [Moved.andThen_of_not_done next (by exact hd)]
      exact .spared he hn
    | cut hlate =>
      rw [Moved.andThen_of_not_done next (by simp)]
      exact .cut hlate

/-- How a turn that is cancelled at `n` relates to the undisturbed one, `free`, of which the bytes
`kept` were received before `n`. -/
inductive Turn.Cut (n : Nat) (kept : Bytes) (free : Turn) : Turn → Prop
  | spared (_ : free.verdict ≠ none) (_ : free.clock.now < n) :
      Cut n kept free { free with clock := free.clock.cancelledAt n }
  | cut {link : Link} (_ : free.verdict = none ∨ n ≤ free.clock.now) :
      Cut n kept free ⟨some .cancelled, kept, ⟨n, some n⟩, link⟩

namespace Link

variable {link : Link} {limit : Limit} {clock : Clock} {n : Nat}

theorem write_cut (h : link.script.IsCalm) (hl : limit.cancellable = true) (data : Bytes)
    (hc : clock.cancelAt = none) (hn : clock.now < n) :
    Moved.Cut n (link.write data limit clock) (link.write data limit (clock.cancelledAt n)) := by
  cases data with
  | nil => exact .spared (by simp [write]) hn
  | cons byte bytes =>
    rw [write_cons_eq, write_cons_eq]
    exact (Call.run_cut _ hl 0 h.write hc hn).moved _

theorem flush_cut (h : link.script.IsCalm) (hl : limit.cancellable = true)
    (hc : clock.cancelAt = none) (hn : clock.now < n) :
    Moved.Cut n (link.flush limit clock) (link.flush limit (clock.cancelledAt n)) := by
  rw [flush_eq, flush_eq]
  exact (Call.run_cut signalling hl () h.flush hc hn).moved _

theorem shutDown_cut (h : link.script.IsCalm) (hl : limit.cancellable = true)
    (hc : clock.cancelAt = none) (hn : clock.now < n) :
    Moved.Cut n (link.shutDown limit clock) (link.shutDown limit (clock.cancelledAt n)) := by
  rw [shutDown_eq, shutDown_eq]
  exact (Call.run_cut signalling hl () h.shutdown hc hn).moved _

theorem read_cut (h : link.script.IsCalm) (hl : limit.cancellable = true) (room : Nat)
    (hc : clock.cancelAt = none) (hn : clock.now < n) :
    Moved.Cut n (link.read room limit clock) (link.read room limit (clock.cancelledAt n)) := by
  rw [read_eq, read_eq]
  exact (Call.run_cut _ hl link.unechoed h.read hc hn).moved _

theorem send_cut (h : link.script.IsCalm) (hl : limit.cancellable = true) (data : Bytes)
    (halfClose : Bool) (hc : clock.cancelAt = none) (hn : clock.now < n) :
    Moved.Cut n (link.send data halfClose limit clock)
      (link.send data halfClose limit (clock.cancelledAt n)) := by
  rw [send_eq_andThen, send_eq_andThen]
  have hfinish : ∀ (link : Link) (clock : Clock), clock.now ≤
      (if halfClose then link.shutDown limit clock else ⟨.done (), clock, link⟩).clock.now := by
    intro link clock
    split_ifs
    · exact now_le_shutDown
    · exact le_rfl
  refine (write_cut h hl data hc hn).andThen (hc ▸ write_isCalm h data limit clock) ?_ ?_
  · exact fun link clock => now_le_flush.trans (now_le_andThen hfinish)
  · intro link clock h hc hn
    refine (flush_cut h hl hc hn).andThen (hc ▸ flush_isCalm h) hfinish ?_
    intro link clock h hc hn
    split_ifs
    · exact shutDown_cut h hl hc hn
    · exact .spared (by simp) hn

theorem readNext_cut (h : link.script.IsCalm) (timeout : Duration) (hc : clock.cancelAt = none)
    (hn : clock.now < n) :
    Moved.Cut n (link.readNext timeout clock) (link.readNext timeout (clock.cancelledAt n)) :=
  read_cut h rfl captureRoom hc hn

theorem capture_eq_of_readNext_cancelled {later : Clock} {after : Link} (timeout : Duration)
    (received : Bytes) (h : clock.isCancelled = false)
    (hr : link.readNext timeout clock = ⟨.cancelled, later, after⟩) :
    link.capture timeout clock received = ⟨some .cancelled, received, later, after⟩ := by
  rw [capture_of_over received h (by rw [hr]; simp), hr]
  rfl

theorem capture_cut_of_over (h : link.script.IsCalm) {timeout : Duration} (received : Bytes)
    (hc : clock.cancelAt = none) (hn : clock.now < n)
    (hd : ∀ bytes, (link.readNext timeout clock).ending = .done bytes → bytes = []) :
    Turn.Cut n received ⟨(link.readNext timeout clock).ending.lastVerdict, received,
        (link.readNext timeout clock).clock, (link.readNext timeout clock).link⟩
      (link.capture timeout (clock.cancelledAt n) received) := by
  have hcut := readNext_cut h timeout hc hn
  have hcan := Clock.cancelledAt_isCancelled hn
  generalize hr : link.readNext timeout (clock.cancelledAt n) = cut at hcut
  cases hcut with
  | spared he hlt =>
    rw [capture_of_over received hcan (by rw [hr]; exact hd), hr]
    refine .spared ?_ hlt
    generalize (link.readNext timeout clock).ending = ending at he
    cases ending <;> simp [Ending.lastVerdict] at he ⊢
  | cut hlate =>
    rw [capture_eq_of_readNext_cancelled timeout received hcan hr]
    exact .cut (hlate.imp_left fun he => by rw [he]; rfl)

theorem capture_cut (h : link.script.IsCalm) (timeout : Duration) (received : Bytes)
    (hc : clock.cancelAt = none) (hn : clock.now < n) :
    Turn.Cut n (received ++ Arrival.before n (link.captureArrivals timeout clock))
      (link.capture timeout clock received)
      (link.capture timeout (clock.cancelledAt n) received) := by
  refine capture_induction timeout (P := fun link clock received turn =>
    turn = link.capture timeout clock received → link.script.IsCalm → clock.cancelAt = none →
      clock.now < n →
        Turn.Cut n (received ++ Arrival.before n (link.captureArrivals timeout clock)) turn
          (link.capture timeout (clock.cancelledAt n) received))
    ?_ ?_ ?_ link clock received rfl h hc hn
  · intro link clock received hcan _ _ hc _
    rw [Clock.isCancelled_of_none hc] at hcan
    cases hcan
  · intro link clock received hcan hd _ h hc hn
    have hnone : received ++ Arrival.before n [] = received := List.append_nil _
    rw [captureArrivals_of_over hcan hd, hnone]
    exact capture_cut_of_over h received hc hn hd
  · intro link clock received bytes turn hcan hd hb ih hturn h hc hn
    have hcut := readNext_cut h timeout hc hn
    have hcalm := read_isCalm h captureRoom ⟨timeout.deadline clock.now, true⟩ clock
    have hcan' := Clock.cancelledAt_isCancelled hn
    rw [capture_of_more received hcan hd hb] at hturn
    rw [captureArrivals_of_more hcan hd hb]
    generalize hr : link.readNext timeout (clock.cancelledAt n) = cut at hcut
    cases hcut with
    | spared he hlt =>
      rw [capture_of_more received hcan' (by rw [hr]; exact hd) hb, hr,
        Arrival.before_cons_of_lt hlt, ← List.append_assoc]
      exact ih hturn hcalm.script (hcalm.cancelAt_eq.trans hc) hlt
    | cut hlate =>
      have hlt := hlate.resolve_left (by simp [hd])
      rw [capture_eq_of_readNext_cancelled timeout received hcan' hr,
        Arrival.before_eq_nil ((captureArrivals_from _ _ _).cons le_rfl) hlt, List.append_nil]
      refine .cut (.inr (hlt.trans ?_))
      rw [hturn]
      exact now_le_capture _ _ _ _

/-- A turn is spared by a later cancellation, or cut short by it and keeps what arrived before. -/
theorem exchange_cut (h : link.script.IsCalm) (data : Bytes) (settings : Replay.Settings)
    (halfClose : Bool) (hc : clock.cancelAt = none) (hn : clock.now < n) :
    Turn.Cut n (Arrival.before n (link.arrivals data settings halfClose clock))
      (link.exchange data settings halfClose clock)
      (link.exchange data settings halfClose (clock.cancelledAt n)) := by
  have hcan := Clock.isCancelled_of_none hc
  have hcan' := Clock.cancelledAt_isCancelled hn
  have hcalm := send_isCalm h data halfClose ⟨settings.writeTimeout.deadline clock.now, true⟩ clock
  have hcut : Moved.Cut n (link.sendAll data settings halfClose clock)
      (link.sendAll data settings halfClose (clock.cancelledAt n)) :=
    send_cut h rfl data halfClose hc hn
  generalize hr : link.sendAll data settings halfClose (clock.cancelledAt n) = cut at hcut
  unfold arrivals
  rw [hcan, if_neg Bool.false_ne_true]
  by_cases hs : (link.sendAll data settings halfClose clock).ending = .done ()
  · rw [exchange_of_sent hcan hs, if_pos hs]
    cases hcut with
    | spared he hlt =>
      rw [exchange_of_sent hcan' (by rw [hr]; exact hs), hr]
      exact capture_cut hcalm.script settings.readTimeout [] (hcalm.cancelAt_eq.trans hc) hlt
    | cut hlate =>
      have hlt := hlate.resolve_left (by simp [hs])
      rw [exchange_of_unsent hcan' (by rw [hr]; simp), hr,
        Arrival.before_eq_nil (captureArrivals_from _ _ _) hlt]
      exact .cut (.inr (hlt.trans (now_le_capture _ _ _ _)))
  · rw [exchange_of_unsent hcan hs, if_neg hs]
    cases hcut with
    | spared he hlt =>
      rw [exchange_of_unsent hcan' (by rw [hr]; exact hs), hr]
      refine .spared ?_ hlt
      generalize (link.sendAll data settings halfClose clock).ending = ending at he hs
      cases ending <;> simp [Ending.unsentVerdict] at he hs ⊢
    | cut hlate =>
      rw [exchange_of_unsent hcan' (by rw [hr]; simp), hr]
      exact .cut (hlate.imp_left fun he => by rw [he]; rfl)

end Link

theorem Network.dialing_cut {net : Network} (h : net.IsCalm) (attempt : Nat) (timeout : Duration)
    {clock : Clock} {n : Nat} (hc : clock.cancelAt = none) (hn : clock.now < n) :
    Settled.Cut n (net.dialing attempt timeout clock)
      (net.dialing attempt timeout (clock.cancelledAt n)) :=
  Call.run_cut _ rfl () (h.peer attempt).connect hc hn

end WireReplay
