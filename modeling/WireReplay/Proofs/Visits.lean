import WireReplay.Proofs.Verdicts
import WireReplay.Proofs.Written

/-!
# Visits

A payload visits a connection when it is given a turn there. Sending it adds to what was written
and to nothing that was delivered; capturing its reply adds to what was delivered, and all that it
adds is received. So the visits to a connection, one behind the other, account for everything that
went over it.
-/

namespace WireReplay

theorem Verdict.of_unsentVerdict {timeout : Duration} {ending : Ending Unit} {v : Verdict}
    (h : ending.unsentVerdict timeout = some v) :
    v = .cancelled ∨ v.outcome = .ioError ∧ ∃ rest, v.error = some ("write " ++ rest) := by
  cases ending with
  | done => cases h
  | never => cases h
  | cancelled =>
    cases h
    exact .inl rfl
  | failed fault =>
    cases h
    have he : "write failed: " = "write " ++ "failed: " := by decide
    refine .inr ⟨rfl, "failed: " ++ fault.describe, congrArg some ?_⟩
    change "write failed: " ++ fault.describe = _
    rw [he, String.append_assoc]
  | timedOut =>
    cases h
    have he : "write timed out after " = "write " ++ "timed out after " := by decide
    refine .inr ⟨rfl, "timed out after " ++ (toString timeout.boundedMillis ++ " ms"),
      congrArg some ?_⟩
    change "write timed out after " ++ toString timeout.boundedMillis ++ " ms" = _
    rw [he, String.append_assoc, String.append_assoc]

/-- A capture that shows that its payload was sent: the peer closed or fell silent, or something
came back, or reading failed. -/
def Capture.ShowsSent (c : Capture) : Prop :=
  c.outcome = .ok ∨ c.outcome = .timeout ∨ c.received ≠ [] ∨
    ∃ rest, c.error = some ("read failed" ++ rest)

/-- Of all texts of a capture only those of failed reads have an `e` in the second place. -/
theorem second_ne_of_ne_readFailed {text : String} (h : text.toList[1]? ≠ some 'e')
    (rest : String) : text ≠ "read failed" ++ rest := by
  rintro rfl
  exact h (by simp)

theorem Payload.not_showsSent_of_skipped (p : Payload) {outcome : Outcome} {reason : String}
    (ho : outcome = .cancelled ∨ outcome = .connectionClosedEarly)
    (hr : reason.toList[1]? ≠ some 'e') : ¬ (p.skipped outcome reason).ShowsSent := by
  rintro (h | h | h | ⟨rest, h⟩)
  · rcases ho with rfl | rfl <;> cases h
  · rcases ho with rfl | rfl <;> cases h
  · exact h rfl
  · exact second_ne_of_ne_readFailed hr rest (Option.some.inj h)

theorem ReportsUnsent.second_ne {text : String} (h : ReportsUnsent text) :
    text.toList[1]? ≠ some 'e' := by
  obtain ⟨opening, hm, rest, rfl⟩ := h
  simp only [unsentOpenings, List.mem_cons, List.not_mem_nil, or_false] at hm
  rcases hm with rfl | rfl | rfl | rfl <;> simp

theorem Verdict.isSent_of_outcome {verdict : Verdict}
    (h : verdict.outcome = .ok ∨ verdict.outcome = .timeout) : verdict.isSent = true := by
  cases verdict <;> simp_all [outcome, isSent]

theorem Verdict.eq_cancelled {verdict : Verdict} (hs : verdict.isSent = false)
    (hu : verdict.isUnsent = false) : verdict = .cancelled := by
  cases verdict <;> simp_all [isSent, isUnsent]

theorem Verdict.not_showsSent {verdict : Verdict} (p : Payload) (elapsed : Duration)
    (h : verdict.isSent = false) : ¬ (p.captured verdict [] elapsed).ShowsSent := by
  have hother : ¬ (verdict.outcome = .ok ∨ verdict.outcome = .timeout) := by
    intro ho
    rw [Verdict.isSent_of_outcome ho] at h
    cases h
  rintro (ho | ho | hr | ⟨rest, he⟩)
  · exact hother (.inl ho)
  · exact hother (.inr ho)
  · exact hr rfl
  · change verdict.error = _ at he
    have hsecond : ("read failed" ++ rest).toList[1]? ≠ some 'e' := by
      cases hc : verdict.isUnsent with
      | true => exact (Verdict.reportsUnsent_of_isUnsent he hc).second_ne
      | false =>
        obtain rfl := Verdict.eq_cancelled h hc
        rw [← Option.some.inj he]
        decide
    exact second_ne_of_ne_readFailed hsecond rest rfl

theorem Network.isSent_of_refused {net : Network} {attempt : Nat} {timeout : Duration}
    {clock later : Clock} {v : Verdict}
    (hd : net.dial attempt timeout clock = (.refused v, later)) : v.isSent = false := by
  rw [dial_eq] at hd
  have hv := congrArg Prod.fst hd
  generalize (net.dialing attempt timeout clock).ending = ending at hv
  cases ending <;> cases hv <;> rfl

namespace Link

variable {link : Link} {data : Bytes} {settings : Replay.Settings} {halfClose : Bool}
  {limit : Limit} {clock : Clock}

theorem capture_flushes (link : Link) (timeout : Duration) (clock : Clock) (received : Bytes) :
    (link.capture timeout clock received).link.flushes = link.flushes :=
  capture_keeps (·.flushes) (fun _ _ _ => rfl) link timeout clock received

theorem capture_isShutDown (link : Link) (timeout : Duration) (clock : Clock) (received : Bytes) :
    (link.capture timeout clock received).link.isShutDown = link.isShutDown :=
  capture_keeps (·.isShutDown) (fun _ _ _ => rfl) link timeout clock received

theorem readNext_delivered (link : Link) (timeout : Duration) (clock : Clock) :
    (link.readNext timeout clock).link.delivered =
      (link.afterRead (link.readNext timeout clock).ending [] []).delivered := rfl

theorem readNext_delivered_of_done {timeout : Duration} {bytes : Bytes}
    (h : (link.readNext timeout clock).ending = .done bytes) :
    (link.readNext timeout clock).link.delivered = link.delivered ++ bytes := by
  rw [readNext_delivered, h]
  rfl

theorem readNext_delivered_of_over {timeout : Duration}
    (h : ∀ bytes, (link.readNext timeout clock).ending = .done bytes → bytes = []) :
    (link.readNext timeout clock).link.delivered = link.delivered := by
  rw [readNext_delivered]
  generalize (link.readNext timeout clock).ending = ending at h
  cases ending with
  | done bytes =>
    rw [h bytes rfl]
    exact List.append_nil _
  | _ => rfl

theorem capture_delivered (link : Link) (timeout : Duration) (clock : Clock) (received : Bytes) :
    ∃ more, (link.capture timeout clock received).received = received ++ more ∧
      (link.capture timeout clock received).link.delivered = link.delivered ++ more := by
  apply capture_induction timeout (P := fun link _ received turn =>
    ∃ more, turn.received = received ++ more ∧ turn.link.delivered = link.delivered ++ more)
  · intro link clock received _
    exact ⟨[], (List.append_nil _).symm, (List.append_nil _).symm⟩
  · intro link clock received _ hd
    refine ⟨[], (List.append_nil _).symm, ?_⟩
    rw [List.append_nil]
    exact readNext_delivered_of_over hd
  · intro link clock received bytes turn _ hd _ ih
    obtain ⟨more, hr, hl⟩ := ih
    refine ⟨bytes ++ more, ?_, ?_⟩
    · rw [hr, List.append_assoc]
    · rw [hl, readNext_delivered_of_done hd, List.append_assoc]

theorem write_delivered (link : Link) (data : Bytes) (limit : Limit) (clock : Clock) :
    (link.write data limit clock).link.delivered = link.delivered := by
  cases data <;> rfl

theorem write_isShutDown (link : Link) (data : Bytes) (limit : Limit) (clock : Clock) :
    (link.write data limit clock).link.isShutDown = link.isShutDown := by
  cases data <;> rfl

theorem write_flushes (link : Link) (data : Bytes) (limit : Limit) (clock : Clock) :
    (link.write data limit clock).link.flushes = link.flushes := by
  cases data <;> rfl

/-- What holds of a write that is not done, of a flush that is not done behind it, and of what
follows a flush that is done, holds of the whole of sending. -/
@[elab_as_elim]
theorem send_cases {P : Moved Unit → Prop}
    (unwritten : (link.write data limit clock).ending ≠ .done () → P (link.write data limit clock))
    (unflushed : ∀ w, w = link.write data limit clock → w.ending = .done () →
      (w.link.flush limit w.clock).ending ≠ .done () → P (w.link.flush limit w.clock))
    (flushed : ∀ w f, w = link.write data limit clock → w.ending = .done () →
      f = w.link.flush limit w.clock → f.ending = .done () →
      P (if halfClose then f.link.shutDown limit f.clock else ⟨.done (), f.clock, f.link⟩)) :
    P (link.send data halfClose limit clock) := by
  rw [send_eq_andThen]
  by_cases hw : (link.write data limit clock).ending = .done ()
  · rw [Moved.andThen_of_done _ hw]
    by_cases hf : ((link.write data limit clock).link.flush limit
        (link.write data limit clock).clock).ending = .done ()
    · rw [Moved.andThen_of_done _ hf]
      exact flushed _ _ rfl hw rfl hf
    · rw [Moved.andThen_of_not_done _ hf]
      exact unflushed _ rfl hw hf
  · rw [Moved.andThen_of_not_done _ hw]
    exact unwritten hw

theorem send_delivered (link : Link) (data : Bytes) (halfClose : Bool) (limit : Limit)
    (clock : Clock) : (link.send data halfClose limit clock).link.delivered = link.delivered := by
  refine send_cases ?_ ?_ ?_
  · exact fun _ => write_delivered _ _ _ _
  · rintro _ rfl _ _
    exact write_delivered _ _ _ _
  · rintro _ _ rfl _ rfl _
    cases halfClose <;> exact write_delivered _ _ _ _

theorem shutDown_isShutDown : (link.shutDown limit clock).link.isShutDown = true ↔
    link.isShutDown = true ∨ (link.shutDown limit clock).ending = .done () := by
  have hs : (link.shutDown limit clock).link.isShutDown =
      (link.isShutDown || decide ((link.shutDown limit clock).ending = .done ())) := rfl
  rw [hs, Bool.or_eq_true, decide_eq_true_iff]

theorem send_isShutDown (link : Link) (data : Bytes) (halfClose : Bool) (limit : Limit)
    (clock : Clock) :
    (link.send data halfClose limit clock).link.isShutDown = true ↔
      link.isShutDown = true ∨
        halfClose = true ∧ (link.send data halfClose limit clock).ending = .done () := by
  rw [← write_isShutDown link data limit clock]
  refine send_cases ?_ ?_ ?_
  · intro hw
    simp [hw]
  · rintro _ rfl _ hf
    simp only [hf, and_false, or_false]
    exact Iff.rfl
  · rintro _ _ rfl _ rfl _
    cases halfClose with
    | false => simp only [Bool.false_eq_true, if_false, false_and, or_false]; exact Iff.rfl
    | true =>
      simp only [if_true, true_and]
      exact shutDown_isShutDown

theorem send_flushed (h : (link.send data halfClose limit clock).ending = .done ()) :
    (link.write data limit clock).ending = .done () ∧
      ((link.write data limit clock).link.flush limit
        (link.write data limit clock).clock).ending = .done () := by
  rw [send_eq_andThen] at h
  have hw := done_of_andThen_done h
  rw [Moved.andThen_of_done _ hw] at h
  exact ⟨hw, done_of_andThen_done h⟩

theorem flush_flushes (link : Link) (limit : Limit) (clock : Clock) :
    (link.flush limit clock).link.flushes =
      if (link.flush limit clock).ending = .done () then link.flushes + 1 else link.flushes := rfl

theorem flushes_le_send (link : Link) (data : Bytes) (halfClose : Bool) (limit : Limit)
    (clock : Clock) : link.flushes ≤ (link.send data halfClose limit clock).link.flushes := by
  rw [← write_flushes link data limit clock]
  have hflush (written : Link) (later : Clock) :
      written.flushes ≤ (written.flush limit later).link.flushes := by
    rw [flush_flushes]
    split
    · exact Nat.le_succ _
    · exact Nat.le_refl _
  refine send_cases ?_ ?_ ?_
  · exact fun _ => Nat.le_refl _
  · rintro _ rfl _ _
    exact hflush _ _
  · rintro _ _ rfl _ rfl _
    cases halfClose <;> exact hflush _ _

theorem send_flushes_of_done (h : (link.send data halfClose limit clock).ending = .done ()) :
    (link.send data halfClose limit clock).link.flushes = link.flushes + 1 := by
  rw [← write_flushes link data limit clock]
  revert h
  refine send_cases ?_ ?_ ?_
  · exact fun hw h => absurd h hw
  · exact fun _ _ _ hf h => absurd h hf
  · rintro _ _ rfl _ rfl hf _
    have hone := flush_flushes (link.write data limit clock).link limit
      (link.write data limit clock).clock
    rw [if_pos hf] at hone
    cases halfClose <;> exact hone

end Link

namespace Replay

/-- The turn of a payload on a connection, as it is when the turn begins. -/
structure Visit where
  payload : Payload
  connection : Nat
  link : Link
  clock : Clock
  halfClose : Bool

namespace Visit

variable (settings : Settings) (v : Visit)

def turn : Turn := v.link.exchange v.payload.bytes settings v.halfClose v.clock

def limit : Limit := ⟨settings.writeTimeout.deadline v.clock.now, true⟩

def writing : Moved Unit := v.link.write v.payload.bytes (v.limit settings) v.clock

def flushing : Moved Unit :=
  (v.writing settings).link.flush (v.limit settings) (v.writing settings).clock

def sending : Moved Unit := v.link.send v.payload.bytes v.halfClose (v.limit settings) v.clock

def IsSent : Prop := v.clock.isCancelled = false ∧ (v.sending settings).ending = .done ()

instance : Decidable (v.IsSent settings) := inferInstanceAs (Decidable (_ ∧ _))

/-- The link when sending is over. In a run that is cancelled, it does not begin. -/
def sentLink : Link := if v.clock.isCancelled then v.link else (v.sending settings).link

variable {settings v}

theorem turn_of_sent (h : v.IsSent settings) :
    v.turn settings = (v.sending settings).link.capture settings.readTimeout
      (v.sending settings).clock [] :=
  Link.exchange_of_sent h.1 h.2

theorem sentLink_of_sent (h : v.IsSent settings) :
    v.sentLink settings = (v.sending settings).link :=
  if_neg (by rw [h.1]; exact Bool.false_ne_true)

/-- The turn of a payload that is not sent ends as its sending does. -/
theorem turn_of_not_sent (h : ¬ v.IsSent settings) : ∃ ending clock,
    v.turn settings =
      ⟨Ending.unsentVerdict settings.writeTimeout ending, [], clock, v.sentLink settings⟩ := by
  cases hc : v.clock.isCancelled with
  | true =>
    refine ⟨.cancelled, v.clock, ?_⟩
    rw [turn, Link.exchange_of_cancelled _ _ _ hc, sentLink, if_pos hc]
    rfl
  | false =>
    have hs : (v.sending settings).ending ≠ .done () := fun hd => h ⟨hc, hd⟩
    have hlink : v.sentLink settings = (v.sending settings).link :=
      if_neg (by rw [hc]; exact Bool.false_ne_true)
    refine ⟨(v.sending settings).ending, (v.sending settings).clock, ?_⟩
    rw [turn, Link.exchange_of_unsent hc hs, hlink]
    rfl

theorem turn_link_of_not_sent (h : ¬ v.IsSent settings) :
    (v.turn settings).link = v.sentLink settings := by
  obtain ⟨_, _, hturn⟩ := turn_of_not_sent h
  rw [hturn]

theorem turn_received_of_not_sent (h : ¬ v.IsSent settings) : (v.turn settings).received = [] := by
  obtain ⟨_, _, hturn⟩ := turn_of_not_sent h
  rw [hturn]

theorem sentLink_delivered (settings : Settings) (v : Visit) :
    (v.sentLink settings).delivered = v.link.delivered := by
  unfold sentLink
  split
  · rfl
  · exact Link.send_delivered _ _ _ _ _

/-- What is delivered in the turn of a payload is received by it, and nothing else is. -/
theorem turn_delivered : (v.turn settings).link.delivered =
    v.link.delivered ++ (v.turn settings).received := by
  rw [← sentLink_delivered settings v]
  by_cases h : v.IsSent settings
  · obtain ⟨more, hr, hd⟩ := (v.sending settings).link.capture_delivered settings.readTimeout
      (v.sending settings).clock []
    rw [turn_of_sent h, sentLink_of_sent h, hd, hr, List.nil_append]
  · rw [turn_link_of_not_sent h, turn_received_of_not_sent h, List.append_nil]

theorem sentLink_written (settings : Settings) (v : Visit) :
    ∃ accepted, accepted <+: v.payload.bytes ∧
      (v.sentLink settings).written = v.link.written ++ accepted ∧
      (v.IsSent settings → accepted = v.payload.bytes) := by
  cases hc : v.clock.isCancelled with
  | true =>
    refine ⟨[], List.nil_prefix, ?_, fun h => absurd (h.1.symm.trans hc) Bool.false_ne_true⟩
    rw [sentLink, if_pos hc, List.append_nil]
  | false =>
    obtain ⟨accepted, hp, hw, hd⟩ :=
      v.link.send_written v.payload.bytes v.halfClose (v.limit settings) v.clock
    refine ⟨accepted, hp, ?_, fun h => hd h.2⟩
    rw [sentLink, if_neg (by rw [hc]; exact Bool.false_ne_true)]
    exact hw

theorem turn_written : (v.turn settings).link.written = (v.sentLink settings).written := by
  by_cases h : v.IsSent settings
  · rw [turn_of_sent h, sentLink_of_sent h, Link.capture_written]
  · rw [turn_link_of_not_sent h]

theorem turn_written_of_sent (h : v.IsSent settings) :
    (v.turn settings).link.written = v.link.written ++ v.payload.bytes := by
  obtain ⟨accepted, _, hw, hall⟩ := sentLink_written settings v
  rw [turn_written, hw, hall h]

theorem turn_isShutDown : (v.turn settings).link.isShutDown = true ↔
    v.link.isShutDown = true ∨ v.halfClose = true ∧ v.IsSent settings := by
  have hkeep : (v.turn settings).link.isShutDown = (v.sentLink settings).isShutDown := by
    by_cases h : v.IsSent settings
    · rw [turn_of_sent h, sentLink_of_sent h, Link.capture_isShutDown]
    · rw [turn_link_of_not_sent h]
  rw [hkeep, sentLink, IsSent]
  cases hc : v.clock.isCancelled with
  | true => simp
  | false =>
    rw [if_neg Bool.false_ne_true, sending, Link.send_isShutDown]
    simp

theorem turn_flushes_of_sent (h : v.IsSent settings) :
    (v.turn settings).link.flushes = v.link.flushes + 1 := by
  rw [turn_of_sent h, Link.capture_flushes]
  exact Link.send_flushes_of_done h.2

theorem flushes_le_turn : v.link.flushes ≤ (v.turn settings).link.flushes := by
  by_cases h : v.IsSent settings
  · rw [turn_flushes_of_sent h]
    exact Nat.le_succ _
  · rw [turn_link_of_not_sent h, sentLink]
    split
    · exact Nat.le_refl _
    · exact Link.flushes_le_send _ _ _ _ _

theorem verdict_of_not_sent {verdict : Verdict} (h : ¬ v.IsSent settings)
    (hv : (v.turn settings).verdict = some verdict) :
    verdict = .cancelled ∨
      verdict.outcome = .ioError ∧ ∃ rest, verdict.error = some ("write " ++ rest) := by
  obtain ⟨ending, clock, hturn⟩ := turn_of_not_sent h
  rw [hturn] at hv
  exact Verdict.of_unsentVerdict hv

theorem isSent_verdict_of_not_sent {verdict : Verdict} (h : ¬ v.IsSent settings)
    (hv : (v.turn settings).verdict = some verdict) : verdict.isSent = false := by
  obtain ⟨ending, clock, hturn⟩ := turn_of_not_sent h
  rw [hturn] at hv
  exact Link.unsentVerdict_not_sent hv

/-- The visit ended, and `c` is the capture of it. -/
def Leaves (settings : Settings) (v : Visit) (c : Capture) : Prop :=
  ∃ verdict elapsed, (v.turn settings).verdict = some verdict ∧
    c = v.payload.captured verdict (v.turn settings).received elapsed

theorem Leaves.isSent {c : Capture} (h : v.Leaves settings c) (hc : c.ShowsSent) :
    v.IsSent settings := by
  obtain ⟨verdict, elapsed, hv, rfl⟩ := h
  by_cases hs : v.IsSent settings
  · exact hs
  · rw [turn_received_of_not_sent hs] at hc
    exact absurd hc (Verdict.not_showsSent v.payload elapsed (isSent_verdict_of_not_sent hs hv))

end Visit

end Replay

end WireReplay
