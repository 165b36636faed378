import Mathlib.Algebra.GroupWithZero.Nat
import WireReplay.Proofs.Deadlines
import WireReplay.Proofs.Ledger

/-!
# How long a run lasts

With timeouts that end at all, a run comes to its end. Every payload is charged with the time that
its timeouts allow it: a connection of its own is charged to each payload, a shared one to the run,
and sending and receiving to the payloads that get a turn. No run lasts longer than its charges, and
every payload that the peer left in silence took a whole read timeout.
-/

namespace WireReplay

theorem Verdict.eq_silent {verdict : Verdict} (h : verdict.outcome = .timeout) :
    verdict = .silent := by
  cases verdict <;> simp_all [outcome]

namespace Replay

structure Settings.InMillis (settings : Settings) (connect write read : Nat) : Prop where
  connect : settings.connectTimeout.IsMillis connect
  write : settings.writeTimeout.IsMillis write
  read : settings.readTimeout.IsMillis read

/-- The time that a turn may take which received as much as `c`. -/
def turnTime (write read : Nat) (c : Capture) : Nat := write + (c.received.length + 1) * read

def silences (cs : List Capture) : Nat := cs.countP (·.outcome = .timeout)

def exchanged (es : List Entry) : List Capture := es.filterMap fun e => e.1.map fun _ => e.2

/-- The time that a payload is charged with. -/
def Settings.charge (settings : Settings) (connect write read : Nat) (e : Entry) : Nat :=
  if settings.freshConnections then connect + turnTime write read e.2
  else e.1.elim 0 fun _ => turnTime write read e.2

theorem silences_of_ne {c : Capture} (h : c.outcome ≠ .timeout) : silences [c] = 0 := by
  simp [silences, h]

theorem silences_le_one (c : Capture) : silences [c] ≤ 1 := List.countP_le_length

theorem silences_cons (c : Capture) (cs : List Capture) :
    silences (c :: cs) = silences [c] + silences cs := by
  simp only [silences, List.countP_cons, List.countP_nil]
  omega

theorem sum_charge_of_fresh {settings : Settings} (hf : settings.freshConnections = true)
    (connect write read : Nat) (es : List Entry) :
    (es.map (settings.charge connect write read)).sum =
      (es.map fun e => connect + turnTime write read e.2).sum := by
  have hcharge : settings.charge connect write read = fun e => connect + turnTime write read e.2 :=
    funext fun e => if_pos hf
  rw [hcharge]

theorem sum_charge_of_reused {settings : Settings} (hf : settings.freshConnections = false)
    (connect write read : Nat) (es : List Entry) :
    (es.map (settings.charge connect write read)).sum =
      ((exchanged es).map (turnTime write read)).sum := by
  induction es with
  | nil => rfl
  | cons e es ih =>
    have hcharge : settings.charge connect write read e =
        e.1.elim 0 fun _ => turnTime write read e.2 := if_neg (by simp [hf])
    rw [List.map_cons, List.sum_cons, ih, hcharge]
    obtain ⟨visit, c⟩ := e
    cases visit with
    | none => exact Nat.zero_add _
    | some v => rfl

namespace State

/-- The time that a run is still to be charged with for its shared connection. -/
def owed (connect : Nat) (s : State) : Nat := if s.line = .unopened then connect else 0

/-- A payload was replayed from `s` to `after`, in no more time than `charge` and what is owed no
longer, and in no less than `read` if it was left in silence. -/
structure Timely (connect read : Nat) (charge : Capture → Nat) (s after : State) : Prop where
  ends : after.line ≠ .stuck
  charged : ∃ c, after.captures = s.captures ++ [c] ∧
    after.clock.now + after.owed connect ≤ s.clock.now + s.owed connect + charge c ∧
    s.clock.now + silences [c] * read ≤ after.clock.now

section Steps

variable {net : Network} {settings : Settings} {total started connect write read : Nat} {s : State}
  {p : Payload}

theorem owed_of_ne {s : State} (h : s.line ≠ .unopened) (connect : Nat) : s.owed connect = 0 :=
  if_neg h

theorem timely_skip {outcome : Outcome} (hl : s.line ≠ .stuck) (ho : outcome ≠ .timeout)
    (reason : String) (charge : Capture → Nat) :
    Timely connect read charge s (s.skip p outcome reason) := by
  refine ⟨hl, _, rfl, Nat.le_add_right _ _, ?_⟩
  rw [silences_of_ne (by exact ho), Nat.zero_mul]
  exact le_rfl

theorem outcome_ne_timeout_of_refused {attempt : Nat} {timeout : Duration} {clock later : Clock}
    {verdict : Verdict} (hd : net.dial attempt timeout clock = (.refused verdict, later)) :
    verdict.outcome ≠ .timeout := by
  by_cases hc : verdict = .cancelled
  · simp [hc, Verdict.outcome]
  · obtain ⟨_, _, ho⟩ := Network.error_of_refused hd hc
    simp [ho]

theorem silences_captured_le {verdict : Verdict} {received : Bytes} {elapsed : Duration}
    {now later read : Nat} (hle : now ≤ later) (h : verdict = .silent → now + read ≤ later) :
    now + silences [p.captured verdict received elapsed] * read ≤ later := by
  by_cases ho : verdict.outcome = .timeout
  · have hone := Nat.mul_le_mul_right read (silences_le_one (p.captured verdict received elapsed))
    have hlast := h (Verdict.eq_silent ho)
    omega
  · rw [silences_of_ne (by exact ho)]
    omega

theorem replayFresh_timely (h : settings.InMillis connect write read) (hl : s.line = .fresh) :
    Timely connect read (fun c => connect + turnTime write read c) s
      (s.replayFresh net settings p) := by
  have howed : s.owed connect = 0 := owed_of_ne (by simp [hl]) connect
  refine replayFresh_cases ?_ ?_ ?_ ?_
  · intro clock hd
    exact absurd rfl (Network.dial_inTime h.connect hd).1
  · intro verdict clock hd
    have hle := (Network.dial_inTime h.connect hd).2
    have hnow := Network.now_le_dial hd
    refine ⟨by simp [record, hl], _, rfl, ?_, ?_⟩
    · rw [owed_of_ne (by simp [record, hl]), howed]
      simp only [record]
      omega
    · refine silences_captured_le hnow fun hv => ?_
      exact absurd (by rw [hv]; rfl) (outcome_ne_timeout_of_refused hd)
  · intro link clock _ hv
    have hturn := link.exchange_inTime p.bytes settings.halfClose clock h.write h.read
    exact absurd hv hturn.1
  · intro link clock verdict hd hv
    have hle := (Network.dial_inTime h.connect hd).2
    have hnow := Network.now_le_dial hd
    have hturn := link.exchange_inTime p.bytes settings.halfClose clock h.write h.read
    have hlater := link.now_le_exchange p.bytes settings settings.halfClose clock
    refine ⟨by simp [record, hl], _, rfl, ?_, ?_⟩
    · rw [owed_of_ne (by simp [record, hl]), howed]
      simp only [record, turnTime, Payload.captured, turnFresh]
      omega
    · refine silences_captured_le (hnow.trans hlater) fun hs => ?_
      have hsilent := hturn.2.2 (by rw [← hs]; exact hv)
      exact (Nat.add_le_add_right hnow read).trans hsilent

theorem replayShared_timely (net : Network) (total started : Nat) (s : State) (p : Payload)
    (link : Link) (h : settings.InMillis connect write read) :
    (s.replayShared net settings total link started p).line ≠ .unopened ∧
      Timely connect read (fun c => (s.visitShared link p).elim 0 fun _ => turnTime write read c)
        { s with line := .shared link } (s.replayShared net settings total link started p) := by
  have hturn := link.exchange_inTime p.bytes false s.clock h.write h.read
  have hlater := link.now_le_exchange p.bytes settings false s.clock
  have hvisit (hc : s.clock.isCancelled = false) : (s.visitShared link p).isSome = true := by
    simp [visitShared, hc]
  refine replayShared_cases ?_ ?_ ?_ ?_
  · intro hc
    refine ⟨by simp [skip, record], ?_⟩
    exact timely_skip (s := { s with line := .shared link }) (by simp) (by simp) _ _
  · intro _ hv
    exact absurd hv hturn.1
  · intro hc hv
    obtain ⟨v, hsome⟩ := Option.isSome_iff_exists.1 (hvisit hc)
    refine ⟨by simp, by simp, _, rfl, ?_, ?_⟩
    · rw [owed_of_ne (by simp), owed_of_ne (by simp), hsome]
      simp only [record, turnTime, Payload.captured, turnShared, Option.elim_some]
      omega
    · exact silences_captured_le hlater fun _ => hturn.2.2 hv
  · intro verdict hc hv hne
    obtain ⟨v, hsome⟩ := Option.isSome_iff_exists.1 (hvisit hc)
    have hline : lineAfter verdict s!"connection ended after '{p.name}'" ≠ .unopened ∧
        lineAfter verdict s!"connection ended after '{p.name}'" ≠ .stuck := by
      unfold lineAfter
      split <;> simp
    refine ⟨hline.1, hline.2, _, rfl, ?_, ?_⟩
    · rw [owed_of_ne hline.1, owed_of_ne (by simp), hsome]
      simp only [turnTime, Payload.captured, turnShared, Option.elim_some]
      omega
    · exact silences_captured_le hlater fun hs => absurd hs hne

theorem replayFirst_timely (h : settings.InMillis connect write read) (hl : s.line = .unopened)
    (hc : s.clock.isCancelled = false) :
    Timely connect read
      (fun c => (s.visit net settings p).elim 0 fun _ => turnTime write read c) s
      (s.replayFirst net settings total p) := by
  have howed : s.owed connect = connect := if_pos hl
  refine replayFirst_cases ?_ ?_ ?_
  · intro clock hd
    exact absurd rfl (Network.dial_inTime h.connect hd).1
  · intro verdict clock hd
    have hle := (Network.dial_inTime h.connect hd).2
    have hnow := Network.now_le_dial hd
    have hline : lineAfter verdict (neverOpened verdict) ≠ .unopened ∧
        lineAfter verdict (neverOpened verdict) ≠ .stuck := by
      unfold lineAfter
      split <;> simp
    refine ⟨hline.2, _, rfl, ?_, ?_⟩
    · rw [owed_of_ne hline.1, howed]
      simp only [record]
      omega
    · refine silences_captured_le hnow fun hv => ?_
      exact absurd (by rw [hv]; rfl) (outcome_ne_timeout_of_refused hd)
  · intro link clock hd
    have hle := (Network.dial_inTime h.connect hd).2
    have hnow := Network.now_le_dial hd
    have hv : s.visit net settings p = { s with clock }.visitShared link p := by
      simp only [visit, hc, hl, hd, Bool.false_eq_true, if_false]
    obtain ⟨hline, hends, c, hcaptures, hcharge, hsilence⟩ := replayShared_timely net total
      s.clock.now { s with attempts := s.attempts + 1, clock } p link h
    rw [owed_of_ne hline, owed_of_ne (by simp)] at hcharge
    refine ⟨hends, c, hcaptures, ?_, ?_⟩
    · rw [owed_of_ne hline, howed, hv]
      change _ ≤ clock.now + 0 + ({ s with clock }.visitShared link p).elim 0 _ at hcharge
      omega
    · exact (Nat.add_le_add_right hnow _).trans hsilence

theorem replay_timely (net : Network) (total : Nat) (p : Payload)
    (h : settings.InMillis connect write read) (hs : s.line.Suits settings) (hl : s.line ≠ .stuck) :
    Timely connect read (fun c => settings.charge connect write read (s.visit net settings p, c)) s
      (replay net settings total s p) := by
  refine replay_cases ?_ ?_ ?_ ?_ ?_ ?_
  · exact fun hstuck => absurd hstuck hl
  · intro outcome reason hlost
    rw [hlost] at hs
    refine timely_skip hl ?_ _ _
    rcases hs.2 with rfl | rfl <;> simp
  · exact fun _ _ => timely_skip hl (by simp) _ _
  · intro hfresh _
    rw [hfresh] at hs
    have hf : settings.freshConnections = true := hs
    simpa only [Settings.charge, if_pos hf] using replayFresh_timely h hfresh
  · intro hunopened hc
    rw [hunopened] at hs
    have hf : settings.freshConnections = false := hs
    simpa only [Settings.charge, hf, Bool.false_eq_true, if_false] using
      replayFirst_timely h hunopened hc
  · intro link hshared hc
    have hv : s.visit net settings p = s.visitShared link p := by
      simp only [visit, hc, hshared, Bool.false_eq_true, if_false]
    have hself : { s with line := .shared link } = s := by rw [← hshared]
    have htimely := (replayShared_timely net total s.clock.now s p link h).2
    rw [hself, ← hv] at htimely
    rw [hshared] at hs
    have hf : settings.freshConnections = false := hs
    simpa only [Settings.charge, hf, Bool.false_eq_true, if_false] using htimely

/-- Replaying payloads takes no more time than they are charged with, and a read timeout at least
for each that was left in silence. -/
theorem foldl_replay_timely (net : Network) (total : Nat)
    (h : settings.InMillis connect write read) (ps : List Payload) (s : State)
    (hs : s.line.Suits settings) (hl : s.line ≠ .stuck) :
    (ps.foldl (replay net settings total) s).line ≠ .stuck ∧
      ∃ cs, (ps.foldl (replay net settings total) s).captures = s.captures ++ cs ∧
        cs.length = ps.length ∧
        (ps.foldl (replay net settings total) s).clock.now ≤ s.clock.now + s.owed connect +
          (((s.visits net settings total ps).zip cs).map
            (settings.charge connect write read)).sum ∧
        s.clock.now + silences cs * read ≤ (ps.foldl (replay net settings total) s).clock.now := by
  induction ps generalizing s with
  | nil =>
    refine ⟨hl, [], (List.append_nil _).symm, rfl, ?_, ?_⟩
    · simp only [List.foldl_nil]
      omega
    · simp [silences]
  | cons p ps ih =>
    obtain ⟨hends, c, hc, hcharge, hsilence⟩ := replay_timely net total p h hs hl
    obtain ⟨hline, cs, hcs, hlen, hsum, hcount⟩ := ih _ (replay_served net total p hs).suits hends
    refine ⟨hline, c :: cs, ?_, congrArg (· + 1) hlen, ?_, ?_⟩
    · rw [List.foldl_cons, hcs, hc, List.append_assoc, List.singleton_append]
    · rw [visits, List.zip_cons_cons, List.map_cons, List.sum_cons, List.foldl_cons]
      omega
    · rw [List.foldl_cons, silences_cons, Nat.add_mul]
      omega

end Steps

end State

/-- A run with timeouts of whole milliseconds ends. It lasts a read timeout at least for each
payload that was left in silence, and no longer than its timeouts allow: with a connection for each
payload every payload may take a connect timeout, a write timeout, a read timeout for each byte
received and one more; a shared connection takes one connect timeout for all. -/
theorem run_ends_in_time (net : Network) (settings : Settings) (payloads : List Payload)
    (cancelAt : Option Nat) (connect write read : Nat)
    (h : settings.InMillis connect write read) :
    ∃ account, run net settings payloads cancelAt = some account ∧
      silences account.captures * read ≤ account.duration ∧
      (settings.freshConnections = true → account.duration ≤
        (account.captures.map fun c => connect + turnTime write read c).sum) ∧
      (settings.freshConnections = false → account.duration ≤ connect +
        ((exchanged ((visits net settings payloads cancelAt).zip account.captures)).map
          (turnTime write read)).sum) := by
  have hstart := start_suits net settings payloads.length cancelAt
  have hline : (State.start net settings payloads.length cancelAt).line ≠ .stuck := by
    cases hf : settings.freshConnections <;> simp [State.start, hf]
  obtain ⟨hends, cs, hcs, hlen, hsum, hcount⟩ :=
    State.foldl_replay_timely net payloads.length h payloads _ hstart hline
  have hcaptures : (State.after net settings payloads.length cancelAt payloads).captures = cs := hcs
  have hnow : (State.start net settings payloads.length cancelAt).clock.now = 0 := rfl
  rw [hnow, Nat.zero_add] at hsum hcount
  refine ⟨_, run_eq_some_iff.2 ⟨hends, rfl⟩, ?_, ?_, ?_⟩
  · simp only [State.account, hcaptures]
    exact hcount
  · intro hf
    have howed : (State.start net settings payloads.length cancelAt).owed connect = 0 :=
      State.owed_of_ne (by simp [State.start, hf]) connect
    have hzip : ((State.start net settings payloads.length cancelAt).visits net settings
        payloads.length payloads).length = cs.length := by rw [State.length_visits, hlen]
    rw [howed, Nat.zero_add, sum_charge_of_fresh hf] at hsum
    have hall : (((State.start net settings payloads.length cancelAt).visits net settings
        payloads.length payloads).zip cs).map (·.2) = cs :=
      List.map_snd_zip (Nat.le_of_eq hzip.symm)
    simp only [State.account, hcaptures]
    rw [← hall, List.map_map]
    exact hsum
  · intro hf
    have howed : (State.start net settings payloads.length cancelAt).owed connect = connect :=
      if_pos (by simp [State.start, hf])
    rw [howed, sum_charge_of_reused hf] at hsum
    simp only [State.account, hcaptures]
    exact hsum

/-- The peer answers the first payload with one byte and then falls silent, the second payload is
cancelled while its reply is waited for, and the third gets no turn. -/
theorem run_ends_in_time_of_cancelled_wait :
    ∃ account,
      run ⟨"peer", [{ connect := [.delay 5], read := [.act (.data [1]), .hang] }]⟩
          { freshConnections := false } [⟨"a", [65]⟩, ⟨"b", [66]⟩, ⟨"c", [67]⟩] (some 3000) =
          some account ∧
        account.captures.map (·.outcome) = [.timeout, .cancelled, .cancelled] ∧
        account.duration = 3000 ∧
        silences account.captures * 2000 ≤ account.duration ∧
        account.duration ≤ 5000 + ((exchanged ((visits
          ⟨"peer", [{ connect := [.delay 5], read := [.act (.data [1]), .hang] }]⟩
          { freshConnections := false } [⟨"a", [65]⟩, ⟨"b", [66]⟩, ⟨"c", [67]⟩] (some 3000)).zip
            account.captures)).map (turnTime 5000 2000)).sum := by
  have hmillis : Settings.InMillis { freshConnections := false } 5000 5000 2000 := by
    refine ⟨⟨rfl, ?_⟩, ⟨rfl, ?_⟩, ⟨rfl, ?_⟩⟩ <;> decide
  have hresults : (run ⟨"peer", [{ connect := [.delay 5], read := [.act (.data [1]), .hang] }]⟩
      { freshConnections := false } [⟨"a", [65]⟩, ⟨"b", [66]⟩, ⟨"c", [67]⟩] (some 3000)).map
        (fun account => (account.captures.map (·.outcome), account.duration)) =
      some ([.timeout, .cancelled, .cancelled], 3000) := by
    decide +kernel
  obtain ⟨account, hrun, hr⟩ := Option.map_eq_some_iff.1 hresults
  obtain ⟨houtcome, hduration⟩ := Prod.mk.inj hr
  obtain ⟨other, hother, hsilence, _, hshared⟩ := run_ends_in_time
    ⟨"peer", [{ connect := [.delay 5], read := [.act (.data [1]), .hang] }]⟩
    { freshConnections := false } [⟨"a", [65]⟩, ⟨"b", [66]⟩, ⟨"c", [67]⟩] (some 3000) _ _ _ hmillis
  obtain rfl := Option.some.inj (hrun.symm.trans hother)
  exact ⟨account, hrun, houtcome, hduration, hsilence, hshared rfl⟩

end Replay

end WireReplay
