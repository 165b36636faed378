import WireReplay.Proofs.Time

/-!
# What arrives in a turn, and when

The bytes that a capture holds arrived one read after the other. Here each of those reads is given
its moment: the moments never go down, so what arrived before a given moment is a beginning of all
that arrived.
-/

namespace WireReplay

structure Arrival where
  moment : Nat
  bytes : Bytes

namespace Arrival

def all (arrivals : List Arrival) : Bytes := arrivals.flatMap (·.bytes)

/-- The bytes that arrived before the moment `n`. -/
def before (n : Nat) (arrivals : List Arrival) : Bytes := all (arrivals.filter (·.moment < n))

/-- The arrivals are in order, and none was before `first`. -/
structure From (first : Nat) (arrivals : List Arrival) : Prop where
  first_le : ∀ a ∈ arrivals, first ≤ a.moment
  sorted : arrivals.Pairwise fun earlier later => earlier.moment ≤ later.moment

theorem from_nil (first : Nat) : From first [] where
  first_le _ h := absurd h List.not_mem_nil
  sorted := List.Pairwise.nil

theorem From.mono {first later : Nat} {arrivals : List Arrival} (h : From later arrivals)
    (hle : first ≤ later) : From first arrivals where
  first_le a hm := hle.trans (h.first_le a hm)
  sorted := h.sorted

theorem From.cons {first : Nat} {a : Arrival} {arrivals : List Arrival}
    (h : From a.moment arrivals) (hle : first ≤ a.moment) : From first (a :: arrivals) where
  first_le b hm := by
    rcases List.mem_cons.1 hm with rfl | hm
    · exact hle
    · exact hle.trans (h.first_le b hm)
  sorted := List.pairwise_cons.2 ⟨h.first_le, h.sorted⟩

theorem before_eq_nil {n first : Nat} {arrivals : List Arrival} (h : From first arrivals)
    (hn : n ≤ first) : before n arrivals = [] := by
  have hfilter : arrivals.filter (·.moment < n) = [] := by
    rw [List.filter_eq_nil_iff]
    intro a hm
    have hfirst := h.first_le a hm
    simp only [decide_eq_true_eq]
    omega
  rw [before, hfilter]
  rfl

theorem before_cons_of_lt {n : Nat} {a : Arrival} (h : a.moment < n) (arrivals : List Arrival) :
    before n (a :: arrivals) = a.bytes ++ before n arrivals := by
  rw [before, List.filter_cons_of_pos (by simpa using h)]
  rfl

theorem before_prefix_all (n : Nat) {first : Nat} {arrivals : List Arrival}
    (h : From first arrivals) : before n arrivals <+: all arrivals := by
  induction arrivals generalizing first with
  | nil => exact List.prefix_refl _
  | cons a arrivals ih =>
    obtain ⟨hfirst, hsorted⟩ := List.pairwise_cons.1 h.sorted
    have hrest : From a.moment arrivals := ⟨hfirst, hsorted⟩
    by_cases ha : a.moment < n
    · rw [before_cons_of_lt ha]
      exact (List.prefix_append_right_inj _).2 (ih hrest)
    · rw [before_eq_nil (hrest.cons le_rfl) (Nat.le_of_not_lt ha)]
      exact List.nil_prefix

end Arrival

namespace Link

def captureArrivals (link : Link) (timeout : Duration) (clock : Clock) : List Arrival :=
  if clock.isCancelled then []
  else
    match _h : link.read captureRoom ⟨timeout.deadline clock.now, true⟩ clock with
    | ⟨.done (byte :: bytes), clock, link⟩ =>
      ⟨clock.now, byte :: bytes⟩ :: link.captureArrivals timeout clock
    | _ => []
termination_by link.backlog
decreasing_by exact backlog_lt_of_read _h (List.cons_ne_nil _ _)

/-- What arrives in the turn of a payload: nothing before it is sent whole. -/
def arrivals (link : Link) (data : Bytes) (settings : Replay.Settings) (halfClose : Bool)
    (clock : Clock) : List Arrival :=
  if clock.isCancelled then []
  else if (link.sendAll data settings halfClose clock).ending = .done () then
    (link.sendAll data settings halfClose clock).link.captureArrivals settings.readTimeout
      (link.sendAll data settings halfClose clock).clock
  else []

theorem captureArrivals_of_cancelled (link : Link) {clock : Clock} (timeout : Duration)
    (h : clock.isCancelled = true) : link.captureArrivals timeout clock = [] := by
  rw [captureArrivals, if_pos h]

theorem captureArrivals_of_more {link : Link} {timeout : Duration} {clock : Clock} {bytes : Bytes}
    (h : clock.isCancelled = false)
    (hd : (link.readNext timeout clock).ending = .done bytes) (hb : bytes ≠ []) :
    link.captureArrivals timeout clock = ⟨(link.readNext timeout clock).clock.now, bytes⟩ ::
      (link.readNext timeout clock).link.captureArrivals timeout
        (link.readNext timeout clock).clock := by
  unfold readNext at hd ⊢
  rw [captureArrivals, if_neg (by simp [h])]
  generalize link.read captureRoom _ clock = read at hd ⊢
  obtain ⟨ending, later, after⟩ := read
  cases hd
  cases bytes with
  | nil => exact absurd rfl hb
  | cons => rfl

theorem captureArrivals_of_over {link : Link} {timeout : Duration} {clock : Clock}
    (h : clock.isCancelled = false)
    (hd : ∀ bytes, (link.readNext timeout clock).ending = .done bytes → bytes = []) :
    link.captureArrivals timeout clock = [] := by
  unfold readNext at hd
  rw [captureArrivals, if_neg (by simp [h])]
  generalize link.read captureRoom _ clock = read at hd ⊢
  obtain ⟨ending, later, after⟩ := read
  cases ending with
  | done bytes => cases hd bytes rfl; rfl
  | _ => rfl

theorem capture_received (link : Link) (timeout : Duration) (clock : Clock) (received : Bytes) :
    (link.capture timeout clock received).received =
      received ++ Arrival.all (link.captureArrivals timeout clock) := by
  apply capture_induction timeout (P := fun link clock received turn =>
    turn.received = received ++ Arrival.all (link.captureArrivals timeout clock))
  · intro link clock received hc
    rw [captureArrivals_of_cancelled link timeout hc]
    exact (List.append_nil _).symm
  · intro link clock received hc hd
    rw [captureArrivals_of_over hc hd]
    exact (List.append_nil _).symm
  · intro link clock received bytes turn hc hd hb ih
    rw [captureArrivals_of_more hc hd hb, ih]
    exact List.append_assoc _ _ _

theorem captureArrivals_from (link : Link) (timeout : Duration) (clock : Clock) :
    Arrival.From clock.now (link.captureArrivals timeout clock) := by
  refine capture_induction timeout (P := fun link clock _ _ =>
    Arrival.From clock.now (link.captureArrivals timeout clock)) ?_ ?_ ?_ link clock []
  · intro link clock received hc
    rw [captureArrivals_of_cancelled link timeout hc]
    exact Arrival.from_nil _
  · intro link clock received hc hd
    rw [captureArrivals_of_over hc hd]
    exact Arrival.from_nil _
  · intro link clock received bytes turn hc hd hb ih
    rw [captureArrivals_of_more hc hd hb]
    exact ih.cons now_le_read

theorem exchange_received (link : Link) (data : Bytes) (settings : Replay.Settings)
    (halfClose : Bool) (clock : Clock) :
    (link.exchange data settings halfClose clock).received =
      Arrival.all (link.arrivals data settings halfClose clock) := by
  unfold arrivals
  cases hc : clock.isCancelled with
  | true =>
    rw [exchange_of_cancelled data settings halfClose hc]
    rfl
  | false =>
    by_cases hs : (link.sendAll data settings halfClose clock).ending = .done ()
    · rw [exchange_of_sent hc hs, if_neg Bool.false_ne_true, if_pos hs, capture_received]
      exact List.nil_append _
    · rw [exchange_of_unsent hc hs, if_neg Bool.false_ne_true, if_neg hs]
      rfl

theorem arrivals_from (link : Link) (data : Bytes) (settings : Replay.Settings)
    (halfClose : Bool) (clock : Clock) :
    Arrival.From clock.now (link.arrivals data settings halfClose clock) := by
  unfold arrivals
  split_ifs
  · exact Arrival.from_nil _
  · exact (captureArrivals_from _ _ _).mono (link.now_le_send _ _ _ _)
  · exact Arrival.from_nil _

end Link

namespace Replay.State

def arrivals (net : Network) (settings : Settings) (s : State) (p : Payload) : List Arrival :=
  if s.clock.isCancelled then []
  else
    match s.line, net.dial s.attempts settings.connectTimeout s.clock with
    | .fresh, (.opened link, clock) => link.arrivals p.bytes settings settings.halfClose clock
    | .unopened, (.opened link, clock) => link.arrivals p.bytes settings false clock
    | .shared link, _ => link.arrivals p.bytes settings false s.clock
    | _, _ => []

variable {net : Network} {settings : Settings} {total started : Nat} {s : State} {p : Payload}
  {link : Link} {clock : Clock}

theorem arrivals_of_cancelled (hc : s.clock.isCancelled = true) : s.arrivals net settings p = [] :=
  if_pos hc

theorem arrivals_of_lost {outcome : Outcome} {reason : String}
    (hl : s.line = .lost outcome reason) : s.arrivals net settings p = [] := by
  simp only [arrivals, hl, ite_self]

theorem arrivals_of_fresh (hl : s.line = .fresh) (hc : s.clock.isCancelled = false)
    (hd : net.dial s.attempts settings.connectTimeout s.clock = (.opened link, clock)) :
    s.arrivals net settings p = link.arrivals p.bytes settings settings.halfClose clock := by
  simp only [arrivals, hl, hc, hd, Bool.false_eq_true, if_false]

theorem arrivals_of_unopened (hl : s.line = .unopened) (hc : s.clock.isCancelled = false)
    (hd : net.dial s.attempts settings.connectTimeout s.clock = (.opened link, clock)) :
    s.arrivals net settings p = link.arrivals p.bytes settings false clock := by
  simp only [arrivals, hl, hc, hd, Bool.false_eq_true, if_false]

theorem arrivals_of_shared (hl : s.line = .shared link) (hc : s.clock.isCancelled = false) :
    s.arrivals net settings p = link.arrivals p.bytes settings false s.clock := by
  simp only [arrivals, hl, hc, Bool.false_eq_true, if_false]

theorem arrivals_of_not_opened (hl : s.line = .fresh ∨ s.line = .unopened)
    (hd : ∀ link, (net.dial s.attempts settings.connectTimeout s.clock).1 ≠ .opened link) :
    s.arrivals net settings p = [] := by
  unfold arrivals
  rcases hdial : net.dial s.attempts settings.connectTimeout s.clock with ⟨dialed, clock⟩
  rw [hdial] at hd
  cases dialed with
  | opened link => exact absurd rfl (hd link)
  | _ => rcases hl with hl | hl <;> simp only [hl, ite_self]

theorem arrivals_from (net : Network) (settings : Settings) (s : State) (p : Payload) :
    Arrival.From s.clock.now (s.arrivals net settings p) := by
  unfold arrivals
  split_ifs with hc
  · exact Arrival.from_nil _
  · split
    · rename_i hd
      exact (Link.arrivals_from _ _ _ _ _).mono (Network.now_le_dial hd)
    · rename_i hd
      exact (Link.arrivals_from _ _ _ _ _).mono (Network.now_le_dial hd)
    · exact Link.arrivals_from _ _ _ _ _
    · exact Arrival.from_nil _

/-- `after` has one capture more than `s`, with just these bytes, unless the run is stuck. -/
def Receives (s : State) (received : Bytes) (after : State) : Prop :=
  (after.line = .stuck ∧ after.captures = s.captures) ∨
    ∃ c, after.captures = s.captures ++ [c] ∧ c.received = received

theorem replayShared_receives (link : Link) :
    Receives s (Arrival.all (link.arrivals p.bytes settings false s.clock))
      (s.replayShared net settings total link started p) := by
  rw [← Link.exchange_received]
  refine replayShared_cases ?_ ?_ ?_ ?_
  · intro hc
    rw [Link.exchange_of_cancelled _ _ _ hc]
    exact .inr ⟨_, rfl, rfl⟩
  · intro _ _
    exact .inl ⟨rfl, rfl⟩
  · intro _ _
    exact .inr ⟨_, rfl, rfl⟩
  · intro verdict _ _ _
    exact .inr ⟨_, rfl, rfl⟩

theorem replayFresh_receives (hl : s.line = .fresh) (hc : s.clock.isCancelled = false) :
    Receives s (Arrival.all (s.arrivals net settings p)) (s.replayFresh net settings p) := by
  refine replayFresh_cases ?_ ?_ ?_ ?_
  · intro clock _
    exact .inl ⟨rfl, rfl⟩
  · intro verdict clock hd
    rw [arrivals_of_not_opened (.inl hl) (by simp [hd])]
    exact .inr ⟨_, rfl, rfl⟩
  · intro link clock _ _
    exact .inl ⟨rfl, rfl⟩
  · intro link clock verdict hd _
    rw [arrivals_of_fresh hl hc hd, ← Link.exchange_received]
    exact .inr ⟨_, rfl, rfl⟩

theorem replayFirst_receives (hl : s.line = .unopened) (hc : s.clock.isCancelled = false) :
    Receives s (Arrival.all (s.arrivals net settings p))
      (s.replayFirst net settings total p) := by
  refine replayFirst_cases ?_ ?_ ?_
  · intro clock _
    exact .inl ⟨rfl, rfl⟩
  · intro verdict clock hd
    rw [arrivals_of_not_opened (.inr hl) (by simp [hd])]
    exact .inr ⟨_, rfl, rfl⟩
  · intro link clock hd
    rw [arrivals_of_unopened hl hc hd]
    exact replayShared_receives (s := { s with attempts := s.attempts + 1, clock }) link

/-- The capture of a payload holds what arrives in the payload's turn, and nothing else. -/
theorem replay_receives (net : Network) (settings : Settings) (total : Nat) (s : State)
    (p : Payload) :
    Receives s (Arrival.all (s.arrivals net settings p)) (replay net settings total s p) := by
  refine replay_cases ?_ ?_ ?_ ?_ ?_ ?_
  · intro hl
    exact .inl ⟨hl, rfl⟩
  · intro outcome reason hl
    rw [arrivals_of_lost hl]
    exact .inr ⟨_, rfl, rfl⟩
  · intro _ hc
    rw [arrivals_of_cancelled hc]
    exact .inr ⟨_, rfl, rfl⟩
  · intro hl hc
    exact replayFresh_receives hl hc
  · intro hl hc
    exact replayFirst_receives hl hc
  · intro link hl hc
    rw [arrivals_of_shared hl hc]
    exact replayShared_receives link

theorem foldl_replay_captures (net : Network) (settings : Settings) (total : Nat)
    (ps : List Payload) (s : State) :
    ∃ cs, (ps.foldl (replay net settings total) s).captures = s.captures ++ cs ∧
      ((ps.foldl (replay net settings total) s).line ≠ .stuck → cs.length = ps.length) := by
  induction ps generalizing s with
  | nil => exact ⟨[], (List.append_nil _).symm, fun _ => rfl⟩
  | cons p ps ih =>
    rw [List.foldl_cons]
    rcases replay_receives net settings total s p with ⟨hstuck, hcap⟩ | ⟨c, hcap, _⟩
    · rw [foldl_replay_of_stuck ps _ hstuck]
      exact ⟨[], by rw [hcap, List.append_nil], fun hline => absurd hstuck hline⟩
    · obtain ⟨cs, hcs, hlen⟩ := ih (replay net settings total s p)
      refine ⟨c :: cs, by rw [hcs, hcap, List.append_assoc, List.singleton_append], ?_⟩
      exact fun hline => congrArg Nat.succ (hlen hline)

theorem length_captures_after {cancelAt : Option Nat} {ps : List Payload}
    (hend : (State.after net settings total cancelAt ps).line ≠ .stuck) :
    (State.after net settings total cancelAt ps).captures.length = ps.length := by
  obtain ⟨cs, hcs, hlen⟩ := foldl_replay_captures net settings total ps
    (start net settings total cancelAt)
  rw [← hlen hend]
  exact congrArg List.length (hcs.trans (List.nil_append cs))

end Replay.State

end WireReplay
