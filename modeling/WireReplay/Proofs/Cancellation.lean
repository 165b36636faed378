import WireReplay.Proofs.Cut

/-!
# Cancelling a run

A run that is cancelled at a moment `n` does what the undisturbed run does as long as that is over
before `n`. Otherwise it ends at `n`: the captures before one payload are those of the undisturbed
run, that payload keeps what arrived in its turn before `n`, and all later ones are skipped.
-/

namespace WireReplay

inductive Dialed.Cut (n : Nat) : Dialed × Clock → Dialed × Clock → Prop
  | spared {dialed : Dialed} {later : Clock} (_ : dialed ≠ .never) (_ : later.now < n) :
      Cut n (dialed, later) (dialed, later.cancelledAt n)
  | cut {dialed : Dialed} {later : Clock} (_ : dialed = .never ∨ n ≤ later.now) :
      Cut n (dialed, later) (.refused .cancelled, ⟨n, some n⟩)

theorem Network.dial_cut {net : Network} (h : net.IsCalm) (attempt : Nat) (timeout : Duration)
    {clock : Clock} {n : Nat} (hc : clock.cancelAt = none) (hn : clock.now < n) :
    Dialed.Cut n (net.dial attempt timeout clock)
      (net.dial attempt timeout (clock.cancelledAt n)) := by
  have hcut := dialing_cut h attempt timeout hc hn
  rw [dial_eq, dial_eq]
  generalize net.dialing attempt timeout (clock.cancelledAt n) = cut at hcut
  cases hcut with
  | spared he hlt =>
    refine .spared ?_ hlt
    generalize (net.dialing attempt timeout clock).ending = ending at he
    cases ending <;> simp [dialed] at he ⊢
  | cut hlate => exact .cut (hlate.imp_left fun he => by rw [he]; rfl)

namespace Replay.State

def cancelledAt (s : State) (n : Nat) : State := { s with clock := s.clock.cancelledAt n }

theorem account_cancelledAt (s : State) (n : Nat) : (s.cancelledAt n).account = s.account := by
  obtain ⟨clock, line, attempts, links, captures, log⟩ := s
  cases line <;> rfl

/-- How a run in which `p` was replayed after `done`, and which is cancelled at `n`, relates to
the undisturbed one, `free`: the turn is spared, or it is cut short and keeps the bytes `kept`. -/
inductive Cut (n : Nat) (done : List Capture) (p : Payload) (kept : Bytes) (free : State) :
    State → Prop
  | spared (_ : free.line ≠ .stuck) (_ : free.clock.now < n) :
      Cut n done p kept free (free.cancelledAt n)
  | cut {after : State} (elapsed : Duration) (_ : free.line = .stuck ∨ n ≤ free.clock.now)
      (_ : after.clock = ⟨n, some n⟩)
      (_ : after.captures = done ++ [p.captured .cancelled kept elapsed])
      (_ : after.line = .fresh ∨ after.line = .lost .cancelled cancelledReason) :
      Cut n done p kept free after

variable {net : Network} {settings : Settings} {total started n : Nat} {s : State} {p : Payload}
  {link : Link}

theorem replayShared_cut (h : link.script.IsCalm) (hc : s.clock.cancelAt = none)
    (hn : s.clock.now < n) :
    Cut n s.captures p (Arrival.before n (link.arrivals p.bytes settings false s.clock))
      (s.replayShared net settings total link started p)
      ((s.cancelledAt n).replayShared net settings total link started p) := by
  have hcan := Clock.isCancelled_of_none hc
  have hcan' : (s.cancelledAt n).clock.isCancelled = false := Clock.cancelledAt_isCancelled hn
  have hcut : Turn.Cut n (Arrival.before n (link.arrivals p.bytes settings false s.clock))
      (turnShared link settings p s.clock)
      (turnShared link settings p (s.cancelledAt n).clock) :=
    link.exchange_cut h p.bytes settings false hc hn
  generalize hr : turnShared link settings p (s.cancelledAt n).clock = cut at hcut
  cases hcut with
  | spared hv hlt =>
    obtain ⟨verdict, hv⟩ := Option.ne_none_iff_exists'.1 hv
    by_cases hs : verdict = .silent
    · subst hs
      rw [replayShared_of_silent hcan hv, replayShared_of_silent hcan' (by rw [hr]; exact hv), hr]
      exact .spared (by simp) hlt
    · rw [replayShared_of_ended hcan hv hs,
        replayShared_of_ended hcan' (by rw [hr]; exact hv) hs, hr]
      exact .spared (by unfold lineAfter; split <;> simp) hlt
  | cut hlate =>
    rw [replayShared_of_ended hcan' (by rw [hr]) (by simp), hr]
    refine .cut _ ?_ rfl rfl (.inr rfl)
    cases hv : (turnShared link settings p s.clock).verdict with
    | none => rw [replayShared_of_no_verdict hcan hv]; exact .inl rfl
    | some verdict =>
      have hlt := hlate.resolve_left (by simp [hv])
      by_cases hs : verdict = .silent
      · subst hs
        rw [replayShared_of_silent hcan hv]
        exact .inr hlt
      · rw [replayShared_of_ended hcan hv hs]
        exact .inr hlt

theorem before_arrivals_of_late {dialed : Dialed} {later : Clock}
    (hl : s.line = .fresh ∨ s.line = .unopened) (hc : s.clock.isCancelled = false)
    (hd : net.dial s.attempts settings.connectTimeout s.clock = (dialed, later))
    (hlate : dialed = .never ∨ n ≤ later.now) :
    Arrival.before n (s.arrivals net settings p) = [] := by
  cases dialed with
  | never => rw [arrivals_of_not_opened hl (by simp [hd])]; rfl
  | refused verdict => rw [arrivals_of_not_opened hl (by simp [hd])]; rfl
  | opened link =>
    have hlt := hlate.resolve_left (by simp)
    rcases hl with hl | hl
    · rw [arrivals_of_fresh hl hc hd]
      exact Arrival.before_eq_nil (link.arrivals_from _ _ _ _) hlt
    · rw [arrivals_of_unopened hl hc hd]
      exact Arrival.before_eq_nil (link.arrivals_from _ _ _ _) hlt

theorem replayFresh_cut (hnet : net.IsCalm) (h : s.IsCalm) (hl : s.line = .fresh)
    (hn : s.clock.now < n) :
    Cut n s.captures p (Arrival.before n (s.arrivals net settings p)) (s.replayFresh net settings p)
      ((s.cancelledAt n).replayFresh net settings p) := by
  have hline : s.line ≠ .stuck := by simp [hl]
  have hdial := Network.dial_cut hnet s.attempts settings.connectTimeout h.cancelAt_eq hn
  generalize hd : net.dial s.attempts settings.connectTimeout s.clock = free at hdial
  generalize hd' : net.dial s.attempts settings.connectTimeout (s.clock.cancelledAt n) = cut
    at hdial
  cases hdial with
  | @cut dialed later hlate =>
    rw [replayFresh_of_refused (s := s.cancelledAt n) hd',
      before_arrivals_of_late (.inl hl) h.isCancelled_eq hd hlate]
    refine .cut _ ?_ rfl rfl (.inl hl)
    refine hlate.imp (fun hnever => ?_) fun hlt => hlt.trans (now_le_replayFresh_of_dial hd)
    rw [replayFresh_of_never (by rw [hd, hnever])]
    rfl
  | @spared dialed later hne hlt =>
    cases dialed with
    | never => exact absurd rfl hne
    | refused verdict =>
      rw [replayFresh_of_refused hd, replayFresh_of_refused (s := s.cancelledAt n) hd']
      exact .spared hline hlt
    | opened link =>
      have hc := (Network.cancelAt_of_dial hnet hd).trans h.cancelAt_eq
      have hcut : Turn.Cut n
          (Arrival.before n (link.arrivals p.bytes settings settings.halfClose later))
          (turnFresh link settings p later) (turnFresh link settings p (later.cancelledAt n)) :=
        link.exchange_cut (Network.isCalm_of_opened hnet hd) p.bytes settings _ hc hlt
      generalize hr : turnFresh link settings p (later.cancelledAt n) = cut at hcut
      rw [arrivals_of_fresh hl h.isCancelled_eq hd]
      cases hcut with
      | spared hv hlt =>
        obtain ⟨verdict, hv⟩ := Option.ne_none_iff_exists'.1 hv
        rw [replayFresh_of_verdict hd hv,
          replayFresh_of_verdict (s := s.cancelledAt n) hd' (by rw [hr]; exact hv), hr]
        exact .spared hline hlt
      | cut hlate =>
        rw [replayFresh_of_verdict (s := s.cancelledAt n) hd' (by rw [hr]), hr]
        refine .cut _ ?_ rfl rfl (.inl hl)
        cases hv : (turnFresh link settings p later).verdict with
        | none => rw [replayFresh_of_no_verdict hd hv]; exact .inl rfl
        | some verdict =>
          rw [replayFresh_of_verdict hd hv]
          exact .inr (hlate.resolve_left (by simp [hv]))

theorem replayFirst_cut (hnet : net.IsCalm) (h : s.IsCalm) (hl : s.line = .unopened)
    (hn : s.clock.now < n) :
    Cut n s.captures p (Arrival.before n (s.arrivals net settings p))
      (s.replayFirst net settings total p)
      ((s.cancelledAt n).replayFirst net settings total p) := by
  have hdial := Network.dial_cut hnet s.attempts settings.connectTimeout h.cancelAt_eq hn
  generalize hd : net.dial s.attempts settings.connectTimeout s.clock = free at hdial
  generalize hd' : net.dial s.attempts settings.connectTimeout (s.clock.cancelledAt n) = cut
    at hdial
  cases hdial with
  | @cut dialed later hlate =>
    rw [replayFirst_of_refused (s := s.cancelledAt n) hd',
      before_arrivals_of_late (.inr hl) h.isCancelled_eq hd hlate]
    refine .cut _ ?_ rfl rfl (.inr rfl)
    refine hlate.imp (fun hnever => ?_) fun hlt => hlt.trans (now_le_replayFirst_of_dial hd)
    rw [replayFirst_of_never (by rw [hd, hnever])]
    rfl
  | @spared dialed later hne hlt =>
    cases dialed with
    | never => exact absurd rfl hne
    | refused verdict =>
      rw [replayFirst_of_refused hd, replayFirst_of_refused (s := s.cancelledAt n) hd']
      exact .spared (by simp [lineAfter]; split <;> simp) hlt
    | opened link =>
      have hc := (Network.cancelAt_of_dial hnet hd).trans h.cancelAt_eq
      rw [replayFirst_of_opened hd, replayFirst_of_opened (s := s.cancelledAt n) hd',
        arrivals_of_unopened hl h.isCancelled_eq hd]
      exact replayShared_cut (s := { s with attempts := s.attempts + 1, clock := later })
        (Network.isCalm_of_opened hnet hd) hc hlt

theorem replay_cut (hnet : net.IsCalm) (settings : Settings) (total : Nat) (p : Payload)
    (h : s.IsCalm) (hl : s.line ≠ .stuck) (hn : s.clock.now < n) :
    Cut n s.captures p (Arrival.before n (s.arrivals net settings p))
      (replay net settings total s p) (replay net settings total (s.cancelledAt n) p) := by
  have hcan' : (s.cancelledAt n).clock.isCancelled = false := Clock.cancelledAt_isCancelled hn
  cases hline : s.line with
  | stuck => exact absurd hline hl
  | lost outcome reason =>
    rw [replay_of_lost hline, replay_of_lost (s := s.cancelledAt n) hline]
    exact .spared hl hn
  | fresh =>
    rw [replay_of_fresh hline h.isCancelled_eq, replay_of_fresh (s := s.cancelledAt n) hline hcan']
    exact replayFresh_cut hnet h hline hn
  | unopened =>
    rw [replay_of_unopened hline h.isCancelled_eq,
      replay_of_unopened (s := s.cancelledAt n) hline hcan']
    exact replayFirst_cut hnet h hline hn
  | shared link =>
    rw [replay_of_shared hline, replay_of_shared (s := s.cancelledAt n) hline,
      arrivals_of_shared hline h.isCancelled_eq]
    exact replayShared_cut (h.link link hline) h.cancelAt_eq hn

/-- Where the run of `ps` from `s` that is cancelled at `n`, and ends as `cut`, parts from the
undisturbed one: in the turn of `p`, behind `done`. -/
structure Parting (net : Network) (settings : Settings) (total n : Nat) (s : State)
    (ps : List Payload) (cut : State) (done : List Payload) (p : Payload) (rest : List Payload) :
    Prop where
  split : ps = done ++ p :: rest
  done_not_stuck : (done.foldl (replay net settings total) s).line ≠ .stuck
  not_stuck : cut.line ≠ .stuck
  clock_eq : cut.clock = ⟨n, some n⟩
  captures_eq : ∃ elapsed, cut.captures = (done.foldl (replay net settings total) s).captures ++
    p.captured .cancelled (Arrival.before n
      ((done.foldl (replay net settings total) s).arrivals net settings p)) elapsed ::
    rest.map (·.skipped .cancelled cancelledReason)

theorem Parting.cons {ps done rest : List Payload} {q : Payload} {cut : State}
    (h : Parting net settings total n (replay net settings total s p) ps cut done q rest) :
    Parting net settings total n s (p :: ps) cut (p :: done) q rest where
  split := by rw [h.split]; rfl
  done_not_stuck := h.done_not_stuck
  not_stuck := h.not_stuck
  clock_eq := h.clock_eq
  captures_eq := h.captures_eq

theorem parting_of_cut {after : State} {elapsed : Duration} (ps : List Payload)
    (hl : s.line ≠ .stuck) (hclock : after.clock = ⟨n, some n⟩)
    (hcap : after.captures = s.captures ++
      [p.captured .cancelled (Arrival.before n (s.arrivals net settings p)) elapsed])
    (hline : after.line = .fresh ∨ after.line = .lost .cancelled cancelledReason) :
    Parting net settings total n s (p :: ps) (ps.foldl (replay net settings total) after) []
      p ps := by
  have hskip : ps.foldl (replay net settings total) after = { after with
      captures := after.captures ++ ps.map (·.skipped .cancelled cancelledReason) } := by
    rcases hline with hline | hline
    · refine foldl_replay_of_cancelled ps after (by rw [hline]; rfl) ?_
      simp [hclock, Clock.isCancelled]
    · exact foldl_replay_of_lost ps after hline
  rw [hskip]
  refine ⟨rfl, hl, ?_, hclock, elapsed, ?_⟩
  · rcases hline with hline | hline <;> simp [hline]
  · simp [hcap]

/-- Either the whole run is over before `n`, and a cancellation at `n` changes nothing, or the run
is not over before `n`, and parts from the cancelled one in the turn of some payload. -/
theorem foldl_replay_cut (hnet : net.IsCalm) (total : Nat) (ps : List Payload) (h : s.IsCalm)
    (hl : s.line ≠ .stuck) (hn : s.clock.now < n) :
    ((ps.foldl (replay net settings total) s).line ≠ .stuck ∧
      (ps.foldl (replay net settings total) s).clock.now < n ∧
      ps.foldl (replay net settings total) (s.cancelledAt n) =
        (ps.foldl (replay net settings total) s).cancelledAt n) ∨
    (((ps.foldl (replay net settings total) s).line = .stuck ∨
      n ≤ (ps.foldl (replay net settings total) s).clock.now) ∧
      ∃ done p rest, Parting net settings total n s ps
        (ps.foldl (replay net settings total) (s.cancelledAt n)) done p rest) := by
  induction ps generalizing s with
  | nil => exact .inl ⟨hl, hn, rfl⟩
  | cons p ps ih =>
    have hcut := replay_cut hnet settings total p h hl hn
    rw [List.foldl_cons, List.foldl_cons]
    generalize replay net settings total (s.cancelledAt n) p = after at hcut
    cases hcut with
    | spared hne hlt =>
      rcases ih (replay_isCalm hnet h) hne hlt with hspared | ⟨hlate, done, q, rest, hparting⟩
      · exact .inl hspared
      · exact .inr ⟨hlate, p :: done, q, rest, hparting.cons⟩
    | cut elapsed hlate hclock hcap hline =>
      refine .inr ⟨?_, [], p, ps, parting_of_cut ps hl hclock hcap hline⟩
      rcases hlate with hstuck | hlt
      · exact .inl (by rw [foldl_replay_of_stuck ps _ hstuck, hstuck])
      · exact .inr (hlt.trans (now_le_foldl_replay net settings total ps _))

theorem captures_behind (net : Network) (settings : Settings) (total : Nat) (s : State)
    (done : List Payload) (p : Payload) (rest : List Payload) :
    ∃ tail, ((done ++ p :: rest).foldl (replay net settings total) s).captures =
        (done.foldl (replay net settings total) s).captures ++ tail ∧
      ∀ c, tail.head? = some c → c.received =
        Arrival.all ((done.foldl (replay net settings total) s).arrivals net settings p) := by
  rw [List.foldl_append, List.foldl_cons]
  generalize done.foldl (replay net settings total) s = s
  rcases replay_receives net settings total s p with ⟨hstuck, hcap⟩ | ⟨c, hcap, hreceived⟩
  · rw [foldl_replay_of_stuck rest _ hstuck]
    exact ⟨[], by rw [hcap, List.append_nil], fun c hc => by cases hc⟩
  · obtain ⟨cs, hcs, _⟩ := foldl_replay_captures net settings total rest
      (replay net settings total s p)
    refine ⟨c :: cs, by rw [hcs, hcap, List.append_assoc, List.singleton_append], ?_⟩
    intro d hd
    cases hd
    exact hreceived

end Replay.State

namespace Replay

/-- The run that was cancelled at `n` has the captures of the undisturbed run up to the payload
`i`, which keeps what arrived in its turn before `n`; the payloads behind it are skipped. -/
structure Truncated (net : Network) (settings : Settings) (payloads : List Payload) (n : Nat)
    (account : Account) (i : Nat) : Prop where
  lt_length : i < payloads.length
  duration_eq : account.duration = n
  length_eq : account.captures.length = payloads.length
  le_done : i ≤ (State.after net settings payloads.length none payloads).captures.length
  done_eq : account.captures.take i =
    (State.after net settings payloads.length none payloads).captures.take i
  cancelled : ∀ c, account.captures[i]? = some c →
    c.outcome = .cancelled ∧ c.error = some "run cancelled"
  received_eq : ∀ p c, payloads[i]? = some p → account.captures[i]? = some c →
    c.received = Arrival.before n ((State.after net settings payloads.length none
      (payloads.take i)).arrivals net settings p)
  received_prefix : ∀ c r, account.captures[i]? = some c →
    (State.after net settings payloads.length none payloads).captures[i]? = some r →
      c.received <+: r.received
  rest_skipped : ∀ d ∈ account.captures.drop (i + 1),
    d.outcome = .cancelled ∧ d.received = [] ∧ d.error = some "run cancelled"

variable {net : Network} {settings : Settings} {payloads : List Payload} {n : Nat}

theorem truncated_of_parting {cut : State} {done rest : List Payload} {p : Payload}
    (h : State.Parting net settings payloads.length n
      (State.start net settings payloads.length none) payloads cut done p rest) :
    Truncated net settings payloads n cut.account done.length := by
  obtain ⟨elapsed, hcap⟩ := h.captures_eq
  obtain ⟨tail, hfree, htail⟩ := State.captures_behind net settings payloads.length
    (State.start net settings payloads.length none) done p rest
  obtain ⟨cs, hcs, hlen⟩ := State.foldl_replay_captures net settings payloads.length done
    (State.start net settings payloads.length none)
  have hdone : (done.foldl (State.replay net settings payloads.length)
      (State.start net settings payloads.length none)).captures.length = done.length := by
    rw [hcs, ← hlen h.done_not_stuck]
    rfl
  have htake : payloads.take done.length = done := by
    rw [h.split, List.take_left' rfl]
  have hafter : State.after net settings payloads.length none (payloads.take done.length) =
      done.foldl (State.replay net settings payloads.length)
        (State.start net settings payloads.length none) := by rw [htake]; rfl
  rw [← h.split] at hfree
  change (State.after net settings payloads.length none payloads).captures = _ at hfree
  generalize done.foldl (State.replay net settings payloads.length)
    (State.start net settings payloads.length none) = parted at *
  have hp : payloads[done.length]? = some p := by
    rw [h.split]; simp
  have hc : cut.captures[done.length]? = some (p.captured .cancelled
      (Arrival.before n (parted.arrivals net settings p)) elapsed) := by
    rw [hcap, List.getElem?_append_right (Nat.le_of_eq hdone), hdone, Nat.sub_self]
    rfl
  constructor
  case lt_length => rw [h.split, List.length_append, List.length_cons]; omega
  case duration_eq => exact congrArg Clock.now h.clock_eq
  case length_eq =>
    change cut.captures.length = payloads.length
    rw [hcap, List.length_append, hdone, h.split]
    simp
  case le_done => rw [hfree, List.length_append, hdone]; exact Nat.le_add_right _ _
  case done_eq =>
    change cut.captures.take done.length = _
    rw [hcap, hfree, List.take_left' hdone, List.take_left' hdone]
  case cancelled =>
    intro c hget
    cases hc.symm.trans hget
    exact ⟨rfl, rfl⟩
  case received_eq =>
    intro q c hq hget
    cases hp.symm.trans hq
    cases hc.symm.trans hget
    rw [hafter]
    rfl
  case received_prefix =>
    intro c r hget hr
    cases hc.symm.trans hget
    rw [hfree, List.getElem?_append_right (Nat.le_of_eq hdone), hdone, Nat.sub_self,
      ← List.head?_eq_getElem?] at hr
    rw [htail r hr]
    exact Arrival.before_prefix_all n (State.arrivals_from net settings parted p)
  case rest_skipped =>
    intro d hd
    change d ∈ cut.captures.drop (done.length + 1) at hd
    rw [hcap, List.drop_append, List.drop_of_length_le (by omega), hdone,
      Nat.add_sub_cancel_left] at hd
    obtain ⟨q, _, rfl⟩ := List.mem_map.1 hd
    exact ⟨rfl, rfl, rfl⟩

/-- A run on a calm network that is cancelled at `n` is the undisturbed run if that is over before
`n`, and otherwise ends at `n` and is truncated in the turn of one payload. -/
theorem run_cancelled_eq_or_truncated (net : Network) (settings : Settings)
    (payloads : List Payload) (n : Nat) (h : net.IsCalm) (hn : 0 < n) :
    (∃ account, run net settings payloads = some account ∧ account.duration < n ∧
      run net settings payloads (some n) = some account) ∨
    ((∀ account, run net settings payloads = some account → n ≤ account.duration) ∧
      ∃ account i, run net settings payloads (some n) = some account ∧
        Truncated net settings payloads n account i) := by
  have hline : (State.start net settings payloads.length none).line ≠ .stuck := by
    unfold State.start
    split_ifs <;> simp
  rcases State.foldl_replay_cut h payloads.length payloads
    (State.start_isCalm net settings payloads.length) hline hn with
    ⟨hne, hlt, hcut⟩ | ⟨hlate, done, p, rest, hparting⟩
  · left
    refine ⟨_, run_eq_some_iff.2 ⟨hne, rfl⟩, hlt, run_eq_some_iff.2 ?_⟩
    change State.after net settings payloads.length (some n) payloads = _ at hcut
    rw [hcut]
    exact ⟨hne, State.account_cancelledAt _ n⟩
  · right
    refine ⟨?_, _, done.length, run_eq_some_iff.2 ⟨hparting.not_stuck, rfl⟩,
      truncated_of_parting hparting⟩
    intro account hrun
    obtain ⟨hne, rfl⟩ := run_eq_some_iff.1 hrun
    exact hlate.resolve_left hne

/-- A peer sends a byte, and another one 50 milliseconds later; the run is cancelled in between. -/
theorem run_truncated_between_deliveries :
    Network.IsCalm ⟨"peer", [{ read := [.act (.data [1]), .delay 50, .act (.data [2])] }]⟩ ∧
      ∃ account i,
        run ⟨"peer", [{ read := [.act (.data [1]), .delay 50, .act (.data [2])] }]⟩ {}
          [⟨"a", [65]⟩, ⟨"b", [66]⟩] (some 20) = some account ∧
        account.captures.map (·.received) = [[1], []] ∧
        Truncated ⟨"peer", [{ read := [.act (.data [1]), .delay 50, .act (.data [2])] }]⟩ {}
          [⟨"a", [65]⟩, ⟨"b", [66]⟩] 20 account i := by
  have hcalm : Network.IsCalm
      ⟨"peer", [{ read := [.act (.data [1]), .delay 50, .act (.data [2])] }]⟩ := by
    intro script hm
    cases List.mem_singleton.1 hm
    constructor <;> simp
  have hlate : ((run ⟨"peer", [{ read := [.act (.data [1]), .delay 50, .act (.data [2])] }]⟩ {}
      [⟨"a", [65]⟩, ⟨"b", [66]⟩]).map (·.duration)) = some 4100 := by
    decide +kernel
  have hreceived : ((run ⟨"peer", [{ read := [.act (.data [1]), .delay 50, .act (.data [2])] }]⟩ {}
      [⟨"a", [65]⟩, ⟨"b", [66]⟩] (some 20)).map (·.captures.map (·.received))) =
        some [[1], []] := by
    decide +kernel
  refine ⟨hcalm, ?_⟩
  rcases run_cancelled_eq_or_truncated _ {} [⟨"a", [65]⟩, ⟨"b", [66]⟩] 20 hcalm (by decide) with
    ⟨account, hrun, hlt, _⟩ | ⟨_, account, i, hrun, htruncated⟩
  · rw [hrun] at hlate
    have hduration : account.duration = 4100 := Option.some.inj hlate
    omega
  · rw [hrun] at hreceived
    exact ⟨account, i, hrun, Option.some.inj hreceived, htruncated⟩

end Replay

end WireReplay
