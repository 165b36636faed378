import WireReplay.Proofs.Isolation

/-!
# Longer timeouts

A wait that is not ended by its deadline ends in the same way if its deadline is later. So a call
that did not time out takes the same course under a longer timeout, and so does a turn in which no
timeout expired. A reply that was given up as silent is the beginning of what a longer timeout lets
in, for a wait that is abandoned takes nothing out of the script.
-/

namespace WireReplay

/-- What `longer` lets end a wait ends it under `limit`, and no later. -/
structure Limit.Within (limit longer : Limit) : Prop where
  cancellable_eq : longer.cancellable = limit.cancellable
  deadline_le : ∀ later, longer.deadline = some later → ∃ d, limit.deadline = some d ∧ d ≤ later

theorem Duration.deadline_within {timeout longer : Duration} (h : timeout.nanos ≤ longer.nanos)
    (now : Nat) (cancellable : Bool) :
    Limit.Within ⟨timeout.deadline now, cancellable⟩ ⟨longer.deadline now, cancellable⟩ where
  cancellable_eq := rfl
  deadline_le later hl := by
    have hticks : timeout.ticks ≤ longer.ticks := by unfold ticks; omega
    unfold deadline at hl ⊢
    split_ifs at hl with hlonger
    have hmeasurable : timeout.isMeasurable = true := by
      simp only [isMeasurable, decide_eq_true_eq] at hlonger ⊢
      omega
    refine ⟨now + timeout.ticks, if_pos hmeasurable, ?_⟩
    have := Option.some.inj hl
    omega

namespace Limit.Within

variable {limit longer : Limit}

theorem any_le (h : limit.Within longer) {now : Nat}
    (hover : longer.deadline.any (· ≤ now) = true) : limit.deadline.any (· ≤ now) = true := by
  cases hl : longer.deadline with
  | none => rw [hl] at hover; cases hover
  | some later =>
    obtain ⟨d, hd, hle⟩ := h.deadline_le later hl
    rw [hl] at hover
    rw [hd]
    simp only [Option.any_some, decide_eq_true_eq] at hover ⊢
    omega

theorem all_le (h : limit.Within longer) {k : Nat}
    (hk : limit.deadline.all (k ≤ ·) = true) : longer.deadline.all (k ≤ ·) = true := by
  cases hl : longer.deadline with
  | none => rfl
  | some later =>
    obtain ⟨d, hd, hle⟩ := h.deadline_le later hl
    rw [hd] at hk
    simp only [Option.all_some, decide_eq_true_eq] at hk ⊢
    omega

theorem eq_of_none (h : limit.Within longer) (hd : limit.deadline = none) : longer = limit := by
  obtain ⟨later, cancellable⟩ := longer
  obtain ⟨deadline, _⟩ := limit
  cases h.cancellable_eq
  cases hd
  cases later with
  | none => rfl
  | some later =>
    obtain ⟨d, hsome, _⟩ := h.deadline_le later rfl
    cases hsome

end Limit.Within

theorem Clock.wait_longer {clock : Clock} {limit longer : Limit} (hle : limit.Within longer)
    (ready : Option Nat) (h : (clock.wait limit ready).1 ≠ .timedOut) :
    clock.wait longer ready = clock.wait limit ready := by
  cases hd : limit.deadline with
  | none => rw [hle.eq_of_none hd]
  | some d =>
    have hheeded : clock.heeded longer = clock.heeded limit := by
      rw [heeded, heeded, hle.cancellable_eq]
    unfold wait at h ⊢
    rw [hheeded]
    by_cases hready : ready.any (· ≤ clock.now) = true
    · rw [if_pos hready, if_pos hready]
    rw [if_neg hready] at h
    rw [if_neg hready, if_neg hready]
    by_cases hover : limit.deadline.any (· ≤ clock.now) = true
    · rw [if_pos hover] at h
      exact absurd rfl h
    rw [if_neg hover] at h
    rw [if_neg hover, if_neg fun hl => hover (hle.any_le hl)]
    by_cases hcancel : ((clock.heeded limit).any fun k =>
        ready.all (k ≤ ·) && limit.deadline.all (k ≤ ·)) = true
    · rw [if_pos hcancel, if_pos]
      obtain ⟨k, hk, hboth⟩ := (Option.any_eq_true _ _).1 hcancel
      rw [Bool.and_eq_true] at hboth
      refine (Option.any_eq_true _ _).2 ⟨k, hk, ?_⟩
      rw [Bool.and_eq_true]
      exact ⟨hboth.1, hle.all_le hboth.2⟩
    rw [if_neg hcancel, hd] at h
    rw [if_neg hcancel, hd]
    cases ready with
    | none => exact absurd rfl h
    | some t =>
      by_cases ht : t ≤ d
      · dsimp only
        rw [if_pos ht, if_neg]
        · cases hl : longer.deadline with
          | none => rfl
          | some later =>
            obtain ⟨_, hsome, hlater⟩ := hle.deadline_le later hl
            rw [hd] at hsome
            cases hsome
            exact if_pos (ht.trans hlater)
        · intro hearly
          obtain ⟨k, hk, hboth⟩ := (Option.any_eq_true _ _).1 hearly
          apply hcancel
          rw [hd]
          refine (Option.any_eq_true _ _).2 ⟨k, hk, ?_⟩
          simp only [Option.all_some, Bool.and_eq_true, decide_eq_true_eq] at hboth ⊢
          omega
      · dsimp only at h
        rw [if_neg ht] at h
        exact absurd rfl h

namespace Call

variable {σ α β : Type} {call : Call σ α β} {limit longer : Limit} {clock : Clock} {state : σ}

theorem sleep_longer (hle : limit.Within longer) {ready : Option Nat} {left : List (Step α)}
    {onward onward' : Clock → Settled σ α β}
    (hon : ∀ later, (onward later).ending ≠ .timedOut → onward' later = onward later)
    (h : (sleep limit ready clock state left onward).ending ≠ .timedOut) :
    sleep longer ready clock state left onward' = sleep limit ready clock state left onward := by
  have hw : (clock.wait limit ready).1 ≠ .timedOut →
      clock.wait longer ready = clock.wait limit ready := Clock.wait_longer hle ready
  unfold sleep at h ⊢
  generalize hwaited : clock.wait limit ready = waited at h hw ⊢
  obtain ⟨wake, later⟩ := waited
  cases wake with
  | timedOut => exact absurd rfl h
  | ready => rw [hw (by simp)]; exact hon later h
  | cancelled => rw [hw (by simp)]
  | never => rw [hw (by simp)]

theorem block_longer (hle : limit.Within longer) {left : List (Step α)}
    (h : (block limit clock state left : Settled σ α β).ending ≠ .timedOut) :
    (block longer clock state left : Settled σ α β) = block limit clock state left :=
  sleep_longer hle (fun _ _ => rfl) h

theorem run_longer (hle : limit.Within longer) (call : Call σ α β) (clock : Clock) (state : σ)
    (steps : List (Step α)) (h : (call.run limit clock state steps).ending ≠ .timedOut) :
    call.run longer clock state steps = call.run limit clock state steps := by
  induction steps generalizing clock state with
  | nil =>
    rw [run] at h ⊢
    rw [run]
    cases hend : call.atEnd state with
    | some result => rfl
    | none => rw [hend] at h; exact block_longer hle h
  | cons step rest ih =>
    cases step with
    | delay ms => exact sleep_longer hle (fun later => ih later state) h
    | notBefore moment => exact sleep_longer hle (fun later => ih later state) h
    | cancel => exact ih clock.cancel state h
    | hang => exact block_longer hle h
    | error fault =>
      rw [run] at h ⊢
      rw [run]
      by_cases hretry : call.retries fault = true
      · rw [if_pos hretry] at h
        rw [if_pos hretry, if_pos hretry]
        exact ih clock state h
      · rw [if_neg hretry, if_neg hretry]
    | act answer =>
      cases hr : call.reply state answer with
      | pass next =>
        rw [run_act_pass hr] at h
        rw [run_act_pass hr, run_act_pass hr]
        exact ih clock next h
      | block =>
        rw [run_act_block hr] at h
        rw [run_act_block hr, run_act_block hr]
        exact block_longer hle h
      | fail fault next => rw [run_act_fail hr, run_act_fail hr]
      | done value next front => rw [run_act_done hr, run_act_done hr]

end Call

theorem Moved.andThen_longer {m m' : Moved Unit} {next next' : Link → Clock → Moved Unit}
    (hm : m.ending ≠ .timedOut → m' = m)
    (hnext : ∀ link clock, (next link clock).ending ≠ .timedOut →
      next' link clock = next link clock)
    (h : (m.andThen next).ending ≠ .timedOut) : m'.andThen next' = m.andThen next := by
  by_cases hd : m.ending = .done ()
  · rw [andThen_of_done next hd] at h
    obtain rfl := hm (by simp [hd])
    rw [andThen_of_done next hd, andThen_of_done next' hd]
    exact hnext _ _ h
  · rw [andThen_of_not_done next hd] at h
    obtain rfl := hm h
    rw [andThen_of_not_done next hd, andThen_of_not_done next' hd]

namespace Link

variable {link : Link} {limit longer : Limit} {clock : Clock}

theorem write_longer (hle : limit.Within longer) (data : Bytes)
    (h : (link.write data limit clock).ending ≠ .timedOut) :
    link.write data longer clock = link.write data limit clock := by
  cases data with
  | nil => rfl
  | cons byte bytes =>
    rw [write_cons_eq, write_cons_eq]
    exact congrArg (Settled.moved · _) (Call.run_longer hle _ _ _ _ h)

theorem send_longer (hle : limit.Within longer) (data : Bytes) (halfClose : Bool)
    (h : (link.send data halfClose limit clock).ending ≠ .timedOut) :
    link.send data halfClose longer clock = link.send data halfClose limit clock := by
  rw [send_eq_andThen] at h ⊢
  rw [send_eq_andThen]
  refine Moved.andThen_longer (write_longer hle data) (fun link clock => ?_) h
  refine Moved.andThen_longer (fun hf => ?_) fun link clock hs => ?_
  · exact congrArg (Settled.moved · link.afterFlush) (Call.run_longer hle signalling _ _ _ hf)
  · cases halfClose with
    | false => rfl
    | true =>
      exact congrArg (Settled.moved · link.afterShutDown) (Call.run_longer hle signalling _ _ _ hs)

theorem readNext_longer {timeout longer : Duration} (hle : timeout.nanos ≤ longer.nanos)
    (h : (link.readNext timeout clock).ending ≠ .timedOut) :
    link.readNext longer clock = link.readNext timeout clock :=
  congrArg (Settled.moved · link.afterRead)
    (Call.run_longer (Duration.deadline_within hle clock.now true) (reading _ _ _) _ _ _ h)

/-- A capture that did not end in silence is the same under a longer timeout, and one that did
received the beginning of what the longer timeout lets in. -/
theorem capture_longer {timeout longer : Duration} (hle : timeout.nanos ≤ longer.nanos)
    (link : Link) (clock : Clock) (received : Bytes) :
    ((link.capture timeout clock received).verdict ≠ some .silent →
      link.capture longer clock received = link.capture timeout clock received) ∧
    (link.capture timeout clock received).received <+:
      (link.capture longer clock received).received := by
  apply capture_induction timeout (P := fun link clock received turn =>
    (turn.verdict ≠ some .silent → link.capture longer clock received = turn) ∧
      turn.received <+: (link.capture longer clock received).received)
  · intro link clock received hc
    rw [capture_of_cancelled longer received hc]
    exact ⟨fun _ => rfl, List.prefix_rfl⟩
  · intro link clock received hc hover
    constructor
    · intro hv
      have hread : link.readNext longer clock = link.readNext timeout clock := by
        apply readNext_longer hle
        intro hexpired
        rw [hexpired] at hv
        exact hv rfl
      rw [capture_of_over received hc (by rw [hread]; exact hover), hread]
    · rw [capture_received link longer]
      exact List.prefix_append _ _
  · intro link clock received bytes turn hc hd hb ih
    have hread : link.readNext longer clock = link.readNext timeout clock :=
      readNext_longer hle (by simp [hd])
    rw [capture_of_more received hc (by rw [hread]; exact hd) hb, hread]
    exact ih

end Link

def Verdict.isExpired : Verdict → Bool
  | .silent => true
  | .connectTimedOut _ _ => true
  | .writeTimedOut _ => true
  | _ => false

namespace Replay

/-- The settings `longer` differ from these in that timeouts may be longer. -/
structure Settings.Within (settings longer : Settings) : Prop where
  connect_le : settings.connectTimeout.nanos ≤ longer.connectTimeout.nanos
  read_le : settings.readTimeout.nanos ≤ longer.readTimeout.nanos
  write_le : settings.writeTimeout.nanos ≤ longer.writeTimeout.nanos
  freshConnections_eq : longer.freshConnections = settings.freshConnections
  halfClose_eq : longer.halfClose = settings.halfClose

end Replay

theorem Link.exchange_longer {settings longer : Replay.Settings} (hle : settings.Within longer)
    (link : Link) (data : Bytes) (halfClose : Bool) (clock : Clock) {verdict : Verdict}
    (hv : (link.exchange data settings halfClose clock).verdict = some verdict) :
    (verdict.isExpired = false → link.exchange data longer halfClose clock =
      link.exchange data settings halfClose clock) ∧
    (verdict = .silent → (link.exchange data settings halfClose clock).received <+:
      (link.exchange data longer halfClose clock).received) := by
  have hwithin := Duration.deadline_within hle.write_le clock.now true
  have hsend : (link.sendAll data settings halfClose clock).ending ≠ .timedOut →
      link.sendAll data longer halfClose clock = link.sendAll data settings halfClose clock :=
    send_longer hwithin data halfClose
  cases hc : clock.isCancelled with
  | true =>
    rw [exchange_of_cancelled data settings halfClose hc,
      exchange_of_cancelled data longer halfClose hc]
    exact ⟨fun _ => rfl, fun _ => List.prefix_rfl⟩
  | false =>
    by_cases hs : (link.sendAll data settings halfClose clock).ending = .done ()
    · have hsame := hsend (by simp [hs])
      rw [exchange_of_sent hc hs] at hv ⊢
      rw [exchange_of_sent hc (by rw [hsame]; exact hs), hsame]
      have hcapture := capture_longer hle.read_le
        (link.sendAll data settings halfClose clock).link
        (link.sendAll data settings halfClose clock).clock []
      refine ⟨fun he => hcapture.1 ?_, fun _ => hcapture.2⟩
      rw [hv]
      rintro ⟨⟩
      cases he
    · rw [exchange_of_unsent hc hs] at hv ⊢
      refine ⟨fun he => ?_, fun _ => List.nil_prefix⟩
      have hexpired : (link.sendAll data settings halfClose clock).ending ≠ .timedOut := by
        intro hexpired
        rw [hexpired] at hv
        cases hv
        cases he
      have hsame := hsend hexpired
      rw [exchange_of_unsent hc (by rw [hsame]; exact hs), hsame]
      generalize (link.sendAll data settings halfClose clock).ending = ending at hexpired
      cases ending with
      | timedOut => exact absurd rfl hexpired
      | _ => rfl

theorem Network.dial_longer {net : Network} {attempt : Nat} {timeout longer : Duration}
    {clock later : Clock} {dialed : Dialed} (hle : timeout.nanos ≤ longer.nanos)
    (hd : net.dial attempt timeout clock = (dialed, later))
    (he : ∀ verdict, dialed = .refused verdict → verdict.isExpired = false) :
    net.dial attempt longer clock = (dialed, later) := by
  rw [dial_eq] at hd ⊢
  obtain ⟨rfl, rfl⟩ := Prod.mk.inj hd
  have hexpired : (net.dialing attempt timeout clock).ending ≠ .timedOut := by
    intro hexpired
    have := he (.connectTimedOut net.target timeout.boundedMillis) (by rw [hexpired]; rfl)
    cases this
  have hsame : net.dialing attempt longer clock = net.dialing attempt timeout clock :=
    Call.run_longer (Duration.deadline_within hle clock.now true) _ _ _ _ hexpired
  rw [hsame]
  generalize (net.dialing attempt timeout clock).ending = ending at hexpired
  cases ending with
  | timedOut => exact absurd rfl hexpired
  | _ => rfl

/-- What longer timeouts make of a capture: nothing else, unless a timeout had expired, and at least
what was received before the peer fell silent. -/
inductive Payload.Extended (p : Payload) : Capture → Capture → Prop
  | same (c : Capture) : Extended p c c
  | expired {verdict : Verdict} {received : Bytes} (elapsed : Duration) (d : Capture)
      (he : verdict.isExpired = true) (hr : verdict = .silent → received <+: d.received) :
      Extended p (p.captured verdict received elapsed) d

namespace Replay

namespace State

variable {net : Network} {settings longer : Settings} {s : State} {p : Payload}

theorem turnFresh_longer (hle : settings.Within longer) (link : Link) (p : Payload) (clock : Clock)
    {verdict : Verdict} (hv : (turnFresh link settings p clock).verdict = some verdict) :
    (verdict.isExpired = false →
      turnFresh link longer p clock = turnFresh link settings p clock) ∧
    (verdict = .silent → (turnFresh link settings p clock).received <+:
      (turnFresh link longer p clock).received) := by
  unfold turnFresh at hv ⊢
  rw [hle.halfClose_eq]
  exact Link.exchange_longer hle link p.bytes settings.halfClose clock hv

theorem replayFresh_longer (hle : settings.Within longer) (hl : s.line = .fresh)
    (hc : s.clock.isCancelled = false)
    (hend : (s.replayFresh net settings p).line ≠ .stuck)
    (hend' : (s.replayFresh net longer p).line ≠ .stuck) :
    ∃ c d, (s.replayFresh net settings p).captures = s.captures ++ [c] ∧
      (s.replayFresh net longer p).captures = s.captures ++ [d] ∧ p.Extended c d := by
  revert hend
  refine replayFresh_cases ?_ ?_ ?_ ?_
  · intro clock hd hend
    exact absurd rfl hend
  · intro verdict clock hd hend
    cases he : verdict.isExpired with
    | true =>
      rcases replayFresh_receives hl hc with ⟨hstuck, _⟩ | ⟨d, hlonger, _⟩
      · exact absurd hstuck hend'
      · exact ⟨_, d, rfl, hlonger, .expired _ d he fun _ => List.nil_prefix⟩
    | false =>
      have hdial := Network.dial_longer hle.connect_le hd fun v hv => by cases hv; exact he
      exact ⟨_, _, rfl, by rw [replayFresh_of_refused hdial]; rfl, .same _⟩
  · intro link clock hd hv hend
    exact absurd rfl hend
  · intro link clock verdict hd hv hend
    have hdial := Network.dial_longer hle.connect_le hd fun v hv => by cases hv
    have hturn := turnFresh_longer hle link p clock hv
    cases hv' : (turnFresh link longer p clock).verdict with
    | none =>
      rw [replayFresh_of_no_verdict hdial hv'] at hend'
      exact absurd rfl hend'
    | some verdict' =>
      have hlonger := replayFresh_of_verdict hdial hv'
      cases he : verdict.isExpired with
      | true => exact ⟨_, _, rfl, by rw [hlonger]; rfl, .expired _ _ he hturn.2⟩
      | false =>
        have hsame := hturn.1 he
        rw [hsame, hv] at hv'
        cases hv'
        rw [hsame] at hlonger
        exact ⟨_, _, rfl, by rw [hlonger]; rfl, .same _⟩

theorem extended_of_alone {target : String} {script : PeerScript} {a b : Account} {c d : Capture}
    (hle : settings.Within longer) (hf : settings.freshConnections = true)
    (ha : run ⟨target, [script]⟩ settings [p] = some a) (hc : a.captures = [c])
    (hb : run ⟨target, [script]⟩ longer [p] = some b) (hd : b.captures = [d]) :
    p.Extended c d := by
  obtain ⟨hend, rfl⟩ := run_eq_some_iff.1 ha
  obtain ⟨hend', rfl⟩ := run_eq_some_iff.1 hb
  have hstart : start ⟨target, [script]⟩ longer 1 none =
      start ⟨target, [script]⟩ settings 1 none := by
    simp only [start, hle.freshConnections_eq, hle.halfClose_eq]
  have hl : (start ⟨target, [script]⟩ settings 1 none).line = .fresh :=
    start_line_of_fresh _ hf 1 none
  have hone : State.after ⟨target, [script]⟩ settings 1 none [p] =
      (start ⟨target, [script]⟩ settings 1 none).replayFresh ⟨target, [script]⟩ settings p :=
    replay_of_fresh hl rfl
  have hone' : State.after ⟨target, [script]⟩ longer 1 none [p] =
      (start ⟨target, [script]⟩ settings 1 none).replayFresh ⟨target, [script]⟩ longer p := by
    unfold State.after
    rw [hstart]
    exact replay_of_fresh hl rfl
  obtain ⟨c', d', hc', hd', hextended⟩ := replayFresh_longer hle hl rfl
    (by rw [← hone]; exact hend) (by rw [← hone']; exact hend')
  rw [← hone] at hc'
  rw [← hone'] at hd'
  have hfirst : [c] = [] ++ [c'] := hc.symm.trans hc'
  have hsecond : [d] = [] ++ [d'] := hd.symm.trans hd'
  cases hfirst
  cases hsecond
  exact hextended

end State

end Replay

def failureOpenings : List String := ["Failed to connect to ", "write failed: ", "read failed: "]

/-- A text that reports a failure, and no expired timeout. -/
def ReportsFailure (text : String) : Prop :=
  ∃ opening ∈ failureOpenings, ∃ rest, text = opening ++ rest

/-- The texts of expired timeouts have a `t` in this place. -/
theorem ReportsFailure.seventh_ne {text : String} (h : ReportsFailure text) :
    text.toList[6]? ≠ some 't' := by
  obtain ⟨opening, hm, rest, rfl⟩ := h
  simp only [failureOpenings, List.mem_cons, List.not_mem_nil, or_false] at hm
  rcases hm with rfl | rfl | rfl <;> simp

theorem Verdict.not_expired_of_reportsFailure {verdict : Verdict} {text : String}
    (he : verdict.error = some text) (h : ReportsFailure text) : verdict.isExpired = false := by
  cases verdict with
  | silent => cases he
  | connectTimedOut target millis =>
    have ht : text =
        "Connection to " ++ target ++ " timed out after " ++ toString millis ++ " ms" :=
      (Option.some.inj he).symm
    exact absurd (by rw [ht]; simp) h.seventh_ne
  | writeTimedOut millis =>
    have ht : text = "write timed out after " ++ toString millis ++ " ms" :=
      (Option.some.inj he).symm
    exact absurd (by rw [ht]; simp) h.seventh_ne
  | _ => rfl

/-- How a capture compares with the one under longer timeouts, as it can be told from the capture:
it is the same unless it reports an expired timeout, and nothing that it received is lost. -/
structure Capture.Kept (c d : Capture) : Prop where
  of_ok : c.outcome = .ok → d = c
  of_failure : c.outcome = .ioError → ∀ text, c.error = some text → ReportsFailure text → d = c
  of_timeout : c.outcome = .timeout → c.received <+: d.received

theorem Payload.Extended.kept {p : Payload} {c d : Capture} (h : p.Extended c d) : c.Kept d := by
  cases h with
  | same => exact ⟨fun _ => rfl, fun _ _ _ _ => rfl, fun _ => List.prefix_rfl⟩
  | @expired verdict received elapsed d he hr =>
    constructor
    case of_ok =>
      intro ho
      cases verdict <;> cases ho
      cases he
    case of_failure =>
      intro _ text htext hreports
      rw [Verdict.not_expired_of_reportsFailure htext hreports] at he
      cases he
    case of_timeout =>
      intro ho
      apply hr
      cases verdict <;> cases ho
      rfl

namespace Replay

/-- With a connection for each payload, longer timeouts change no capture in which no timeout had
expired, and what was received before a peer fell silent is the beginning of what is received
then. -/
theorem run_longer_timeouts (net : Network) (settings longer : Settings) (payloads : List Payload)
    (a b : Account) (hf : settings.freshConnections = true) (hle : settings.Within longer)
    (hnet : net.IsCalm) (hunbegun : net.IsUnbegun)
    (ha : run net settings payloads = some a) (hb : run net longer payloads = some b) :
    a.captures.length = payloads.length ∧ b.captures.length = payloads.length ∧
      ∀ (i : Nat) c d, a.captures[i]? = some c → b.captures[i]? = some d → c.Kept d := by
  obtain ⟨hend, rfl⟩ := run_eq_some_iff.1 ha
  obtain ⟨hend', rfl⟩ := run_eq_some_iff.1 hb
  have hlength := State.length_captures_after hend
  refine ⟨hlength, State.length_captures_after hend', fun i c d hc hd => ?_⟩
  have hi : i < payloads.length := by
    rw [← hlength]
    exact (List.getElem?_eq_some_iff.1 hc).1
  have hsplit : payloads.take i ++ payloads[i] :: payloads.drop (i + 1) = payloads := by
    rw [List.getElem_cons_drop, List.take_append_drop]
  have htake : (payloads.take i).length = i := List.length_take_of_le (Nat.le_of_lt hi)
  have hf' : longer.freshConnections = true := hle.freshConnections_eq.trans hf
  have hfirst := State.exists_alone hnet hunbegun hf (payloads.take i) (payloads.drop (i + 1))
    payloads[i] (by rwa [hsplit])
  have hsecond := State.exists_alone hnet hunbegun hf' (payloads.take i) (payloads.drop (i + 1))
    payloads[i] (by rwa [hsplit])
  rw [hsplit, htake] at hfirst hsecond
  obtain ⟨alone, c', halone, hcaptures, hc'⟩ := hfirst
  obtain ⟨alone', d', halone', hcaptures', hd'⟩ := hsecond
  cases Option.some.inj (hc.symm.trans hc')
  cases Option.some.inj (hd.symm.trans hd')
  exact (State.extended_of_alone hle hf halone hcaptures halone' hcaptures').kept

/-- An answer comes too late for the shorter read timeout, a connection is refused, and a read fails
under both. -/
theorem run_longer_timeouts_of_late_answer :
    ∃ a b,
      run ⟨"peer", [{ read := [.act (.data [1]), .delay 50, .act (.data [2]), .act .eof] },
          { connect := [.delay 5, .error (.system 111)] },
          { read := [.act (.data [3]), .error (.system 104)] }]⟩
        { readTimeout := .ofMillis 20 } [⟨"a", [65]⟩, ⟨"b", [66]⟩, ⟨"c", [67]⟩] = some a ∧
      run ⟨"peer", [{ read := [.act (.data [1]), .delay 50, .act (.data [2]), .act .eof] },
          { connect := [.delay 5, .error (.system 111)] },
          { read := [.act (.data [3]), .error (.system 104)] }]⟩
        { readTimeout := .ofMillis 60 } [⟨"a", [65]⟩, ⟨"b", [66]⟩, ⟨"c", [67]⟩] = some b ∧
      a.captures.map (fun c => (c.outcome, c.received)) =
        [(.timeout, [1]), (.ioError, []), (.ioError, [3])] ∧
      b.captures.map (fun c => (c.outcome, c.received)) =
        [(.ok, [1, 2]), (.ioError, []), (.ioError, [3])] ∧
      ∀ (i : Nat) c d, a.captures[i]? = some c → b.captures[i]? = some d → c.Kept d := by
  have hfirst : (run ⟨"peer", [{ read := [.act (.data [1]), .delay 50, .act (.data [2]),
          .act .eof] }, { connect := [.delay 5, .error (.system 111)] },
          { read := [.act (.data [3]), .error (.system 104)] }]⟩
        { readTimeout := .ofMillis 20 } [⟨"a", [65]⟩, ⟨"b", [66]⟩, ⟨"c", [67]⟩]).map
      (fun a => a.captures.map fun c => (c.outcome, c.received)) =
      some [(.timeout, [1]), (.ioError, []), (.ioError, [3])] := by
    decide +kernel
  have hsecond : (run ⟨"peer", [{ read := [.act (.data [1]), .delay 50, .act (.data [2]),
          .act .eof] }, { connect := [.delay 5, .error (.system 111)] },
          { read := [.act (.data [3]), .error (.system 104)] }]⟩
        { readTimeout := .ofMillis 60 } [⟨"a", [65]⟩, ⟨"b", [66]⟩, ⟨"c", [67]⟩]).map
      (fun b => b.captures.map fun c => (c.outcome, c.received)) =
      some [(.ok, [1, 2]), (.ioError, []), (.ioError, [3])] := by
    decide +kernel
  obtain ⟨a, ha, hca⟩ := Option.map_eq_some_iff.1 hfirst
  obtain ⟨b, hb, hcb⟩ := Option.map_eq_some_iff.1 hsecond
  refine ⟨a, b, ha, hb, hca, hcb, (run_longer_timeouts _ _ _ _ a b rfl ?_ ?_ ?_ ha hb).2.2⟩
  · constructor <;> decide
  · intro script hm
    simp only [List.mem_cons, List.not_mem_nil, or_false] at hm
    rcases hm with rfl | rfl | rfl <;> constructor <;> simp
  · intro script hm
    simp only [List.mem_cons, List.not_mem_nil, or_false] at hm
    rcases hm with rfl | rfl | rfl <;> constructor <;> simp

end Replay

end WireReplay
