import WireReplay.Proofs.ReplaySteps
import WireReplay.Proofs.Verdicts
import WireReplay.Proofs.Written

/-!
# The course of a run on one connection

On a shared connection the payloads leave the peer silent up to the first one that does not. That
one decides what is reported for all payloads after it, and none of them is written. The run is
followed along the payloads that left the peer silent: `SilentSoFar` is what they have in common,
and each way in which the line can be lost ends it in a `Cascade`.
-/

namespace WireReplay.Replay

/-- The course of a run on one connection whose first `k` payloads left the peer silent. -/
structure Cascade (net : Network) (settings : Settings) (payloads : List Payload)
    (cancelAt : Option Nat) (account : Account) (k : Nat) : Prop where
  le_length : k ≤ payloads.length
  length_eq : account.captures.length = payloads.length
  timeout_before : ∀ c ∈ account.captures.take k, c.outcome = .timeout
  turning : ∀ c, account.captures[k]? = some c →
    c.outcome = .ok ∨ c.outcome = .ioError ∨ c.outcome = .cancelled
  rest_cancelled : ∀ c, account.captures[k]? = some c → c.outcome = .cancelled →
    ∀ d ∈ account.captures.drop (k + 1),
      d.outcome = .cancelled ∧ d.received = [] ∧ d.error = some "run cancelled"
  rest_closed : ∀ c, account.captures[k]? = some c → c.outcome = .ok ∨ c.outcome = .ioError →
    ∀ d ∈ account.captures.drop (k + 1), d.outcome = .connectionClosedEarly ∧ d.received = []
  error_unopened : ∀ c, account.captures[k]? = some c → c.outcome = .ok ∨ c.outcome = .ioError →
    account.links = [] → k = 0 ∧ ∃ text, c.error = some text ∧
      ∀ d ∈ account.captures.drop (k + 1), d.error = some ("connection never opened: " ++ text)
  error_opened : ∀ p c, payloads[k]? = some p → account.captures[k]? = some c →
    c.outcome = .ok ∨ c.outcome = .ioError → account.links ≠ [] →
      ∀ d ∈ account.captures.drop (k + 1), d.error = some s!"connection ended after '{p.name}'"
  links_length : account.links.length ≤ 1
  written : ∀ link ∈ account.links, (payloads.take k).flatMap (·.bytes) <+: link.written ∧
    link.written <+: (payloads.take (k + 1)).flatMap (·.bytes)
  attempts_eq : account.attempts = if payloads = [] ∨ cancelAt = some 0 then 0 else 1
  log_unopened : account.links = [] →
    account.log = (State.start net settings payloads.length cancelAt).log
  log_silent : k = payloads.length →
    account.log = (State.start net settings payloads.length cancelAt).log
  log_opened : ∀ p c, payloads[k]? = some p → account.captures[k]? = some c →
    account.links ≠ [] → account.log = (State.start net settings payloads.length cancelAt).log ++
      State.skipWarning net p c.outcome (payloads.length - (k + 1))

/-- What is reported for the payloads behind `p`, whose capture `c` ended the line. -/
inductive Aftermath (p : Payload) (c : Capture) (isFirst : Prop) (links : List Link) :
    Outcome → String → Prop
  | cancelled (ho : c.outcome = .cancelled) :
      Aftermath p c isFirst links .cancelled cancelledReason
  | unopened {text : String} (ho : c.outcome = .ok ∨ c.outcome = .ioError) (hl : links = [])
      (hf : isFirst) (he : c.error = some text) :
      Aftermath p c isFirst links .connectionClosedEarly ("connection never opened: " ++ text)
  | ended (ho : c.outcome = .ok ∨ c.outcome = .ioError) (hl : links ≠ []) :
      Aftermath p c isFirst links .connectionClosedEarly s!"connection ended after '{p.name}'"

theorem exists_aftermath_of_lineAfter {p : Payload} {c : Capture} {isFirst : Prop}
    {links : List Link} {verdict : Verdict} {reason : String} (ho : c.outcome = verdict.outcome)
    (h : verdict ≠ .cancelled → Aftermath p c isFirst links .connectionClosedEarly reason) :
    ∃ outcome last, State.lineAfter verdict reason = .lost outcome last ∧
      Aftermath p c isFirst links outcome last := by
  by_cases hc : verdict = .cancelled
  · exact ⟨_, _, if_pos hc, .cancelled (by rw [ho, hc]; rfl)⟩
  · exact ⟨_, _, if_neg hc, h hc⟩

section Course

variable {net : Network} {settings : Settings} {cancelAt : Option Nat} {payloads : List Payload}
  {account : Account}

theorem cascade_of_aftermath {done rest : List Payload} {p : Payload} {before : List Capture}
    {c : Capture} {outcome : Outcome} {reason : String}
    (hpay : payloads = done ++ p :: rest)
    (hcap : account.captures = before ++ c :: rest.map (·.skipped outcome reason))
    (hlen : before.length = done.length) (hbefore : ∀ c ∈ before, c.outcome = .timeout)
    (haft : Aftermath p c (done = []) account.links outcome reason)
    (hlinks : account.links.length ≤ 1)
    (hwritten : ∀ link ∈ account.links, done.flatMap (·.bytes) <+: link.written ∧
      link.written <+: done.flatMap (·.bytes) ++ p.bytes)
    (hattempts : account.attempts = if cancelAt = some 0 then 0 else 1)
    (hlog : account.log = (State.start net settings payloads.length cancelAt).log ++
      if account.links = [] then [] else State.skipWarning net p c.outcome rest.length) :
    Cascade net settings payloads cancelAt account done.length := by
  have hc : account.captures[done.length]? = some c := by
    rw [hcap, ← hlen]; simp
  have hp : payloads[done.length]? = some p := by
    rw [hpay]; simp
  have hdrop : account.captures.drop (done.length + 1) = rest.map (·.skipped outcome reason) := by
    rw [hcap, ← hlen]; simp
  have hrest : payloads.length - (done.length + 1) = rest.length := by
    rw [hpay, List.length_append, List.length_cons]; omega
  have hmem : ∀ d ∈ account.captures.drop (done.length + 1),
      d.outcome = outcome ∧ d.received = [] ∧ d.error = some reason := by
    intro d hd
    rw [hdrop] at hd
    obtain ⟨q, _, rfl⟩ := List.mem_map.1 hd
    exact ⟨rfl, rfl, rfl⟩
  constructor
  case le_length => rw [hpay, List.length_append]; omega
  case length_eq => rw [hcap, hpay]; simp [hlen]
  case timeout_before =>
    intro d hd
    rw [hcap, ← hlen, List.take_left'] at hd
    · exact hbefore d hd
    · rfl
  case turning =>
    intro d hd
    cases hc.symm.trans hd
    cases haft with
    | cancelled ho => exact .inr (.inr ho)
    | unopened ho => exact ho.imp_right .inl
    | ended ho => exact ho.imp_right .inl
  case rest_cancelled =>
    intro d hd ho
    cases hc.symm.trans hd
    cases haft with
    | cancelled => exact hmem
    | unopened ho' => rw [ho] at ho'; simp at ho'
    | ended ho' => rw [ho] at ho'; simp at ho'
  case rest_closed =>
    intro d hd ho
    cases hc.symm.trans hd
    cases haft with
    | cancelled ho' => rw [ho'] at ho; simp at ho
    | unopened => exact fun d hd => ⟨(hmem d hd).1, (hmem d hd).2.1⟩
    | ended => exact fun d hd => ⟨(hmem d hd).1, (hmem d hd).2.1⟩
  case error_unopened =>
    intro d hd ho hl
    cases hc.symm.trans hd
    cases haft with
    | cancelled ho' => rw [ho'] at ho; simp at ho
    | unopened _ _ hf he =>
      exact ⟨by rw [hf]; rfl, _, he, fun d hd => (hmem d hd).2.2⟩
    | ended _ hl' => exact absurd hl hl'
  case error_opened =>
    intro q d hq hd ho hl
    cases hp.symm.trans hq
    cases hc.symm.trans hd
    cases haft with
    | cancelled ho' => rw [ho'] at ho; simp at ho
    | unopened _ hl' => exact absurd hl' hl
    | ended => exact fun d hd => (hmem d hd).2.2
  case links_length => exact hlinks
  case written =>
    intro link hlink
    have hw := hwritten link hlink
    rw [hpay, List.take_left' rfl]
    refine ⟨hw.1, ?_⟩
    rw [List.take_append, List.take_of_length_le (by omega)]
    simpa using hw.2
  case attempts_eq => rw [hattempts, hpay]; simp
  case log_unopened => intro hl; rw [hlog, if_pos hl, List.append_nil]
  case log_silent => intro hk; rw [hpay, List.length_append, List.length_cons] at hk; omega
  case log_opened =>
    intro q d hq hd hl
    cases hp.symm.trans hq
    cases hc.symm.trans hd
    rw [hlog, if_neg hl, hrest]

/-- All of `done` left the peer silent on `link`, and the run goes on. -/
structure SilentSoFar (net : Network) (settings : Settings) (total : Nat) (cancelAt : Option Nat)
    (done : List Payload) (link : Link) (s : State) : Prop where
  captures_length : s.captures.length = done.length
  timeout : ∀ c ∈ s.captures, c.outcome = .timeout
  links_eq : s.links = []
  attempts_eq : s.attempts = 1
  log_eq : s.log = (State.start net settings total cancelAt).log
  written_eq : link.written = done.flatMap (·.bytes)

namespace SilentSoFar

variable {done ps : List Payload} {p : Payload} {link : Link} {s : State} {started : Nat}

theorem cascade_of_all (h : SilentSoFar net settings payloads.length cancelAt payloads link s)
    (hl : s.line = .shared link) (hp : payloads ≠ []) (hstart : cancelAt ≠ some 0) :
    Cascade net settings payloads cancelAt s.account payloads.length := by
  have hlinks : s.account.links = [link.close] := by
    rw [State.account_of_shared hl, h.links_eq, List.nil_append]
  have hnone : s.account.captures[payloads.length]? = none := by
    rw [List.getElem?_eq_none_iff]
    exact Nat.le_of_eq h.captures_length
  constructor
  case le_length => exact Nat.le_refl _
  case length_eq => exact h.captures_length
  case timeout_before => exact fun c hc => h.timeout c (List.mem_of_mem_take hc)
  case turning => intro c hc; rw [hnone] at hc; cases hc
  case rest_cancelled => intro c hc; rw [hnone] at hc; cases hc
  case rest_closed => intro c hc; rw [hnone] at hc; cases hc
  case error_unopened => intro c hc; rw [hnone] at hc; cases hc
  case error_opened => intro q c _ hc; rw [hnone] at hc; cases hc
  case links_length => rw [hlinks]; exact Nat.le_refl _
  case written =>
    intro l hmem
    rw [hlinks] at hmem
    cases List.mem_singleton.1 hmem
    rw [List.take_length, List.take_of_length_le (Nat.le_succ _)]
    exact ⟨by rw [← h.written_eq]; exact List.prefix_refl _,
      by rw [← h.written_eq]; exact List.prefix_refl _⟩
  case attempts_eq => rw [if_neg (by simp [hp, hstart])]; exact h.attempts_eq
  case log_unopened => exact fun _ => h.log_eq
  case log_silent => exact fun _ => h.log_eq
  case log_opened => intro q c _ hc; rw [hnone] at hc; cases hc

theorem cascade_of_cancelled (h : SilentSoFar net settings payloads.length cancelAt done link s)
    (hpay : payloads = done ++ p :: ps) (hc : s.clock.isCancelled = true)
    (hstart : cancelAt ≠ some 0) :
    Cascade net settings payloads cancelAt
      (ps.foldl (State.replay net settings payloads.length)
        (s.replayShared net settings payloads.length link started p)).account done.length := by
  rw [State.replayShared_of_cancelled hc,
    State.foldl_replay_of_cancelled ps _ (by rfl) (by exact hc), State.account_of_shared (by rfl)]
  refine cascade_of_aftermath hpay (List.append_assoc _ _ _) h.captures_length h.timeout
    (.cancelled rfl) ?_ ?_ ?_ ?_
  · simp [State.skip, State.record, h.links_eq]
  · intro l hmem
    simp only [State.skip, State.record, h.links_eq, List.nil_append, List.mem_singleton] at hmem
    subst hmem
    refine ⟨by rw [← h.written_eq]; exact List.prefix_refl _, ?_⟩
    rw [← h.written_eq]
    exact List.prefix_append _ _
  · rw [if_neg hstart]
    exact h.attempts_eq
  · simp [State.skip, State.record, h.log_eq, State.skipWarning, Payload.skipped]

theorem next (h : SilentSoFar net settings payloads.length cancelAt done link s)
    (hc : s.clock.isCancelled = false)
    (hv : (State.turnShared link settings p s.clock).verdict = some .silent) :
    SilentSoFar net settings payloads.length cancelAt (done ++ [p])
      (State.turnShared link settings p s.clock).link
      (s.replayShared net settings payloads.length link started p) := by
  rw [State.replayShared_of_silent hc hv]
  constructor
  case captures_length => simp [State.record, h.captures_length]
  case timeout =>
    intro d hd
    rcases List.mem_append.1 hd with hd | hd
    · exact h.timeout d hd
    · rw [List.mem_singleton.1 hd]
      rfl
  case links_eq => exact h.links_eq
  case attempts_eq => exact h.attempts_eq
  case log_eq => exact h.log_eq
  case written_eq =>
    obtain ⟨accepted, _, hw, hall⟩ := link.exchange_written p.bytes settings false s.clock
    rw [State.turnShared, hw, hall _ hv rfl, h.written_eq]
    simp

theorem cascade_of_ended {verdict : Verdict}
    (h : SilentSoFar net settings payloads.length cancelAt done link s)
    (hpay : payloads = done ++ p :: ps) (hc : s.clock.isCancelled = false)
    (hv : (State.turnShared link settings p s.clock).verdict = some verdict)
    (hne : verdict ≠ .silent) (hstart : cancelAt ≠ some 0) :
    Cascade net settings payloads cancelAt
      (ps.foldl (State.replay net settings payloads.length)
        (s.replayShared net settings payloads.length link started p)).account done.length := by
  have hcount : payloads.length - (s.captures.length + 1) = ps.length := by
    rw [hpay, h.captures_length, List.length_append, List.length_cons]; omega
  obtain ⟨accepted, hacc, hw, _⟩ := link.exchange_written p.bytes settings false s.clock
  have hwritten :
      done.flatMap (·.bytes) <+: (State.turnShared link settings p s.clock).link.written ∧
        (State.turnShared link settings p s.clock).link.written <+:
          done.flatMap (·.bytes) ++ p.bytes := by
    rw [State.turnShared, hw, h.written_eq]
    exact ⟨List.prefix_append _ _, (List.prefix_append_right_inj _).2 hacc⟩
  rw [State.replayShared_of_ended hc hv hne, hcount]
  obtain ⟨outcome, reason, hl, haft⟩ := exists_aftermath_of_lineAfter (p := p)
    (c := p.captured verdict (State.turnShared link settings p s.clock).received
      (.ofMillis ((State.turnShared link settings p s.clock).clock.now - started))) rfl fun hcan =>
    Aftermath.ended (Verdict.outcome_of_ne hne hcan) (List.append_ne_nil_of_right_ne_nil s.links
      (List.cons_ne_nil (State.turnShared link settings p s.clock).link.close []))
  rw [State.foldl_replay_of_lost ps _ hl, State.account_of_not_shared (by simp [hl])]
  refine cascade_of_aftermath hpay (List.append_assoc _ _ _) h.captures_length h.timeout haft
    ?_ ?_ ?_ ?_
  · simp [h.links_eq]
  · intro l hmem
    rw [h.links_eq] at hmem
    cases List.mem_singleton.1 hmem
    exact hwritten
  · rw [if_neg hstart]
    exact h.attempts_eq
  · simp [h.log_eq, Payload.captured]

theorem step (h : SilentSoFar net settings payloads.length cancelAt done link s)
    (hpay : payloads = done ++ p :: ps) (hstart : cancelAt ≠ some 0) :
    let after := s.replayShared net settings payloads.length link started p
    after.line = .stuck ∨
    (∃ next, after.line = .shared next ∧
      SilentSoFar net settings payloads.length cancelAt (done ++ [p]) next after) ∨
    ∃ k, Cascade net settings payloads cancelAt
      (ps.foldl (State.replay net settings payloads.length) after).account k := by
  cases hc : s.clock.isCancelled with
  | true => exact .inr (.inr ⟨_, h.cascade_of_cancelled hpay hc hstart⟩)
  | false =>
    cases hv : (State.turnShared link settings p s.clock).verdict with
    | none => exact .inl (by rw [State.replayShared_of_no_verdict hc hv]; rfl)
    | some verdict =>
      by_cases hs : verdict = .silent
      · subst hs
        exact .inr (.inl ⟨_, by rw [State.replayShared_of_silent hc hv], h.next hc hv⟩)
      · exact .inr (.inr ⟨_, h.cascade_of_ended hpay hc hv hs hstart⟩)

theorem exists_cascade (ps : List Payload)
    (h : SilentSoFar net settings payloads.length cancelAt done link s)
    (hl : s.line = .shared link) (hpay : payloads = done ++ ps) (hp : payloads ≠ [])
    (hstart : cancelAt ≠ some 0)
    (hline : (ps.foldl (State.replay net settings payloads.length) s).line ≠ .stuck) :
    ∃ k, Cascade net settings payloads cancelAt
      (ps.foldl (State.replay net settings payloads.length) s).account k := by
  induction ps generalizing done link s with
  | nil =>
    rw [List.append_nil] at hpay
    subst hpay
    exact ⟨_, h.cascade_of_all hl hp hstart⟩
  | cons p ps ih =>
    rw [List.foldl_cons, State.replay_of_shared hl] at hline ⊢
    rcases h.step hpay hstart with hstuck | ⟨next, hnext, hsilent⟩ | hk
    · rw [State.foldl_replay_of_stuck ps _ hstuck] at hline
      exact absurd hstuck hline
    · exact ih hsilent hnext (by rw [hpay, List.append_assoc, List.singleton_append]) hline
    · exact hk

end SilentSoFar

theorem start_isCancelled (net : Network) (settings : Settings) (total : Nat)
    (cancelAt : Option Nat) :
    (State.start net settings total cancelAt).clock.isCancelled = true ↔ cancelAt = some 0 := by
  cases cancelAt <;> simp [State.start, Clock.isCancelled]

theorem start_line_of_reused {settings : Settings} (hf : settings.freshConnections = false)
    (net : Network) (total : Nat) (cancelAt : Option Nat) :
    (State.start net settings total cancelAt).line = .unopened := by
  simp [State.start, hf]

theorem cascade_of_cancelled_start {p : Payload} {ps : List Payload}
    (hf : settings.freshConnections = false) (hpay : payloads = p :: ps)
    (hc : cancelAt = some 0) :
    Cascade net settings payloads cancelAt
      (payloads.foldl (State.replay net settings payloads.length)
        (State.start net settings payloads.length cancelAt)).account 0 := by
  have hl := start_line_of_reused hf net payloads.length cancelAt
  rw [State.foldl_replay_of_cancelled payloads _ (by rw [hl]; rfl)
    ((start_isCancelled net settings payloads.length cancelAt).2 hc),
    State.account_of_not_shared (by simp [hl])]
  have hpay' : payloads = [] ++ p :: ps := hpay
  refine cascade_of_aftermath hpay' (by rw [hpay]; rfl) rfl (fun c hc => by cases hc)
    (.cancelled rfl) (Nat.zero_le _) (fun link hm => by cases hm) ?_ ?_
  · rw [if_pos hc]
    rfl
  · exact (List.append_nil _).symm

theorem cascade_of_refused {p : Payload} {ps : List Payload} {verdict : Verdict} {clock : Clock}
    (hpay : payloads = p :: ps) (hc : cancelAt ≠ some 0)
    (hd : net.dial 0 settings.connectTimeout { cancelAt } = (.refused verdict, clock)) :
    Cascade net settings payloads cancelAt
      (ps.foldl (State.replay net settings payloads.length)
        ((State.start net settings payloads.length cancelAt).replayFirst net settings
          payloads.length p)).account 0 := by
  have hpay' : payloads = [] ++ p :: ps := hpay
  let c := p.captured verdict [] (.ofMillis (clock.now - 0))
  have hclosed (hcan : verdict ≠ .cancelled) : Aftermath p c (([] : List Payload) = []) []
      .connectionClosedEarly (State.neverOpened verdict) := by
    obtain ⟨text, he, ho⟩ := Network.error_of_refused hd hcan
    rw [State.neverOpened_eq he]
    exact .unopened (.inr ho) rfl rfl he
  obtain ⟨outcome, reason, hl, haft⟩ := exists_aftermath_of_lineAfter rfl hclosed
  rw [State.replayFirst_of_refused (by exact hd), State.foldl_replay_of_lost ps _ hl,
    State.account_of_not_shared (by simp [hl])]
  refine cascade_of_aftermath hpay' rfl rfl (fun d hm => absurd hm List.not_mem_nil) haft
    (Nat.zero_le _) (fun link hm => absurd hm List.not_mem_nil) ?_ ?_
  · rw [if_neg hc]
    rfl
  · exact (List.append_nil _).symm

theorem cascade_of_no_payloads (hf : settings.freshConnections = false) :
    Cascade net settings [] cancelAt (State.start net settings 0 cancelAt).account 0 := by
  have hl := start_line_of_reused hf net 0 cancelAt
  rw [State.account_of_not_shared (by simp [hl])]
  constructor
  case log_unopened => exact fun _ => rfl
  case log_silent => exact fun _ => rfl
  all_goals simp [State.start]

theorem exists_cascade_of_opened {p : Payload} {ps : List Payload} {link : Link} {clock : Clock}
    (hpay : payloads = p :: ps) (hc : cancelAt ≠ some 0)
    (hd : net.dial 0 settings.connectTimeout { cancelAt } = (.opened link, clock))
    (hline : (ps.foldl (State.replay net settings payloads.length)
      ((State.start net settings payloads.length cancelAt).replayFirst net settings
        payloads.length p)).line ≠ .stuck) :
    ∃ k, Cascade net settings payloads cancelAt
      (ps.foldl (State.replay net settings payloads.length)
        ((State.start net settings payloads.length cancelAt).replayFirst net settings
          payloads.length p)).account k := by
  have hw : link.written = [] := Network.written_of_opened hd
  rw [State.replayFirst_of_opened (by exact hd)] at hline ⊢
  have hpay' : payloads = [] ++ p :: ps := hpay
  generalize hs : State.mk clock _ _ _ _ _ = s at hline ⊢
  have h : SilentSoFar net settings payloads.length cancelAt [] link s := by
    rw [← hs]
    exact ⟨rfl, fun c hm => absurd hm List.not_mem_nil, rfl, rfl, rfl, hw⟩
  rcases h.step hpay' hc with hstuck | ⟨next, hnext, hsilent⟩ | hk
  · rw [State.foldl_replay_of_stuck ps _ hstuck] at hline
    exact absurd hstuck hline
  · exact hsilent.exists_cascade ps hnext hpay' (by rw [hpay]; exact List.cons_ne_nil p ps) hc hline
  · exact hk

end Course

/-- Every run on one connection takes the course of a cascade. -/
theorem run_cascade (net : Network) (settings : Settings) (payloads : List Payload)
    (cancelAt : Option Nat) (account : Account) (hf : settings.freshConnections = false)
    (h : run net settings payloads cancelAt = some account) :
    ∃ k, Cascade net settings payloads cancelAt account k := by
  obtain ⟨hline, rfl⟩ := run_eq_some_iff.1 h
  unfold State.after at hline ⊢
  rcases hp : payloads with _ | ⟨p, ps⟩
  · exact ⟨0, cascade_of_no_payloads hf⟩
  rw [← hp]
  by_cases hc : cancelAt = some 0
  · exact ⟨0, cascade_of_cancelled_start hf hp hc⟩
  · have hopen : (State.start net settings payloads.length cancelAt).clock.isCancelled = false := by
      rw [← Bool.not_eq_true, start_isCancelled]
      exact hc
    have hl := start_line_of_reused hf net payloads.length cancelAt
    have hfold : payloads.foldl (State.replay net settings payloads.length)
        (State.start net settings payloads.length cancelAt) =
        ps.foldl (State.replay net settings payloads.length)
          ((State.start net settings payloads.length cancelAt).replayFirst net settings
            payloads.length p) := by
      rw [← State.replay_of_unopened hl hopen, ← List.foldl_cons, ← hp]
    rw [hfold] at hline ⊢
    rcases hd : net.dial 0 settings.connectTimeout { cancelAt } with ⟨dialed, clock⟩
    cases dialed with
    | never =>
      rw [State.replayFirst_of_never (by exact hd), State.foldl_replay_of_stuck ps _ rfl] at hline
      exact absurd rfl hline
    | refused verdict => exact ⟨0, cascade_of_refused hp hc hd⟩
    | opened link => exact exists_cascade_of_opened hp hc hd hline

/-- A peer that answers the first payload, falls silent, and closes in the turn of the second. -/
theorem run_cascade_of_closing_peer :
    ∃ account,
      run ⟨"peer", [{ read := [.act (.data [1]), .delay 3000, .act .eof] }]⟩
          { freshConnections := false } [⟨"a", [65]⟩, ⟨"b", [66]⟩, ⟨"c", [67]⟩] = some account ∧
        account.captures.map (·.outcome) = [.timeout, .ok, .connectionClosedEarly] ∧
        ∃ k, Cascade ⟨"peer", [{ read := [.act (.data [1]), .delay 3000, .act .eof] }]⟩
          { freshConnections := false } [⟨"a", [65]⟩, ⟨"b", [66]⟩, ⟨"c", [67]⟩] none account k := by
  have h : (run ⟨"peer", [{ read := [.act (.data [1]), .delay 3000, .act .eof] }]⟩
      { freshConnections := false } [⟨"a", [65]⟩, ⟨"b", [66]⟩, ⟨"c", [67]⟩]).map
        (·.captures.map (·.outcome)) = some [.timeout, .ok, .connectionClosedEarly] := by
    decide +kernel
  obtain ⟨account, hrun, ho⟩ := Option.map_eq_some_iff.1 h
  exact ⟨account, hrun, ho, run_cascade _ _ _ _ _ rfl hrun⟩

end WireReplay.Replay
