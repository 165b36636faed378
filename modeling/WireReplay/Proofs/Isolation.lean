import WireReplay.Proofs.Arrivals
import WireReplay.Proofs.Shift

/-!
# Payloads that do not meet

With a connection for each payload, a run carries nothing from one payload to the next but the
time and the number of attempts. What it does with the later payloads is therefore what a run does
that begins with them, only later and behind the earlier attempts.
-/

namespace WireReplay

/-- What can be observed of a connection: all but what its peer had still to answer. -/
def Link.observed (link : Link) : Link := { link with script := {} }

theorem Link.map_observed_shift (links : List Link) (d : Nat) :
    (links.map (·.shift d)).map Link.observed = links.map Link.observed := by
  rw [List.map_map]
  rfl

namespace Replay

namespace State

/-- The state `s` of a run that began in state `first`, when some payloads were through already. -/
def behind (s first : State) : State where
  clock := s.clock.shift first.clock.now
  line := s.line
  attempts := first.attempts + s.attempts
  links := first.links ++ s.links.map (·.shift first.clock.now)
  captures := first.captures ++ s.captures
  log := first.log

variable {net : Network} {settings : Settings} {total count : Nat} {s first : State} {p : Payload}
  {ps : List Payload}

theorem behind_stall (s first : State) (clock : Clock) :
    (s.behind first).stall (clock.shift first.clock.now) = (s.stall clock).behind first := rfl

theorem behind_record (s first : State) (clock : Clock) (c : Capture) :
    (s.behind first).record (clock.shift first.clock.now) c = (s.record clock c).behind first := by
  simp only [record, behind, List.append_assoc]

theorem behind_dialed (s first : State) :
    { s.behind first with attempts := (s.behind first).attempts + 1 } =
      { s with attempts := s.attempts + 1 }.behind first := rfl

theorem behind_closed (s first : State) (link : Link) :
    { s.behind first with
      attempts := (s.behind first).attempts + 1
      links := (s.behind first).links ++ [(link.shift first.clock.now).close] } =
    { s with
      attempts := s.attempts + 1
      links := s.links ++ [link.close] }.behind first := by
  simp only [behind, List.append_assoc, List.map_append, List.map_cons, List.map_nil]
  rfl

theorem behind_elapsed (later : Clock) (s first : State) :
    (later.shift first.clock.now).now - (s.behind first).clock.now = later.now - s.clock.now :=
  Nat.add_sub_add_right _ _ _

theorem replayFresh_behind (h : net.IsUnbegun) (s first : State) (p : Payload) :
    (s.behind first).replayFresh net settings p =
      (s.replayFresh (net.behind first.attempts) settings p).behind first := by
  have hdial := Network.dial_shift h first.attempts s.attempts settings.connectTimeout s.clock
    first.clock.now
  rcases hd : (net.behind first.attempts).dial s.attempts settings.connectTimeout s.clock with
    ⟨dialed, later⟩
  rw [hd] at hdial
  change net.dial (s.behind first).attempts settings.connectTimeout (s.behind first).clock =
    (dialed, later.shift first.clock.now) at hdial
  cases dialed with
  | never =>
    rw [replayFresh_of_never hd, replayFresh_of_never hdial, behind_dialed, behind_stall]
  | refused verdict =>
    rw [replayFresh_of_refused hd, replayFresh_of_refused hdial, behind_dialed, behind_elapsed,
      behind_record]
  | opened link =>
    have hturn : turnFresh link settings p (later.shift first.clock.now) =
        (turnFresh link settings p later).shift first.clock.now := by
      have hlink := Network.shift_of_opened (h.behind first.attempts) hd first.clock.now
      have hshift := link.exchange_shift later first.clock.now p.bytes settings settings.halfClose
      rwa [hlink] at hshift
    cases hv : (turnFresh link settings p later).verdict with
    | none =>
      rw [replayFresh_of_no_verdict hd hv,
        replayFresh_of_no_verdict hdial (by rw [hturn]; exact hv), hturn]
      dsimp only [Turn.shift]
      rw [behind_closed, behind_stall]
    | some verdict =>
      rw [replayFresh_of_verdict hd hv, replayFresh_of_verdict hdial (by rw [hturn]; exact hv),
        hturn]
      dsimp only [Turn.shift]
      rw [behind_closed, behind_elapsed, behind_record]

def IsFresh (s : State) : Prop := s.line = .fresh ∨ s.line = .stuck

theorem replayFresh_isFresh (hl : s.line = .fresh) : (s.replayFresh net settings p).IsFresh := by
  refine replayFresh_cases ?_ ?_ ?_ ?_
  · intro clock _
    exact .inr rfl
  · intro verdict clock _
    exact .inl hl
  · intro link clock _ _
    exact .inr rfl
  · intro link clock verdict _ _
    exact .inl hl

theorem replayFresh_attempts : (s.replayFresh net settings p).attempts = s.attempts + 1 := by
  refine replayFresh_cases ?_ ?_ ?_ ?_
  all_goals
    intros
    rfl

theorem IsFresh.replay (h : s.IsFresh) : (replay net settings total s p).IsFresh := by
  rcases h with hl | hl
  · cases hc : s.clock.isCancelled with
    | true => rw [replay_of_cancelled (by rw [hl]; rfl) hc]; exact .inl hl
    | false => rw [replay_of_fresh hl hc]; exact replayFresh_isFresh hl
  · rw [replay_of_stuck hl]
    exact .inr hl

theorem IsFresh.foldl_replay (ps : List Payload) (h : s.IsFresh) :
    (ps.foldl (State.replay net settings total) s).IsFresh := by
  induction ps generalizing s with
  | nil => exact h
  | cons p ps ih => exact ih h.replay

theorem start_line_of_fresh (net : Network) (hf : settings.freshConnections = true) (total : Nat)
    (cancelAt : Option Nat) : (State.start net settings total cancelAt).line = .fresh := by
  simp [start, hf]

theorem after_isFresh (net : Network) (hf : settings.freshConnections = true)
    (total : Nat) (ps : List Payload) : (State.after net settings total none ps).IsFresh :=
  IsFresh.foldl_replay ps (.inl (start_line_of_fresh net hf total none))

/-- What a run does with a payload behind others is what it does with it at the beginning. -/
theorem replay_behind (h : net.IsUnbegun) (first : State) (hs : s.IsFresh) :
    replay net settings total (s.behind first) p =
      (replay (net.behind first.attempts) settings count s p).behind first := by
  have hcan : (s.behind first).clock.isCancelled = s.clock.isCancelled :=
    s.clock.isCancelled_shift first.clock.now
  rcases hs with hl | hl
  · have hl' : (s.behind first).line = .fresh := hl
    cases hc : s.clock.isCancelled with
    | true =>
      rw [replay_of_cancelled (by rw [hl]; rfl) hc,
        replay_of_cancelled (by rw [hl']; rfl) (hcan.trans hc)]
      exact behind_record s first s.clock _
    | false =>
      rw [replay_of_fresh hl hc, replay_of_fresh hl' (hcan.trans hc)]
      exact replayFresh_behind h s first p
  · rw [replay_of_stuck hl, replay_of_stuck (s := s.behind first) hl]

theorem foldl_replay_behind (h : net.IsUnbegun) (settings : Settings) (total count : Nat)
    (first : State) (ps : List Payload) (hs : s.IsFresh) :
    ps.foldl (replay net settings total) (s.behind first) =
      (ps.foldl (replay (net.behind first.attempts) settings count) s).behind first := by
  induction ps generalizing s with
  | nil => rfl
  | cons p ps ih =>
    rw [List.foldl_cons, List.foldl_cons, replay_behind h first hs]
    exact ih hs.replay

theorem foldl_replay_attempts (hnet : net.IsCalm) (ps : List Payload) (h : s.IsCalm)
    (hl : s.line = .fresh)
    (hend : (ps.foldl (replay net settings total) s).line ≠ .stuck) :
    (ps.foldl (replay net settings total) s).attempts = s.attempts + ps.length := by
  induction ps generalizing s with
  | nil => rfl
  | cons p ps ih =>
    rw [List.foldl_cons] at hend ⊢
    have hreplay : State.replay net settings total s p = s.replayFresh net settings p :=
      replay_of_fresh hl h.isCancelled_eq
    have hfresh : (s.replayFresh net settings p).IsFresh := replayFresh_isFresh hl
    rcases hfresh with hnext | hnext
    · rw [ih (replay_isCalm hnet h) (by rw [hreplay, hnext]) hend, hreplay, replayFresh_attempts,
        List.length_cons]
      omega
    · rw [foldl_replay_of_stuck ps _ (by rw [hreplay, hnext]), hreplay] at hend
      exact absurd hnext hend

theorem start_behind (net : Network) (hf : settings.freshConnections = true) (total : Nat)
    (hl : first.line = .fresh) (hc : first.clock.cancelAt = none) :
    (State.start net settings total none).behind first = first := by
  obtain ⟨⟨now, cancelAt⟩, line, attempts, links, captures, log⟩ := first
  cases hl
  cases hc
  simp [start, behind, hf, Clock.shift]

theorem foldl_replay_eq_behind (h : net.IsUnbegun) (hf : settings.freshConnections = true)
    (total : Nat) (first : State) (hl : first.line = .fresh) (hc : first.clock.cancelAt = none)
    (ps : List Payload) :
    ps.foldl (replay net settings total) first =
      (State.after (net.behind first.attempts) settings ps.length none ps).behind first :=
  calc ps.foldl (replay net settings total) first
    _ = ps.foldl (replay net settings total)
        ((start (net.behind first.attempts) settings ps.length none).behind first) := by
      rw [start_behind _ hf _ hl hc]
    _ = (State.after (net.behind first.attempts) settings ps.length none ps).behind first :=
      foldl_replay_behind h settings total ps.length first ps
        (.inl (start_line_of_fresh _ hf ps.length none))

theorem foldl_replay_start (h : net.IsUnbegun) (hf : settings.freshConnections = true)
    (total : Nat) (ps : List Payload) :
    ps.foldl (replay net settings total) (start net settings total none) =
      (State.after net settings ps.length none ps).behind (start net settings total none) := by
  have hbegin := foldl_replay_eq_behind h hf total _ (start_line_of_fresh net hf total none) rfl
    ps
  have hzero : net.behind (start net settings total none).attempts = net := net.behind_zero
  rwa [hzero] at hbegin

theorem foldl_replay_isCalm (hnet : net.IsCalm) (ps : List Payload) (h : s.IsCalm) :
    (ps.foldl (replay net settings total) s).IsCalm := by
  induction ps generalizing s with
  | nil => exact h
  | cons p ps ih => exact ih (replay_isCalm hnet h)

/-- A run over two lists of payloads is a run over the first and then, if that ends, a run over the
second. -/
theorem after_append (hnet : net.IsCalm) (h : net.IsUnbegun)
    (hf : settings.freshConnections = true) (ps qs : List Payload)
    (hend : (State.after net settings ps.length none ps).line ≠ .stuck) :
    State.after net settings (ps ++ qs).length none (ps ++ qs) =
      (State.after (net.behind ps.length) settings qs.length none qs).behind
        ((State.after net settings ps.length none ps).behind
          (start net settings (ps ++ qs).length none)) := by
  have hstart := start_line_of_fresh net hf ps.length none
  have hcalm : (State.after net settings ps.length none ps).IsCalm :=
    foldl_replay_isCalm hnet ps (start_isCalm net settings ps.length)
  have hfresh := after_isFresh net hf ps.length ps
  have hattempts : (State.after net settings ps.length none ps).attempts = ps.length :=
    (foldl_replay_attempts hnet ps (start_isCalm net settings ps.length) hstart hend).trans
      (Nat.zero_add _)
  unfold State.after at hend hcalm hfresh hattempts ⊢
  rw [List.foldl_append, foldl_replay_start h hf]
  unfold State.after
  generalize ps.foldl _ _ = first at *
  have hattempts' : (first.behind (start net settings (ps ++ qs).length none)).attempts =
      ps.length := (Nat.zero_add _).trans hattempts
  have hcancelAt : (first.behind (start net settings (ps ++ qs).length none)).clock.cancelAt =
      none := by simp [behind, Clock.shift, hcalm.cancelAt_eq]
  have hbegin := foldl_replay_eq_behind h hf (ps ++ qs).length
    (first.behind (start net settings (ps ++ qs).length none)) (hfresh.resolve_right hend)
    hcancelAt qs
  rwa [hattempts'] at hbegin

theorem replayFresh_congr {net' : Network} (htarget : net.target = net'.target)
    (hpeer : net.peer s.attempts = net'.peer s.attempts) :
    s.replayFresh net settings p = s.replayFresh net' settings p := by
  have hdial : net.dial s.attempts settings.connectTimeout s.clock =
      net'.dial s.attempts settings.connectTimeout s.clock := by
    simp only [Network.dial, htarget, hpeer]
  unfold replayFresh
  rw [hdial]

theorem after_singleton (net : Network) (hf : settings.freshConnections = true) (k : Nat)
    (p : Payload) :
    State.after (net.behind k) settings 1 none [p] =
      State.after ⟨net.target, [net.peer k]⟩ settings 1 none [p] := by
  have hl := start_line_of_fresh net hf 1 none
  have hstart : start (net.behind k) settings 1 none = start ⟨net.target, [net.peer k]⟩ settings 1
      none := rfl
  unfold State.after
  rw [List.foldl_cons, List.foldl_cons, hstart, replay_of_fresh (by exact hl) rfl,
    replay_of_fresh (by exact hl) rfl]
  exact replayFresh_congr rfl (net.peer_behind k 0)

theorem after_append_of_stuck (h : net.IsUnbegun) (hf : settings.freshConnections = true)
    (ps qs : List Payload) (hstuck : (State.after net settings ps.length none ps).line = .stuck) :
    (State.after net settings (ps ++ qs).length none (ps ++ qs)).line = .stuck := by
  unfold State.after at hstuck ⊢
  rw [List.foldl_append, foldl_replay_start h hf, foldl_replay_of_stuck qs _ (by exact hstuck)]
  exact hstuck

theorem IsFresh.account_eq (h : s.IsFresh) :
    s.account = ⟨s.captures, s.attempts, s.links, s.clock.now, s.log⟩ :=
  account_of_not_shared fun link hl => by rcases h with h | h <;> rw [h] at hl <;> cases hl

theorem exists_alone (hnet : net.IsCalm) (h : net.IsUnbegun)
    (hf : settings.freshConnections = true) (done rest : List Payload) (p : Payload)
    (hend : (State.after net settings (done ++ p :: rest).length none (done ++ p :: rest)).line ≠
      .stuck) :
    ∃ alone d, run ⟨net.target, [net.peer done.length]⟩ settings [p] = some alone ∧
      alone.captures = [d] ∧
      (State.after net settings (done ++ p :: rest).length none
        (done ++ p :: rest)).captures[done.length]? = some d := by
  have hdone : (State.after net settings done.length none done).line ≠ .stuck :=
    fun hstuck => hend (after_append_of_stuck h hf done (p :: rest) hstuck)
  have hjoin := after_append hnet h hf done (p :: rest) hdone
  rw [hjoin] at hend
  have hfirst : (State.after (net.behind done.length) settings 1 none [p]).line ≠ .stuck :=
    fun hstuck => hend (after_append_of_stuck (h.behind done.length) hf [p] rest hstuck)
  have hrest : State.after (net.behind done.length) settings (p :: rest).length none
      (p :: rest) = _ :=
    after_append (hnet.behind done.length) (h.behind done.length) hf [p] rest hfirst
  obtain ⟨d, hd⟩ := List.length_eq_one_iff.1 (length_captures_after hfirst)
  have hcaptures : (State.after net settings (done ++ p :: rest).length none
      (done ++ p :: rest)).captures = (State.after net settings done.length none done).captures ++
        d :: (State.after ((net.behind done.length).behind 1) settings rest.length none
          rest).captures := by
    rw [hjoin, hrest]
    change _ ++ _ ++ (_ ++ (State.after (net.behind done.length) settings 1 none [p]).captures ++ _)
      = _
    rw [hd]
    rfl
  have hlength := length_captures_after hdone
  rw [after_singleton net hf] at hfirst hd
  refine ⟨_, d, run_eq_some_iff.2 ⟨hfirst, rfl⟩, hd, ?_⟩
  rw [hcaptures, List.getElem?_append_right (Nat.le_of_eq hlength), hlength, Nat.sub_self]
  rfl

end State

/-- `c` accounts for the run of `a` and then the run of `b`. -/
structure Joined (a b c : Account) : Prop where
  captures_eq : c.captures = a.captures ++ b.captures
  attempts_eq : c.attempts = a.attempts + b.attempts
  observed_eq : c.links.map Link.observed = a.links.map Link.observed ++ b.links.map Link.observed
  duration_eq : c.duration = a.duration + b.duration

theorem State.joined_behind {net : Network} {settings : Settings} {total : Nat} {s first : State}
    (hs : s.IsFresh) (hfirst : first.IsFresh) :
    Joined first.account s.account
      (s.behind (first.behind (State.start net settings total none))).account := by
  have hjoined : (s.behind (first.behind (State.start net settings total none))).IsFresh := hs
  rw [hs.account_eq, hfirst.account_eq, hjoined.account_eq]
  constructor
  · exact congrArg (· ++ s.captures) (List.nil_append first.captures)
  · exact congrArg (· + s.attempts) (Nat.zero_add first.attempts)
  · dsimp only [behind, start]
    rw [List.nil_append, List.map_append, Link.map_observed_shift, Link.map_observed_shift]
  · exact Nat.add_comm _ _

/-- With a connection for each payload, a run over two lists of payloads is a run over the first
and then a run over the second against the peers that are left. Each payload has the capture that
it has alone. -/
theorem run_fresh_append (net : Network) (settings : Settings) (ps qs : List Payload)
    (a b : Account) (hf : settings.freshConnections = true) (hnet : net.IsCalm)
    (h : net.IsUnbegun) (ha : run net settings ps = some a)
    (hb : run (net.behind ps.length) settings qs = some b) :
    ∃ c, run net settings (ps ++ qs) = some c ∧ Joined a b c ∧
      ∀ i p, (ps ++ qs)[i]? = some p → ∃ alone d,
        run ⟨net.target, [net.peer i]⟩ settings [p] = some alone ∧ alone.captures = [d] ∧
          c.captures[i]? = some d := by
  obtain ⟨hfirst, rfl⟩ := run_eq_some_iff.1 ha
  obtain ⟨hsecond, rfl⟩ := run_eq_some_iff.1 hb
  have hjoin := State.after_append hnet h hf ps qs hfirst
  have hend : (State.after net settings (ps ++ qs).length none (ps ++ qs)).line ≠ .stuck := by
    rw [hjoin]
    exact hsecond
  refine ⟨_, run_eq_some_iff.2 ⟨hend, rfl⟩, ?_, ?_⟩
  · rw [hjoin]
    exact State.joined_behind (State.after_isFresh _ hf _ _) (State.after_isFresh _ hf _ _)
  · intro i p hp
    obtain ⟨hi, rfl⟩ := List.getElem?_eq_some_iff.1 hp
    have hsplit : (ps ++ qs).take i ++ (ps ++ qs)[i] :: (ps ++ qs).drop (i + 1) = ps ++ qs := by
      rw [List.getElem_cons_drop, List.take_append_drop]
    have hlength : ((ps ++ qs).take i).length = i := List.length_take_of_le (Nat.le_of_lt hi)
    have halone := State.exists_alone hnet h hf ((ps ++ qs).take i) ((ps ++ qs).drop (i + 1))
      (ps ++ qs)[i] (by rwa [hsplit])
    rwa [hsplit, hlength] at halone

/-- The first payload meets a peer that is silent, and the second one a peer that refuses it. -/
theorem run_fresh_append_of_silence_and_refusal :
    ∃ a b c,
      run ⟨"peer", [{ read := [.hang] }, { connect := [.delay 7, .error (.system 111)] }]⟩ {}
        [⟨"a", [65]⟩] = some a ∧
      run (Network.behind ⟨"peer",
        [{ read := [.hang] }, { connect := [.delay 7, .error (.system 111)] }]⟩ 1) {}
        [⟨"b", [66]⟩] = some b ∧
      run ⟨"peer", [{ read := [.hang] }, { connect := [.delay 7, .error (.system 111)] }]⟩ {}
        [⟨"a", [65]⟩, ⟨"b", [66]⟩] = some c ∧
      Joined a b c ∧ a.duration = 2000 ∧ b.duration = 7 := by
  have hcalm : Network.IsCalm ⟨"peer",
      [{ read := [.hang] }, { connect := [.delay 7, .error (.system 111)] }]⟩ := by
    intro script hm
    simp only [List.mem_cons, List.not_mem_nil, or_false] at hm
    rcases hm with rfl | rfl <;> constructor <;> simp
  have hunbegun : Network.IsUnbegun ⟨"peer",
      [{ read := [.hang] }, { connect := [.delay 7, .error (.system 111)] }]⟩ := by
    intro script hm
    simp only [List.mem_cons, List.not_mem_nil, or_false] at hm
    rcases hm with rfl | rfl <;> constructor <;> simp
  have hfirst : (run ⟨"peer", [{ read := [.hang] },
      { connect := [.delay 7, .error (.system 111)] }]⟩ {} [⟨"a", [65]⟩]).map (·.duration) =
        some 2000 := by
    decide +kernel
  have hsecond : (run (Network.behind ⟨"peer", [{ read := [.hang] },
      { connect := [.delay 7, .error (.system 111)] }]⟩ 1) {} [⟨"b", [66]⟩]).map (·.duration) =
        some 7 := by
    decide +kernel
  obtain ⟨a, ha, hda⟩ := Option.map_eq_some_iff.1 hfirst
  obtain ⟨b, hb, hdb⟩ := Option.map_eq_some_iff.1 hsecond
  obtain ⟨c, hc, hjoined, _⟩ := run_fresh_append _ {} [⟨"a", [65]⟩] [⟨"b", [66]⟩] a b rfl hcalm
    hunbegun ha hb
  exact ⟨a, b, c, ha, hb, hc, hjoined, hda, hdb⟩

end Replay

end WireReplay
