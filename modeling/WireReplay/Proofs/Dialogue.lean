import WireReplay.Proofs.Chunks
import WireReplay.Proofs.ReplaySteps

/-!
# Dialogues on a shared connection

A peer may answer each payload only when it has come whole, and may leave payloads without an
answer. On a shared connection the runner waits for one read timeout behind each reply, and then
sends the next payload. By then the peer waits until that payload has been written too, so the wait
ends in silence, and no part of a reply is taken for one to another payload.
-/

namespace WireReplay

structure Remark where
  payload : Payload
  reply : List Chunk
deriving DecidableEq, Repr

namespace Remark

def allSent (talk : List Remark) : Bytes := talk.flatMap (·.payload.bytes)

/-- What a peer answers that received so many bytes before: each reply when its payload is whole. -/
def dialogue (before : Nat) : List Remark → List (Step Delivery)
  | [] => []
  | r :: talk =>
    .act (.awaitWritten (before + r.payload.bytes.length)) ::
      (Chunk.steps r.reply ++ dialogue (before + r.payload.bytes.length) talk)

def time (silence : Nat) (r : Remark) : Nat := Chunk.totalDelay r.reply + silence

theorem sum_time (silence : Nat) (talk : List Remark) :
    (talk.map (·.time silence)).sum =
      (talk.map fun r => Chunk.totalDelay r.reply).sum + talk.length * silence := by
  induction talk with
  | nil => simp
  | cons r talk ih =>
    rw [List.map_cons, List.sum_cons, ih, List.map_cons, List.sum_cons, List.length_cons,
      Nat.succ_mul, time]
    omega

/-- The capture of a payload to which the whole reply came, and then nothing for `silence`. -/
def capture (silence : Nat) (r : Remark) : Capture where
  name := r.payload.name
  sent := r.payload.bytes
  received := Chunk.all r.reply
  outcome := .timeout
  error := none
  elapsed := .ofMillis (r.time silence)

end Remark

/-- The peer, to which so many bytes were sent before, takes whatever else is sent to it at once,
and answers by this dialogue. -/
structure PeerScript.Converses (script : PeerScript) (before : Nat) (talk : List Remark) :
    Prop where
  connect : Granting (fun _ => True) 0 script.connect
  write : Granting (0 < ·) 0 script.write
  flush : Granting (fun _ => True) 0 script.flush
  read : script.read = Remark.dialogue before talk

namespace Link

def Converses (link : Link) (talk : List Remark) : Prop :=
  link.script.Converses link.written.length talk

variable {link : Link} {r : Remark} {talk : List Remark} {settings : Replay.Settings}
  {silence : Nat}

theorem capture_of_answered {timeout : Duration} {now : Nat}
    (hread : link.script.read = .act (.awaitWritten link.written.length) ::
      (Chunk.steps r.reply ++ Remark.dialogue link.written.length talk))
    (hne : ∀ later ∈ talk, later.payload.bytes ≠ [])
    (hchunks : ∀ c ∈ r.reply, c.InTime timeout) (ht : timeout.IsMillis silence) :
    link.capture timeout ⟨now, none⟩ [] =
      ⟨some .silent, Chunk.all r.reply, ⟨now + r.time silence, none⟩,
        (link.withRead (Remark.dialogue link.written.length talk)).took (Chunk.all r.reply)⟩ := by
  have hmute : ((link.withRead (Remark.dialogue link.written.length talk)).took
      (Chunk.all r.reply)).IsMute := by
    cases talk with
    | nil => exact .inl rfl
    | cons next talk =>
      refine .inr ⟨_, _, rfl, Nat.lt_add_of_pos_right ?_⟩
      exact List.length_pos_iff.2 (hne next List.mem_cons_self)
  rw [capture_of_awaited [] rfl hread le_rfl, capture_of_chunks _ now [] rfl hchunks]
  refine (capture_of_isMute _ hmute ht).trans ?_
  rw [List.nil_append, Nat.add_assoc, Remark.time]

theorem exchange_of_converses (now : Nat) (h : link.Converses (r :: talk))
    (hne : ∀ later ∈ talk, later.payload.bytes ≠ [])
    (hchunks : ∀ c ∈ r.reply, c.InTime settings.readTimeout)
    (ht : settings.readTimeout.IsMillis silence) :
    ∃ after : Link,
      link.exchange r.payload.bytes settings false ⟨now, none⟩ =
        ⟨some .silent, Chunk.all r.reply, ⟨now + r.time silence, none⟩, after⟩ ∧
      after.written = link.written ++ r.payload.bytes ∧ after.Converses talk := by
  obtain ⟨spent, saved, write, flush, shutdown, hturn, hwrite, hflush, hsum⟩ :=
    exchange_of_granting link r.payload.bytes false now h.write h.flush
      (fun hd => Bool.noConfusion hd) (Nat.zero_le settings.writeTimeout.millis)
  obtain ⟨rfl, rfl⟩ := Nat.add_eq_zero_iff.1 hsum
  have hread : (link.sent r.payload.bytes false write flush shutdown).script.read =
      .act (.awaitWritten (link.written ++ r.payload.bytes).length) ::
        (Chunk.steps r.reply ++
          Remark.dialogue (link.written ++ r.payload.bytes).length talk) := by
    rw [List.length_append]
    exact h.read
  exact ⟨_, hturn.trans (capture_of_answered hread hne hchunks ht), rfl, h.connect, hwrite,
    hflush, rfl⟩

end Link

namespace Replay

variable {settings : Settings} {silence : Nat} {s : State} {link : Link} {r : Remark}
  {talk : List Remark}

namespace State

def answered (s : State) (silence : Nat) (r : Remark) (link : Link) : State :=
  { s.record ⟨s.clock.now + r.time silence, none⟩ (r.capture silence) with line := .shared link }

theorem replayShared_of_converses (net : Network) (total : Nat) (hc : s.clock.cancelAt = none)
    (h : link.Converses (r :: talk)) (hne : ∀ later ∈ talk, later.payload.bytes ≠ [])
    (hchunks : ∀ c ∈ r.reply, c.InTime settings.readTimeout)
    (ht : settings.readTimeout.IsMillis silence) :
    ∃ after : Link,
      s.replayShared net settings total link s.clock.now r.payload = s.answered silence r after ∧
      after.written = link.written ++ r.payload.bytes ∧ after.Converses talk := by
  obtain ⟨⟨now, cancelAt⟩, line, attempts, links, captures, log⟩ := s
  cases hc
  obtain ⟨after, hturn, hwritten, hafter⟩ := Link.exchange_of_converses now h hne hchunks ht
  have hturned : turnShared link settings r.payload ⟨now, none⟩ = _ := hturn
  refine ⟨after, ?_, hwritten, hafter⟩
  rw [replayShared_of_silent rfl (by rw [hturned])]
  dsimp only
  rw [hturned, Nat.add_sub_cancel_left]
  rfl

theorem foldl_replay_of_converses (net : Network) (total : Nat) (hl : s.line = .shared link)
    (hc : s.clock.cancelAt = none) (h : link.Converses talk)
    (hne : ∀ r ∈ talk.tail, r.payload.bytes ≠ [])
    (hchunks : ∀ r ∈ talk, ∀ c ∈ r.reply, c.InTime settings.readTimeout)
    (ht : settings.readTimeout.IsMillis silence) :
    ∃ after : Link,
      (talk.map (·.payload)).foldl (replay net settings total) s =
        { s with
          clock := ⟨s.clock.now + (talk.map (·.time silence)).sum, none⟩
          line := .shared after
          captures := s.captures ++ talk.map (·.capture silence) } ∧
      after.written = link.written ++ Remark.allSent talk := by
  induction talk generalizing s link with
  | nil =>
    obtain ⟨⟨now, cancelAt⟩, line, attempts, links, captures, log⟩ := s
    cases hc
    cases hl
    exact ⟨link, by simp, (List.append_nil _).symm⟩
  | cons r talk ih =>
    obtain ⟨hr, htalk⟩ := List.forall_mem_cons.1 hchunks
    obtain ⟨next, hstep, hwritten, hnext⟩ := replayShared_of_converses net total hc h hne hr ht
    obtain ⟨after, hrun, hall⟩ := ih (s := s.answered silence r next) rfl rfl hnext
      (fun later hm => hne later (List.mem_of_mem_tail hm)) htalk
    refine ⟨after, ?_, ?_⟩
    · rw [List.map_cons, List.foldl_cons, replay_of_shared hl, hstep, hrun]
      simp [answered, record, Nat.add_assoc]
    · rw [hall, hwritten, List.append_assoc]
      rfl

def connected (s : State) (clock : Clock) (link : Link) : State :=
  { s with attempts := s.attempts + 1, clock, line := .shared link }

theorem replay_of_connected {net : Network} {total : Nat} {p : Payload} {clock : Clock}
    (hl : s.line = .unopened) (hc : s.clock.isCancelled = false)
    (hd : net.dial s.attempts settings.connectTimeout s.clock = (.opened link, clock))
    (hnow : clock.now = s.clock.now) :
    replay net settings total s p = replay net settings total (s.connected clock link) p := by
  rw [replay_of_unopened hl hc, replayFirst_of_opened hd, ← hnow]
  rfl

theorem after_of_converses (net : Network) (total : Nat)
    (hreuse : settings.freshConnections = false) (hpeer : (net.peer 0).Converses 0 talk)
    (htalk : talk ≠ []) (hne : ∀ r ∈ talk.tail, r.payload.bytes ≠ [])
    (hchunks : ∀ r ∈ talk, ∀ c ∈ r.reply, c.InTime settings.readTimeout)
    (ht : settings.readTimeout.IsMillis silence) :
    ∃ after : Link,
      State.after net settings total none (talk.map (·.payload)) =
        { start net settings total none with
          clock := ⟨(talk.map (·.time silence)).sum, none⟩
          line := .shared after
          attempts := 1
          captures := talk.map (·.capture silence) } ∧
      after.written = Remark.allSent talk := by
  obtain ⟨r, talk, rfl⟩ := List.exists_cons_of_ne_nil htalk
  have hline : (start net settings total none).line = .unopened := by
    simp [start, hreuse]
  obtain ⟨spent, hspent, hdial⟩ :=
    Network.dial_of_granting 0 hpeer.connect (Nat.zero_le settings.connectTimeout.millis)
  obtain rfl : spent = 0 := Nat.le_zero.1 hspent
  have hfirst : replay net settings total (start net settings total none) r.payload = _ :=
    replay_of_connected hline rfl hdial rfl
  have hconverses : (net.link 0).Converses (r :: talk) :=
    ⟨.nil, hpeer.write, hpeer.flush, hpeer.read⟩
  obtain ⟨after, hrun, hwritten⟩ := foldl_replay_of_converses net total
    (s := (start net settings total none).connected {} (net.link 0)) rfl rfl hconverses hne
    hchunks ht
  refine ⟨after, ?_, hwritten⟩
  rw [State.after, List.map_cons, List.foldl_cons, hfirst, ← List.foldl_cons, ← List.map_cons]
  refine hrun.trans ?_
  simp [connected, start]

end State

/-- On a shared connection to a peer that accepts at once and answers each payload when it has come
whole, every payload is captured with its own reply, however the replies are cut and delayed within
a read timeout of whole milliseconds; and the run takes the delays and one such timeout for each
payload. -/
theorem run_dialogue (net : Network) (settings : Settings) (talk : List Remark) (silence : Nat)
    (hreuse : settings.freshConnections = false) (ht : settings.readTimeout.IsMillis silence)
    (hpeer : (net.peer 0).Converses 0 talk) (htalk : talk ≠ [])
    (hne : ∀ r ∈ talk.tail, r.payload.bytes ≠ [])
    (hchunks : ∀ r ∈ talk, ∀ c ∈ r.reply, c.InTime settings.readTimeout) :
    ∃ account link,
      run net settings (talk.map (·.payload)) = some account ∧
        account.captures = talk.map (·.capture silence) ∧
        account.attempts = 1 ∧ account.links = [link] ∧
        link.written = Remark.allSent talk ∧
        account.duration =
          (talk.map fun r => Chunk.totalDelay r.reply).sum + talk.length * silence := by
  obtain ⟨after, hafter, hwritten⟩ := State.after_of_converses net
    (talk.map (·.payload)).length hreuse hpeer htalk hne hchunks ht
  have haccount := State.account_of_shared (congrArg State.line hafter)
  refine ⟨_, after.close, run_eq_some_iff.2 ⟨?_, rfl⟩, ?_⟩
  · rw [hafter]
    simp
  · rw [haccount, hafter]
    refine ⟨rfl, rfl, rfl, hwritten, ?_⟩
    exact Remark.sum_time silence talk

/-- The first reply comes in two chunks, of which the second is as late as the timeout allows; the
second payload is not answered at all, and the third at once. -/
theorem run_dialogue_of_unanswered_payload :
    ∃ account link,
      run ⟨"peer", [{ read := [.act (.awaitWritten 1), .delay 5, .act (.data [1]), .delay 20,
          .act (.data [2, 3]), .act (.awaitWritten 3), .act (.awaitWritten 4), .delay 0,
          .act (.data [4])] }]⟩
        { readTimeout := .ofMillis 20, freshConnections := false }
        [⟨"a", [65]⟩, ⟨"b", [66, 67]⟩, ⟨"c", [68]⟩] = some account ∧
      account.captures =
        [⟨"a", [65], [1, 2, 3], .timeout, none, .ofMillis 45⟩,
          ⟨"b", [66, 67], [], .timeout, none, .ofMillis 20⟩,
          ⟨"c", [68], [4], .timeout, none, .ofMillis 20⟩] ∧
      account.attempts = 1 ∧ account.links = [link] ∧ link.written = [65, 66, 67, 68] ∧
      account.duration = 85 :=
  run_dialogue ⟨"peer", [{ read := [.act (.awaitWritten 1), .delay 5, .act (.data [1]), .delay 20,
      .act (.data [2, 3]), .act (.awaitWritten 3), .act (.awaitWritten 4), .delay 0,
      .act (.data [4])] }]⟩
    { readTimeout := .ofMillis 20, freshConnections := false }
    [⟨⟨"a", [65]⟩, [⟨5, [1]⟩, ⟨20, [2, 3]⟩]⟩, ⟨⟨"b", [66, 67]⟩, []⟩, ⟨⟨"c", [68]⟩, [⟨0, [4]⟩]⟩] 20
    rfl (Duration.isMillis_ofMillis (by decide)) ⟨.nil, .nil, .nil, rfl⟩ (by decide) (by decide)
    (by
      simp only [List.forall_mem_cons, List.not_mem_nil, false_implies, implies_true, and_true,
        true_and]
      refine ⟨⟨?_, ?_⟩, ?_⟩ <;> constructor <;> decide)

end Replay

end WireReplay
