import WireReplay.Proofs.Chunks
import WireReplay.Proofs.Isolation
import WireReplay.Proofs.RelayMoments

/-!
# Inactivity while a reply is captured

The read timeout bounds each pause of a reply and not the reply as a whole. So a capture is told by
the pauses alone: if one of them is longer than the timeout, the capture ends within the first such
pause, with the chunks in front of it; if none is, it ends with the reply.
-/

namespace WireReplay

/-- How a peer ends its reply, some time behind the last chunk. -/
inductive Finale
  | closes (delay : Nat)
  | breaks (delay : Nat) (fault : Fault)
  | ceases
  | hangs
deriving DecidableEq, Repr

namespace Finale

def steps : Finale → List (Step Delivery)
  | closes delay => [.delay delay, .act .eof]
  | breaks delay fault => [.delay delay, .error fault]
  | ceases => []
  | hangs => [.hang]

def pause : Finale → Option Nat
  | closes delay => some delay
  | breaks delay _ => some delay
  | ceases => none
  | hangs => none

def outcome : Finale → Outcome
  | closes _ => .ok
  | breaks _ _ => .ioError
  | ceases => .timeout
  | hangs => .timeout

def error : Finale → Option String
  | breaks _ fault => some s!"read failed: {fault.describe}"
  | _ => none

end Finale

structure Hearing where
  received : Bytes
  time : Nat
  outcome : Outcome
  error : Option String
deriving DecidableEq, Repr

namespace Hearing

def pauses (chunks : List Chunk) (finale : Finale) : List (Option Nat) :=
  chunks.map (fun c => some c.delay) ++ [finale.pause]

/-- A pause is longer than a reader waits. It is not if the two are equal. -/
def outlasts (patience : Nat) (pause : Option Nat) : Bool := pause.all (patience < ·)

/-- What a reader that waits for so many milliseconds gets of a reply. -/
def ofReply (patience : Nat) (chunks : List Chunk) (finale : Finale) : Hearing :=
  match (pauses chunks finale).findIdx? (outlasts patience) with
  | some j =>
    ⟨Chunk.all (chunks.take j), Chunk.totalDelay (chunks.take j) + patience, .timeout, none⟩
  | none =>
    ⟨Chunk.all chunks, Chunk.totalDelay chunks + finale.pause.getD 0, finale.outcome, finale.error⟩

def behind (c : Chunk) (h : Hearing) : Hearing :=
  { h with received := c.bytes ++ h.received, time := c.delay + h.time }

variable {patience : Nat} {c : Chunk}

theorem ofReply_nil_of_outlasts {finale : Finale} (h : outlasts patience finale.pause = true) :
    ofReply patience [] finale = ⟨[], patience, .timeout, none⟩ := by
  simp [ofReply, pauses, h, Chunk.all, Chunk.totalDelay]

theorem ofReply_nil_of_not_outlasts {finale : Finale}
    (h : outlasts patience finale.pause = false) :
    ofReply patience [] finale =
      ⟨[], finale.pause.getD 0, finale.outcome, finale.error⟩ := by
  simp [ofReply, pauses, h, Chunk.all, Chunk.totalDelay]

theorem ofReply_cons_of_lt (h : patience < c.delay) (chunks : List Chunk) (finale : Finale) :
    ofReply patience (c :: chunks) finale = ⟨[], patience, .timeout, none⟩ := by
  simp [ofReply, pauses, List.findIdx?_cons, outlasts, h, Chunk.all, Chunk.totalDelay]

theorem ofReply_cons_of_le (h : c.delay ≤ patience) (chunks : List Chunk) (finale : Finale) :
    ofReply patience (c :: chunks) finale = (ofReply patience chunks finale).behind c := by
  have hfind : (pauses (c :: chunks) finale).findIdx? (outlasts patience) =
      ((pauses chunks finale).findIdx? (outlasts patience)).map (· + 1) := by
    rw [pauses, List.map_cons, List.cons_append, List.findIdx?_cons, if_neg]
    · rfl
    · simp [outlasts, h]
  rw [ofReply, hfind, ofReply]
  cases (pauses chunks finale).findIdx? (outlasts patience) with
  | none => simp [behind, Chunk.all, Chunk.totalDelay, Nat.add_assoc]
  | some j => simp [behind, Chunk.all, Chunk.totalDelay, Nat.add_assoc]

end Hearing

theorem Clock.wait_of_late {ms delay : Nat} (h : ms < delay) (now : Nat) (cancellable : Bool) :
    Clock.wait ⟨now, none⟩ ⟨some (now + ms), cancellable⟩ (some (now + delay)) =
      (.timedOut, ⟨now + ms, none⟩) := by
  have hheeded : Clock.heeded ⟨now, none⟩ ⟨some (now + ms), cancellable⟩ = none := ite_self none
  have hready : ¬ now + delay ≤ now := by omega
  have hlate : ¬ now + delay ≤ now + ms := by omega
  unfold wait
  rw [hheeded]
  by_cases hms : ms = 0
  · subst hms
    simp only [Option.any_some, hready, decide_false, Bool.false_eq_true, if_false, Nat.add_zero,
      Nat.le_refl, decide_true, if_true]
  · have hopen : ¬ now + ms ≤ now := by omega
    simp only [Option.any_some, hready, decide_false, Bool.false_eq_true, if_false, hopen,
      Option.any_none, hlate, advance, Nat.max_eq_right (Nat.le_add_right now ms)]

namespace Link

variable {link : Link} {timeout : Duration} {limit : Limit} {now ms delay : Nat}
  {rest : List (Step Delivery)}

theorem deliver_of_delay (hread : link.script.read = .delay delay :: rest)
    (ha : limit.Allows now delay) :
    link.deliver limit ⟨now, none⟩ = (link.withRead rest).deliver limit ⟨now + delay, none⟩ := by
  rw [deliver, hread, Call.run, Call.sleep_of_allows _ _ _ ha]
  rfl

theorem capture_of_timedOut {after : Link} (received : Bytes) (ht : timeout.IsMillis ms)
    (h : link.deliver ⟨some (now + ms), true⟩ ⟨now, none⟩ =
      ⟨.timedOut, ⟨now + ms, none⟩, after⟩) :
    link.capture timeout ⟨now, none⟩ received =
      ⟨some .silent, received, ⟨now + ms, none⟩, after⟩ := by
  rw [← ht.deadline now] at h
  rw [capture_of_not_delivered received rfl (by rw [h]; simp), h]
  rfl

theorem capture_of_late (received : Bytes) (ht : timeout.IsMillis ms) (hlate : ms < delay)
    (hread : link.script.read = .delay delay :: rest) :
    link.capture timeout ⟨now, none⟩ received =
      ⟨some .silent, received, ⟨now + ms, none⟩,
        link.withRead (.notBefore (now + delay) :: rest)⟩ := by
  apply capture_of_timedOut received ht
  rw [deliver, hread, Call.run, Call.sleep, Clock.wait_of_late hlate]
  rfl

theorem capture_of_hang (received : Bytes) (ht : timeout.IsMillis ms)
    (hread : link.script.read = .hang :: rest) :
    link.capture timeout ⟨now, none⟩ received =
      ⟨some .silent, received, ⟨now + ms, none⟩, link⟩ := by
  apply capture_of_timedOut received ht
  rw [deliver, hread, Call.run, Call.block_of_silence]
  exact congrArg _ (withRead_eq_self hread)

/-- The turn began at `now`, behind what was `received` before, and ended as the hearing says. -/
def Hears (turn : Turn) (now : Nat) (received : Bytes) (h : Hearing) : Prop :=
  ∃ verdict after, verdict.outcome = h.outcome ∧ verdict.error = h.error ∧
    turn = ⟨some verdict, received ++ h.received, ⟨now + h.time, none⟩, after⟩

theorem hears_silence (received : Bytes) (after : Link) :
    Hears ⟨some .silent, received, ⟨now + ms, none⟩, after⟩ now received
      ⟨[], ms, .timeout, none⟩ :=
  ⟨.silent, after, rfl, rfl, by rw [List.append_nil]⟩

theorem Hears.behind {turn : Turn} {received : Bytes} {c : Chunk} {h : Hearing}
    (hturn : Hears turn (now + c.delay) (received ++ c.bytes) h) :
    Hears turn now received (h.behind c) := by
  obtain ⟨verdict, after, houtcome, herror, rfl⟩ := hturn
  refine ⟨verdict, after, houtcome, herror, ?_⟩
  rw [List.append_assoc, Nat.add_assoc]
  rfl

theorem capture_of_finale (finale : Finale) (received : Bytes) (ht : timeout.IsMillis ms)
    (hread : link.script.read = finale.steps) :
    Hears (link.capture timeout ⟨now, none⟩ received) now received
      (Hearing.ofReply ms [] finale) := by
  cases hlate : Hearing.outlasts ms finale.pause with
  | true =>
    rw [Hearing.ofReply_nil_of_outlasts hlate]
    cases finale with
    | closes | breaks =>
      rw [capture_of_late received ht (of_decide_eq_true hlate) hread]
      exact hears_silence received _
    | ceases =>
      rw [capture_of_isMute received (.inl hread) ht]
      exact hears_silence received link
    | hangs =>
      rw [capture_of_hang received ht hread]
      exact hears_silence received link
  | false =>
    rw [Hearing.ofReply_nil_of_not_outlasts hlate]
    have hallows {delay : Nat} (hle : Hearing.outlasts ms (some delay) = false) :
        Limit.Allows ⟨timeout.deadline now, true⟩ now delay :=
      Duration.allows (by simpa [Hearing.outlasts, ht.eq] using hle) now true
    cases finale with
    | closes delay =>
      have hdelivered : link.deliver ⟨timeout.deadline now, true⟩ ⟨now, none⟩ =
          ⟨.done [], ⟨now + delay, none⟩, link.withRead [.act .eof]⟩ :=
        deliver_of_delay hread (hallows hlate)
      rw [capture_of_not_delivered received rfl (by rw [hdelivered]; simp), hdelivered]
      exact ⟨.closed, _, rfl, rfl, by rw [List.append_nil]; rfl⟩
    | breaks delay fault =>
      have hfailed : link.deliver ⟨timeout.deadline now, true⟩ ⟨now, none⟩ =
          ⟨.failed fault, ⟨now + delay, none⟩, link.withRead []⟩ :=
        deliver_of_delay hread (hallows hlate)
      rw [capture_of_not_delivered received rfl (by rw [hfailed]; simp), hfailed]
      exact ⟨.readFailed fault, _, rfl, rfl, by rw [List.append_nil]; rfl⟩
    | ceases | hangs => cases hlate

/-- A capture hears of a reply what a reader does that waits for its timeout at each pause. -/
theorem capture_of_reply {chunks : List Chunk} {finale : Finale} (received : Bytes)
    (ht : timeout.IsMillis ms) (hread : link.script.read = Chunk.steps chunks ++ finale.steps)
    (hne : ∀ c ∈ chunks, c.bytes ≠ []) :
    Hears (link.capture timeout ⟨now, none⟩ received) now received
      (Hearing.ofReply ms chunks finale) := by
  induction chunks generalizing link now received with
  | nil => exact capture_of_finale finale received ht hread
  | cons c chunks ih =>
    obtain ⟨hc, hchunks⟩ := List.forall_mem_cons.1 hne
    have hfirst : link.script.read =
        .delay c.delay :: .act (.data c.bytes) :: (Chunk.steps chunks ++ finale.steps) := hread
    by_cases hlate : ms < c.delay
    · rw [Hearing.ofReply_cons_of_lt hlate, capture_of_late received ht hlate hfirst]
      exact hears_silence received _
    · have hle : c.delay ≤ ms := Nat.not_lt.1 hlate
      have hmillis : c.delay ≤ timeout.millis := by rwa [ht.eq, Duration.millis_ofMillis]
      have hdelivered := deliver_of_chunk hfirst (Duration.allows hmillis now true)
      rw [Hearing.ofReply_cons_of_le hle, capture_of_delivered received rfl rfl hc hdelivered]
      exact (ih _ rfl hchunks).behind

end Link

namespace Replay

structure TakesAtOnce (net : Network) (settings : Settings) (data : Bytes) : Prop where
  dial : net.dial 0 settings.connectTimeout {} = (.opened (net.link 0), {})
  send : ((net.link 0).sendAll data settings settings.halfClose {}).ending = .done ()
  clock : ((net.link 0).sendAll data settings settings.halfClose {}).clock = {}

theorem turnFresh_of_takesAtOnce {net : Network} {settings : Settings} {p : Payload}
    {chunks : List Chunk} {finale : Finale} {ms : Nat} (h : TakesAtOnce net settings p.bytes)
    (ht : settings.readTimeout.IsMillis ms)
    (hread : (net.peer 0).read = Chunk.steps chunks ++ finale.steps)
    (hne : ∀ c ∈ chunks, c.bytes ≠ []) :
    Link.Hears (State.turnFresh (net.link 0) settings p {}) 0 []
      (Hearing.ofReply ms chunks finale) := by
  rw [State.turnFresh, Link.exchange_of_sent rfl h.send, h.clock]
  refine Link.capture_of_reply [] ht ?_ hne
  rw [← hread]
  exact Link.send_script_read (net.link 0) p.bytes settings.halfClose _ {}

/-- The read timeout is one for each pause. With its own connection a payload gets all chunks of
its reply in front of the first pause that is longer, and times out within that pause; if none is
longer, it gets the whole reply, and its outcome is that of the reply's end. It takes all pauses
that it waited for to their end, and one timeout if it gave one up. -/
theorem run_hears (net : Network) (settings : Settings) (p : Payload) (chunks : List Chunk)
    (finale : Finale) (ms : Nat) (hfresh : settings.freshConnections = true)
    (ht : settings.readTimeout.IsMillis ms) (hnet : TakesAtOnce net settings p.bytes)
    (hread : (net.peer 0).read = Chunk.steps chunks ++ finale.steps)
    (hne : ∀ c ∈ chunks, c.bytes ≠ []) :
    ∃ account, run net settings [p] = some account ∧
      account.captures = [{
        name := p.name
        sent := p.bytes
        received := (Hearing.ofReply ms chunks finale).received
        outcome := (Hearing.ofReply ms chunks finale).outcome
        error := (Hearing.ofReply ms chunks finale).error
        elapsed := .ofMillis (Hearing.ofReply ms chunks finale).time }] ∧
      account.duration = (Hearing.ofReply ms chunks finale).time := by
  obtain ⟨verdict, after, houtcome, herror, hturn⟩ := turnFresh_of_takesAtOnce hnet ht hread hne
  have hline := State.start_line_of_fresh net hfresh 1 none
  have hafter : State.after net settings 1 none [p] =
      (State.start net settings 1 none).replayFresh net settings p :=
    State.replay_of_fresh hline rfl
  rw [State.replayFresh_of_verdict (by exact hnet.dial) (congrArg Turn.verdict hturn), hturn]
    at hafter
  have hfreshLine : (State.after net settings 1 none [p]).line = .fresh := by
    rw [hafter]
    exact hline
  have haccount := State.account_of_not_shared (s := State.after net settings 1 none [p])
    fun link hl => Line.noConfusion (hfreshLine.symm.trans hl)
  refine ⟨_, run_eq_some_iff.2 ⟨fun hl => Line.noConfusion (hfreshLine.symm.trans hl), rfl⟩, ?_⟩
  rw [List.length_singleton, haccount, hafter, ← houtcome, ← herror]
  dsimp only [State.record, State.start, Payload.captured, List.nil_append]
  rw [Nat.zero_add, Nat.sub_zero]
  exact ⟨rfl, rfl⟩

/-- The second chunk, too large for one read, is as late as the timeout allows; the end is later. -/
theorem run_hears_of_late_end :
    ∃ account,
      run ⟨"peer", [{ read := [.delay 7, .act (.data [1]), .delay 20,
          .act (.data (List.replicate 9000 2)), .delay 21, .act .eof] }]⟩
        { readTimeout := .ofMillis 20 } [⟨"a", [65]⟩] = some account ∧
      account.captures =
        [⟨"a", [65], 1 :: List.replicate 9000 2, .timeout, none, .ofMillis 47⟩] ∧
      account.duration = 47 := by
  have hheard (bytes : Bytes) : Hearing.ofReply 20 [⟨7, [1]⟩, ⟨20, bytes⟩] (.closes 21) =
      ⟨1 :: bytes, 47, .timeout, none⟩ := by
    have hlate : (Hearing.pauses [⟨7, [1]⟩, ⟨20, bytes⟩] (.closes 21)).findIdx?
        (Hearing.outlasts 20) = some 2 := rfl
    simp [Hearing.ofReply, hlate, Chunk.all, Chunk.totalDelay]
  have hmany : List.replicate 9000 (2 : UInt8) ≠ [] :=
    mt (List.replicate_eq_nil_iff 2).1 (by decide)
  have hrun := run_hears ⟨"peer", [{ read := [.delay 7, .act (.data [1]), .delay 20,
      .act (.data (List.replicate 9000 2)), .delay 21, .act .eof] }]⟩
    { readTimeout := .ofMillis 20 } ⟨"a", [65]⟩ [⟨7, [1]⟩, ⟨20, List.replicate 9000 2⟩] (.closes 21)
    20 rfl (Duration.isMillis_ofMillis (by decide)) ⟨rfl, rfl, rfl⟩ rfl
    (List.forall_mem_cons.2 ⟨by decide, List.forall_mem_singleton.2 hmany⟩)
  rwa [hheard] at hrun

end Replay

end WireReplay
