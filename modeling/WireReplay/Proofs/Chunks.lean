import Mathlib.Algebra.GroupWithZero.Nat
import WireReplay.Proofs.Deadlines
import WireReplay.Proofs.Granted

/-!
# Replies in chunks

A peer may reply in chunks, each some time behind the one before. As long as none of them lets the
reader wait for longer than its timeout, a capture takes them all, and then does what it would do
behind them. Where the peer has come to a step that nothing answers, a capture ends in silence.
-/

namespace WireReplay

/-- Some bytes of a reply, and how long the peer keeps the reader waiting for them. -/
structure Chunk where
  delay : Nat
  bytes : Bytes
deriving DecidableEq, Repr

namespace Chunk

def steps (chunks : List Chunk) : List (Step Delivery) :=
  chunks.flatMap fun c => [.delay c.delay, .act (.data c.bytes)]

def all (chunks : List Chunk) : Bytes := chunks.flatMap (·.bytes)

def totalDelay (chunks : List Chunk) : Nat := (chunks.map (·.delay)).sum

/-- The chunk is not empty, and a reader with this timeout does not give up before it comes. -/
structure InTime (timeout : Duration) (c : Chunk) : Prop where
  delay_le : c.delay ≤ timeout.millis
  ne_nil : c.bytes ≠ []

end Chunk

theorem Clock.wait_of_silence (now ms : Nat) (cancellable : Bool) :
    Clock.wait ⟨now, none⟩ ⟨some (now + ms), cancellable⟩ none =
      (.timedOut, ⟨now + ms, none⟩) := by
  have hheeded : Clock.heeded ⟨now, none⟩ ⟨some (now + ms), cancellable⟩ = none := ite_self none
  unfold wait
  rw [hheeded]
  by_cases hms : ms = 0
  · simp [hms]
  · have hopen : ¬ now + ms ≤ now := by omega
    simp [hopen, advance]

theorem Call.block_of_silence {σ α β : Type} (now ms : Nat) (cancellable : Bool) (state : σ)
    (left : List (Step α)) :
    (block ⟨some (now + ms), cancellable⟩ ⟨now, none⟩ state left : Settled σ α β) =
      ⟨.timedOut, ⟨now + ms, none⟩, state, left⟩ := by
  rw [block, sleep, Clock.wait_of_silence]

namespace Link

def withRead (link : Link) (read : List (Step Delivery)) : Link :=
  { link with script := { link.script with read } }

/-- Nothing is left to be read, or nothing before more is written. -/
def IsMute (link : Link) : Prop :=
  link.script.read = [] ∨
    ∃ count rest, link.script.read = .act (.awaitWritten count) :: rest ∧
      link.written.length < count

variable {link link' : Link} {timeout : Duration} {clock : Clock} {now ms : Nat} {limit : Limit}

theorem withRead_eq_self {read : List (Step Delivery)} (h : link.script.read = read) :
    link.withRead read = link := by
  subst h
  rfl

theorem capture_congr (received : Bytes) (hc : clock.isCancelled = false)
    (h : link.readNext timeout clock = link'.readNext timeout clock) :
    link.capture timeout clock received = link'.capture timeout clock received := by
  by_cases hd : ∀ bytes, (link.readNext timeout clock).ending = .done bytes → bytes = []
  · rw [capture_of_over received hc hd, capture_of_over received hc (h ▸ hd), h]
  · obtain ⟨bytes, hd⟩ := Classical.not_forall.1 hd
    obtain ⟨hd, hb⟩ := Classical.not_imp.1 hd
    rw [capture_of_more received hc hd hb, capture_of_more received hc (h ▸ hd) hb, h]

theorem capture_of_passed {answer : Delivery} {rest : List (Step Delivery)} (received : Bytes)
    (hc : clock.isCancelled = false) (hread : link.script.read = .act answer :: rest)
    (hreply : (reading captureRoom link.written.length link.isShutDown).reply link.unechoed answer =
      .pass link.unechoed) :
    link.capture timeout clock received = (link.withRead rest).capture timeout clock received := by
  apply capture_congr received hc
  rw [readNext, readNext, read_eq, read_eq, hread, Call.run_act_pass hreply]
  rfl

theorem capture_of_awaited {count : Nat} {rest : List (Step Delivery)} (received : Bytes)
    (hc : clock.isCancelled = false)
    (hread : link.script.read = .act (.awaitWritten count) :: rest)
    (hle : count ≤ link.written.length) :
    link.capture timeout clock received = (link.withRead rest).capture timeout clock received :=
  capture_of_passed received hc hread (if_pos hle)

theorem deliver_of_chunk {c : Chunk} {rest : List (Step Delivery)}
    (hread : link.script.read = .delay c.delay :: .act (.data c.bytes) :: rest)
    (ha : limit.Allows now c.delay) :
    link.deliver limit ⟨now, none⟩ =
      ⟨.done c.bytes, ⟨now + c.delay, none⟩, link.withRead rest⟩ := by
  rw [deliver, hread, Call.run, Call.sleep_of_allows _ _ _ ha]
  rfl

/-- A capture takes all chunks of a reply that come in time, and goes on behind them. -/
theorem capture_of_chunks (link : Link) (now : Nat) {chunks : List Chunk}
    {rest : List (Step Delivery)} (received : Bytes)
    (hread : link.script.read = Chunk.steps chunks ++ rest)
    (hchunks : ∀ c ∈ chunks, c.InTime timeout) :
    link.capture timeout ⟨now, none⟩ received =
      ((link.withRead rest).took (Chunk.all chunks)).capture timeout
        ⟨now + Chunk.totalDelay chunks, none⟩ (received ++ Chunk.all chunks) := by
  induction chunks generalizing link now received with
  | nil =>
    have hrest : link.script.read = rest := hread
    rw [withRead_eq_self hrest]
    simp [Chunk.all, Chunk.totalDelay]
  | cons c chunks ih =>
    have hc := hchunks c List.mem_cons_self
    have hfirst : link.script.read =
        .delay c.delay :: .act (.data c.bytes) :: (Chunk.steps chunks ++ rest) := hread
    have hdelivered := deliver_of_chunk hfirst (Duration.allows hc.delay_le now true)
    rw [capture_of_delivered received rfl rfl hc.ne_nil hdelivered,
      ih _ _ _ rfl fun d hd => hchunks d (List.mem_cons_of_mem _ hd)]
    simp only [Chunk.all, Chunk.totalDelay, List.flatMap_cons, List.map_cons, List.sum_cons,
      List.append_assoc, Nat.add_assoc, withRead, took]

theorem capture_of_isMute (received : Bytes) (h : link.IsMute) (ht : timeout.IsMillis ms) :
    link.capture timeout ⟨now, none⟩ received =
      ⟨some .silent, received, ⟨now + ms, none⟩, link⟩ := by
  have hdeliver : link.deliver ⟨timeout.deadline now, true⟩ ⟨now, none⟩ =
      ⟨.timedOut, ⟨now + ms, none⟩, link⟩ := by
    rw [ht.deadline now]
    rcases h with hread | ⟨count, rest, hread, hlt⟩
    · rw [deliver, hread, Call.run]
      change (Call.block _ _ _ _).moved _ = _
      rw [Call.block_of_silence]
      exact congrArg _ (withRead_eq_self hread)
    · have hreply : (delivering link.written.length link.isShutDown).reply link.unechoed
          (.awaitWritten count) = .block := if_neg (Nat.not_le_of_lt hlt)
      rw [deliver, hread, Call.run_act_block hreply, Call.block_of_silence]
      exact congrArg _ (withRead_eq_self hread)
  rw [capture_of_not_delivered received rfl (by rw [hdeliver]; simp), hdeliver]
  rfl

end Link

end WireReplay
