import WireReplay.Replay.Run

/-!
# The phases of a turn

A turn is made of phases: connecting, writing, flushing, shutting down, and then one read after
the other. A phase is entered only if the one before it was done; any other ending is the ending
of the turn. The forms given here say this once, so that what holds of a turn can be put together
from what holds of its phases.
-/

namespace WireReplay

def Settled.moved {σ α β : Type} (settled : Settled σ α β)
    (after : Ending β → σ → List (Step α) → Link) : Moved β :=
  ⟨settled.ending, settled.clock, after settled.ending settled.state settled.steps⟩

/-- Goes on with `next` if the phase was done, and else leaves it at how it ended. -/
def Moved.andThen (m : Moved Unit) (next : Link → Clock → Moved Unit) : Moved Unit :=
  if m.ending = .done () then next m.link m.clock else m

theorem Moved.andThen_of_done {m : Moved Unit} (next : Link → Clock → Moved Unit)
    (h : m.ending = .done ()) : m.andThen next = next m.link m.clock := if_pos h

theorem Moved.andThen_of_not_done {m : Moved Unit} (next : Link → Clock → Moved Unit)
    (h : m.ending ≠ .done ()) : m.andThen next = m := if_neg h

/-- The verdict on a payload whose sending came to this ending before it was done. -/
def Ending.unsentVerdict (timeout : Duration) : Ending Unit → Option Verdict
  | .failed fault => some (.writeFailed fault)
  | .timedOut => some (.writeTimedOut timeout.boundedMillis)
  | .cancelled => some .cancelled
  | _ => none

def Ending.lastVerdict : Ending Bytes → Option Verdict
  | .done _ => some .closed
  | .failed fault => some (.readFailed fault)
  | .timedOut => some .silent
  | .cancelled => some .cancelled
  | .never => none

namespace Link

/-- The link after a write of `data` that came to an ending with so many bytes accepted. -/
def afterWrite (link : Link) (data : Bytes) (_ : Ending Unit) (accepted : Nat)
    (write : List (Step Nat)) : Link :=
  { link with
    script := { link.script with write }
    written := link.written ++ data.take accepted
    unechoed := link.unechoed ++ data.take accepted }

def afterFlush (link : Link) (ending : Ending Unit) (_ : Unit) (flush : List (Step Unit)) : Link :=
  { link with
    script := { link.script with flush }
    flushes := if ending = .done () then link.flushes + 1 else link.flushes }

def afterShutDown (link : Link) (ending : Ending Unit) (_ : Unit) (shutdown : List (Step Unit)) :
    Link :=
  { link with
    script := { link.script with shutdown }
    isShutDown := link.isShutDown || ending = .done () }

def afterRead (link : Link) (ending : Ending Bytes) (unechoed : Bytes)
    (read : List (Step Delivery)) : Link :=
  { link with
    script := { link.script with read }
    unechoed
    delivered := match ending with
      | .done bytes => link.delivered ++ bytes
      | _ => link.delivered }

theorem write_cons_eq (link : Link) (byte : UInt8) (bytes : Bytes) (limit : Limit) (clock : Clock) :
    link.write (byte :: bytes) limit clock =
      ((writing (byte :: bytes).length).run limit clock 0 link.script.write).moved
        (link.afterWrite (byte :: bytes)) := rfl

theorem flush_eq (link : Link) (limit : Limit) (clock : Clock) :
    link.flush limit clock =
      (signalling.run limit clock () link.script.flush).moved link.afterFlush := rfl

theorem shutDown_eq (link : Link) (limit : Limit) (clock : Clock) :
    link.shutDown limit clock =
      (signalling.run limit clock () link.script.shutdown).moved link.afterShutDown := rfl

theorem read_eq (link : Link) (room : Nat) (limit : Limit) (clock : Clock) :
    link.read room limit clock =
      ((reading room link.written.length link.isShutDown).run limit clock link.unechoed
        link.script.read).moved link.afterRead := rfl

theorem send_eq_andThen (link : Link) (data : Bytes) (halfClose : Bool) (limit : Limit)
    (clock : Clock) :
    link.send data halfClose limit clock =
      (link.write data limit clock).andThen fun link clock =>
        (link.flush limit clock).andThen fun link clock =>
          if halfClose then link.shutDown limit clock else ⟨.done (), clock, link⟩ := by
  unfold send
  split
  · rename_i later after hw
    rw [hw, Moved.andThen_of_done _ rfl]
    split
    · rename_i hf
      rw [hf, Moved.andThen_of_done _ rfl]
    · rename_i hf
      rw [Moved.andThen_of_not_done]
      exact fun hd => hf _ _ (by rw [← hd])
  · rename_i hw
    rw [Moved.andThen_of_not_done]
    exact fun hd => hw _ _ (by rw [← hd])

/-- Sends `data` with the whole write timeout to it. -/
def sendAll (link : Link) (data : Bytes) (settings : Replay.Settings) (halfClose : Bool)
    (clock : Clock) : Moved Unit :=
  link.send data halfClose ⟨settings.writeTimeout.deadline clock.now, true⟩ clock

def readNext (link : Link) (timeout : Duration) (clock : Clock) : Moved Bytes :=
  link.read captureRoom ⟨timeout.deadline clock.now, true⟩ clock

theorem exchange_of_cancelled {link : Link} {clock : Clock} (data : Bytes)
    (settings : Replay.Settings) (halfClose : Bool) (h : clock.isCancelled = true) :
    link.exchange data settings halfClose clock = ⟨some .cancelled, [], clock, link⟩ := by
  rw [exchange, if_pos h]

theorem exchange_of_sent {link : Link} {data : Bytes} {settings : Replay.Settings}
    {halfClose : Bool} {clock : Clock} (h : clock.isCancelled = false)
    (hs : (link.sendAll data settings halfClose clock).ending = .done ()) :
    link.exchange data settings halfClose clock =
      (link.sendAll data settings halfClose clock).link.capture settings.readTimeout
        (link.sendAll data settings halfClose clock).clock [] := by
  unfold sendAll at hs ⊢
  rw [exchange, if_neg (by simp [h])]
  dsimp only
  generalize link.send data halfClose _ clock = sent at hs ⊢
  obtain ⟨ending, later, after⟩ := sent
  cases hs
  rfl

theorem exchange_of_unsent {link : Link} {data : Bytes} {settings : Replay.Settings}
    {halfClose : Bool} {clock : Clock} (h : clock.isCancelled = false)
    (hs : (link.sendAll data settings halfClose clock).ending ≠ .done ()) :
    link.exchange data settings halfClose clock =
      ⟨(link.sendAll data settings halfClose clock).ending.unsentVerdict settings.writeTimeout, [],
        (link.sendAll data settings halfClose clock).clock,
        (link.sendAll data settings halfClose clock).link⟩ := by
  unfold sendAll at hs ⊢
  rw [exchange, if_neg (by simp [h])]
  dsimp only
  generalize link.send data halfClose _ clock = sent at hs ⊢
  obtain ⟨ending, later, after⟩ := sent
  cases ending with
  | done => exact absurd rfl hs
  | _ => rfl

theorem capture_of_cancelled {link : Link} {clock : Clock} (timeout : Duration) (received : Bytes)
    (h : clock.isCancelled = true) :
    link.capture timeout clock received = ⟨some .cancelled, received, clock, link⟩ := by
  rw [capture, if_pos h]

theorem capture_of_more {link : Link} {timeout : Duration} {clock : Clock} {bytes : Bytes}
    (received : Bytes) (h : clock.isCancelled = false)
    (hd : (link.readNext timeout clock).ending = .done bytes) (hb : bytes ≠ []) :
    link.capture timeout clock received =
      (link.readNext timeout clock).link.capture timeout (link.readNext timeout clock).clock
        (received ++ bytes) := by
  unfold readNext at hd ⊢
  rw [capture, if_neg (by simp [h])]
  generalize link.read captureRoom _ clock = read at hd ⊢
  obtain ⟨ending, later, after⟩ := read
  cases hd
  cases bytes with
  | nil => exact absurd rfl hb
  | cons => rfl

theorem capture_of_over {link : Link} {timeout : Duration} {clock : Clock} (received : Bytes)
    (h : clock.isCancelled = false)
    (hd : ∀ bytes, (link.readNext timeout clock).ending = .done bytes → bytes = []) :
    link.capture timeout clock received =
      ⟨(link.readNext timeout clock).ending.lastVerdict, received,
        (link.readNext timeout clock).clock, (link.readNext timeout clock).link⟩ := by
  unfold readNext at hd ⊢
  rw [capture, if_neg (by simp [h])]
  generalize link.read captureRoom _ clock = read at hd ⊢
  obtain ⟨ending, later, after⟩ := read
  cases ending with
  | done bytes => cases hd bytes rfl; rfl
  | _ => rfl

/-- What holds when a capture ends, and of every capture if it holds of the capture that follows
the next read, holds of every capture. -/
theorem capture_induction (timeout : Duration) {P : Link → Clock → Bytes → Turn → Prop}
    (cancelled : ∀ link clock received, clock.isCancelled = true →
      P link clock received ⟨some .cancelled, received, clock, link⟩)
    (last : ∀ link clock received, clock.isCancelled = false →
      (∀ bytes, (link.readNext timeout clock).ending = .done bytes → bytes = []) →
      P link clock received ⟨(link.readNext timeout clock).ending.lastVerdict, received,
        (link.readNext timeout clock).clock, (link.readNext timeout clock).link⟩)
    (more : ∀ link clock received bytes turn, clock.isCancelled = false →
      (link.readNext timeout clock).ending = .done bytes → bytes ≠ [] →
      P (link.readNext timeout clock).link (link.readNext timeout clock).clock (received ++ bytes)
        turn → P link clock received turn)
    (link : Link) (clock : Clock) (received : Bytes) :
    P link clock received (link.capture timeout clock received) := by
  induction hn : link.backlog using Nat.strongRecOn generalizing link clock received with
  | ind n ih =>
    cases hc : clock.isCancelled with
    | true => rw [capture_of_cancelled timeout received hc]; exact cancelled link clock received hc
    | false =>
      by_cases hd : ∀ bytes, (link.readNext timeout clock).ending = .done bytes → bytes = []
      · rw [capture_of_over received hc hd]
        exact last link clock received hc hd
      · obtain ⟨bytes, hd⟩ := Classical.not_forall.1 hd
        obtain ⟨hd, hb⟩ := Classical.not_imp.1 hd
        rw [capture_of_more received hc hd hb]
        refine more link clock received bytes _ hc hd hb (ih _ ?_ _ _ _ rfl)
        have hr : link.readNext timeout clock = ⟨.done bytes, (link.readNext timeout clock).clock,
            (link.readNext timeout clock).link⟩ := by rw [← hd]
        rw [← hn]
        exact backlog_lt_of_read hr hb

end Link

/-- What came of an attempt to connect that came to this ending. -/
def Network.dialed (net : Network) (attempt : Nat) (timeout : Duration) : Ending Unit → Dialed
  | .done () => .opened { script := { net.peer attempt with connect := [] } }
  | .failed fault => .refused (.connectFailed net.target fault)
  | .timedOut => .refused (.connectTimedOut net.target timeout.boundedMillis)
  | .cancelled => .refused .cancelled
  | .never => .never

def Network.dialing (net : Network) (attempt : Nat) (timeout : Duration) (clock : Clock) :
    Settled Unit Empty Unit :=
  WireReplay.dialing.run ⟨timeout.deadline clock.now, true⟩ clock () (net.peer attempt).connect

theorem Network.dial_eq (net : Network) (attempt : Nat) (timeout : Duration) (clock : Clock) :
    net.dial attempt timeout clock =
      (net.dialed attempt timeout (net.dialing attempt timeout clock).ending,
        (net.dialing attempt timeout clock).clock) := by
  unfold dial dialing PeerScript.dial
  generalize WireReplay.dialing.run _ clock () _ = settled
  obtain ⟨ending, later, state, steps⟩ := settled
  cases ending <;> rfl

theorem Network.clock_of_dial {net : Network} {attempt : Nat} {timeout : Duration}
    {clock later : Clock} {dialed : Dialed}
    (hd : net.dial attempt timeout clock = (dialed, later)) :
    (net.dialing attempt timeout clock).clock = later := by
  rw [dial_eq] at hd
  exact congrArg Prod.snd hd

theorem Network.link_of_opened {net : Network} {attempt : Nat} {timeout : Duration}
    {clock later : Clock} {link : Link}
    (hd : net.dial attempt timeout clock = (.opened link, later)) :
    link = { script := { net.peer attempt with connect := [] } } := by
  rw [dial_eq] at hd
  have hdialed := congrArg Prod.fst hd
  generalize (net.dialing attempt timeout clock).ending = ending at hdialed
  cases ending <;> cases hdialed
  rfl

end WireReplay
