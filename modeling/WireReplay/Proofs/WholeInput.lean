import WireReplay.Proofs.Chunks
import WireReplay.Proofs.IdleTimeouts
import WireReplay.Proofs.Isolation
import WireReplay.Proofs.LaterRelays
import WireReplay.Send

/-!
# Sending a whole input

An input is read to its end before anything else is done, in as many reads as it takes. What is sent
is therefore all of it or nothing: behind the end of the input sending goes as a relay of all bytes
that it delivered, only later, and no matter how they were cut or delayed. If the input fails, or
never ends, nothing is connected and the output is left alone.
-/

namespace WireReplay

def Ending.prepend (bytes : Bytes) : Ending Bytes → Ending Bytes
  | .done rest => .done (bytes ++ rest)
  | ending => ending

theorem Ending.prepend_nil (ending : Ending Bytes) : ending.prepend [] = ending := by
  cases ending <;> rfl

theorem Ending.prepend_prepend (first second : Bytes) (ending : Ending Bytes) :
    (ending.prepend second).prepend first = ending.prepend (first ++ second) := by
  cases ending with
  | done rest => exact congrArg Ending.done (List.append_assoc first second rest).symm
  | _ => rfl

namespace Relay

/-- What it comes to if these steps are read to the end by one who writes nothing: all that they
deliver in front of an end of file, the first fault, or a wait for good. -/
def wholeInput : List (Step Delivery) → Ending Bytes
  | [] => .never
  | .delay _ :: rest => wholeInput rest
  | .notBefore _ :: rest => wholeInput rest
  | .cancel :: rest => wholeInput rest
  | .hang :: _ => .never
  | .error fault :: _ => .failed fault
  | .act .eof :: _ => .done []
  | .act (.data []) :: _ => .done []
  | .act (.data (byte :: bytes)) :: rest => (wholeInput rest).prepend (byte :: bytes)
  | .act (.awaitWritten 0) :: rest => wholeInput rest
  | .act (.awaitWritten (_ + 1)) :: _ => .never
  | .act .awaitShutdown :: _ => .never
  | .act .echo :: rest => wholeInput rest

/-- The moment at which this is over if it is begun at `now`. -/
def inputOver (now : Nat) : List (Step Delivery) → Nat
  | .delay ms :: rest => inputOver (now + ms) rest
  | .notBefore moment :: rest => inputOver (max now moment) rest
  | .cancel :: rest => inputOver now rest
  | .act (.data (_ :: _)) :: rest => inputOver now rest
  | .act (.awaitWritten 0) :: rest => inputOver now rest
  | .act .echo :: rest => inputOver now rest
  | _ => now

theorem wholeInput_of_chunks {chunks : List Chunk} (h : ∀ c ∈ chunks, c.bytes ≠ [])
    (rest : List (Step Delivery)) :
    wholeInput (Chunk.steps chunks ++ rest) = (wholeInput rest).prepend (Chunk.all chunks) := by
  induction chunks with
  | nil => exact (wholeInput rest).prepend_nil.symm
  | cons c chunks ih =>
    have hfirst : wholeInput (Chunk.steps (c :: chunks) ++ rest) =
        wholeInput (.act (.data c.bytes) :: (Chunk.steps chunks ++ rest)) := rfl
    have hrest := ih fun d hd => h d (List.mem_cons_of_mem _ hd)
    rw [hfirst]
    cases hb : c.bytes with
    | nil => exact absurd hb (h c List.mem_cons_self)
    | cons byte bytes =>
      rw [wholeInput, hrest, Ending.prepend_prepend, ← hb]
      rfl

theorem inputOver_of_chunks {chunks : List Chunk} (h : ∀ c ∈ chunks, c.bytes ≠ []) (now : Nat)
    (rest : List (Step Delivery)) :
    inputOver now (Chunk.steps chunks ++ rest) =
      inputOver (now + Chunk.totalDelay chunks) rest := by
  induction chunks generalizing now with
  | nil => rfl
  | cons c chunks ih =>
    have hfirst : inputOver now (Chunk.steps (c :: chunks) ++ rest) =
        inputOver (now + c.delay) (.act (.data c.bytes) :: (Chunk.steps chunks ++ rest)) := rfl
    have hrest := ih (fun d hd => h d (List.mem_cons_of_mem _ hd)) (now + c.delay)
    rw [hfirst]
    cases hb : c.bytes with
    | nil => exact absurd hb (h c List.mem_cons_self)
    | cons byte bytes =>
      rw [inputOver, hrest, Nat.add_assoc]
      rfl

/-- A read on an input that comes to an ending at some moment, both of which it tells: it delivered
something in front of the rest, or it was the last one. -/
inductive TellsInput : Ending Bytes → Nat → Settled Bytes Delivery Bytes → Prop
  | more {bytes : Bytes} (hb : bytes ≠ []) (clock : Clock) (rest : List (Step Delivery)) :
      TellsInput ((wholeInput rest).prepend bytes) (inputOver clock.now rest)
        ⟨.done bytes, clock, [], rest⟩
  | ended (clock : Clock) (rest : List (Step Delivery)) :
      TellsInput (.done []) clock.now ⟨.done [], clock, [], rest⟩
  | failed (fault : Fault) (clock : Clock) (rest : List (Step Delivery)) :
      TellsInput (.failed fault) clock.now ⟨.failed fault, clock, [], rest⟩
  | never (clock : Clock) (rest : List (Step Delivery)) :
      TellsInput .never clock.now ⟨.never, clock, [], rest⟩

theorem wholeInput_leftover (bytes : Bytes) (rest : List (Step Delivery)) :
    wholeInput (Link.leftover bytes ++ rest) = (wholeInput rest).prepend bytes := by
  cases bytes with
  | nil => exact (wholeInput rest).prepend_nil.symm
  | cons => rfl

theorem inputOver_leftover (now : Nat) (bytes : Bytes) (rest : List (Step Delivery)) :
    inputOver now (Link.leftover bytes ++ rest) = inputOver now rest := by
  cases bytes <;> rfl

theorem tellsInput_of_delivered {bytes : Bytes} (hb : bytes ≠ []) (rest : List (Step Delivery))
    (clock : Clock) :
    TellsInput ((wholeInput rest).prepend bytes) (inputOver clock.now rest)
      ⟨.done (bytes.take captureRoom), clock, [],
        Link.leftover (bytes.drop captureRoom) ++ rest⟩ := by
  have htaken : bytes.take captureRoom ≠ [] := Link.take_ne_nil hb (by decide)
  have htells := TellsInput.more htaken clock (Link.leftover (bytes.drop captureRoom) ++ rest)
  rwa [wholeInput_leftover, Ending.prepend_prepend, List.take_append_drop,
    inputOver_leftover] at htells

theorem reading_tellsInput (clock : Clock) (steps : List (Step Delivery)) :
    TellsInput (wholeInput steps) (inputOver clock.now steps)
      ((Link.reading captureRoom 0 false).run patience clock [] steps) := by
  have hblocked (clock : Clock) (left : List (Step Delivery)) :
      TellsInput .never clock.now
        (Call.block patience clock [] left : Settled Bytes Delivery Bytes) := by
    rw [Call.block_patient]
    exact .never clock left
  induction steps generalizing clock with
  | nil => exact hblocked _ _
  | cons step rest ih =>
    cases step with
    | delay ms =>
      have hover : inputOver clock.now (.delay ms :: rest) =
          inputOver (clock.advance (clock.now + ms)).now rest := by
        simp [inputOver, Clock.advance]
      rw [Call.run, Call.sleep_patient, hover]
      exact ih (clock.advance (clock.now + ms))
    | notBefore moment =>
      rw [Call.run, Call.sleep_patient]
      exact ih (clock.advance moment)
    | cancel => exact ih clock.cancel
    | hang => exact hblocked _ _
    | error fault => exact .failed fault clock rest
    | act answer =>
      cases answer with
      | data bytes =>
        cases bytes with
        | nil => exact .ended clock rest
        | cons byte bytes => exact tellsInput_of_delivered (List.cons_ne_nil byte bytes) rest clock
      | eof => exact .ended clock (.act .eof :: rest)
      | awaitWritten count =>
        cases count with
        | zero => exact ih clock
        | succ count => exact hblocked _ _
      | awaitShutdown => exact hblocked _ _
      | echo => exact ih clock

end Relay

namespace Link

/-- Nothing was ever sent on the link, so it is only read from. -/
structure IsOnlyRead (link : Link) : Prop where
  written_eq : link.written = []
  unechoed_eq : link.unechoed = []
  isShutDown_eq : link.isShutDown = false

open Relay

variable {link after : Link} {clock later : Clock} {received bytes : Bytes}

theorem gather_of_more (hb : bytes ≠ [])
    (h : link.read captureRoom patience clock = ⟨.done bytes, later, after⟩) (received : Bytes) :
    link.gather clock received = after.gather later (received ++ bytes) := by
  rw [gather]
  generalize link.read captureRoom patience clock = read at h ⊢
  cases h
  cases bytes with
  | nil => exact absurd rfl hb
  | cons byte bytes => rfl

theorem gather_of_last {ending : Ending Bytes}
    (h : link.read captureRoom patience clock = ⟨ending, later, after⟩)
    (hlast : ending = .done [] ∨ (∃ fault, ending = .failed fault) ∨ ending = .never)
    (received : Bytes) :
    link.gather clock received = ⟨ending.prepend received, later, after⟩ := by
  rw [gather]
  generalize link.read captureRoom patience clock = read at h ⊢
  cases h
  obtain rfl | ⟨fault, rfl⟩ | rfl := hlast
  · rw [Ending.prepend, List.append_nil]
  · rfl
  · rfl

theorem gather_wholeInput (h : link.IsOnlyRead) (clock : Clock) (received : Bytes) :
    (link.gather clock received).ending = (wholeInput link.script.read).prepend received ∧
      (link.gather clock received).clock.now = inputOver clock.now link.script.read := by
  induction hn : link.backlog using Nat.strongRecOn generalizing link clock received with
  | ind n ih =>
    have htells := reading_tellsInput clock link.script.read
    have hread : link.read captureRoom patience clock = _ := read_eq link captureRoom patience clock
    rw [h.written_eq, h.unechoed_eq, h.isShutDown_eq] at hread
    generalize (reading captureRoom 0 false).run patience clock [] link.script.read = settled
      at htells hread
    generalize wholeInput link.script.read = whole at htells ⊢
    generalize inputOver clock.now link.script.read = moment at htells ⊢
    cases htells with
    | @more bytes hb later rest =>
      have hlt := backlog_lt_of_read hread hb
      have hafter : (link.afterRead (.done bytes) [] rest).IsOnlyRead :=
        ⟨h.written_eq, rfl, h.isShutDown_eq⟩
      rw [gather_of_more hb hread, Ending.prepend_prepend]
      exact ih _ (hn ▸ hlt) hafter later (received ++ bytes) rfl
    | ended later rest =>
      rw [gather_of_last hread (.inl rfl)]
      exact ⟨rfl, rfl⟩
    | failed fault later rest =>
      rw [gather_of_last hread (.inr (.inl ⟨fault, rfl⟩))]
      exact ⟨rfl, rfl⟩
    | never later rest =>
      rw [gather_of_last hread (.inr (.inr rfl))]
      exact ⟨rfl, rfl⟩

end Link

theorem PeerScript.link_of_dial {script : PeerScript} {limit : Limit} {clock later : Clock}
    {peer : Link} (h : script.dial limit clock = (.done peer, later)) :
    peer = { script := { script with connect := [] } } := by
  unfold dial at h
  dsimp only at h
  generalize (dialing.run limit clock () script.connect).ending = ending at h
  cases ending <;> cases h
  rfl

theorem PeerScript.dial_later {script : PeerScript} (h : script.IsUnbegun) (timeout : Duration)
    {clock later : Clock} {d : Nat} (hnow : later.now = clock.now + d) :
    (script.dial (Relay.limit timeout later) later).1 =
        (script.dial (Relay.limit timeout clock) clock).1 ∧
      (script.dial (Relay.limit timeout later) later).2.now =
        (script.dial (Relay.limit timeout clock) clock).2.now + d := by
  have hheedless : (Relay.limit timeout clock).cancellable = false := rfl
  have hlater := Call.run_later dialing_putsBackAnswers hheedless hnow () script.connect
  rw [map_shift_of_unbegun h.connect, ← Relay.limit_later hnow] at hlater
  unfold dial
  dsimp only
  rw [hlater.ending_eq]
  cases (dialing.run (Relay.limit timeout clock) clock () script.connect).ending <;>
    exact ⟨rfl, hlater.now_eq⟩

namespace Sent

/-- What can be observed of sending, but for the time it took. -/
def observed (sent : Sent) : Sent :=
  { sent with clock := {}, peer := sent.peer.map Link.observed, output := sent.output.observed }

/-- Sending was over with this result before there was a connection, and nothing was done with the
output. -/
structure Unconnected (sent : Sent) (output : PeerScript) (attempts : Nat)
    (result : Option (Except Failure Relay.Summary)) (now : Nat) : Prop where
  result_eq : sent.result = result
  now_eq : sent.clock.now = now
  attempts_eq : sent.attempts = attempts
  peer_eq : sent.peer = none
  output_eq : sent.output = { script := output }

/-- From the moment at which the connection was open, everything went as in this relay. -/
structure Relayed (sent : Sent) (relayed : Relay.Finish × Relay.State) (opened : Nat) :
    Prop where
  result_eq : sent.result = relayed.1.result
  now_eq : sent.clock.now = opened + relayed.2.clock.now
  attempts_eq : sent.attempts = 1
  peer_eq : sent.peer.map Link.observed = some relayed.2.peer.observed
  output_eq : sent.output.observed = relayed.2.output.observed

/-- At the moment `now` it was attempted to connect, which comes to the same at all moments. The
attempt failed and the output was left alone, or everything went as in a relay of `data`. -/
def Sends (sent : Sent) (net : Network) (output : PeerScript) (data : Bytes)
    (settings : Relay.Settings) (now : Nat) : Prop :=
  match (net.peer 0).dial (Relay.limit settings.connectTimeout {}) {} with
  | (.done peer, opened) =>
    sent.Relayed (relay peer.script output data settings) (now + opened.now)
  | (.failed fault, refused) =>
    sent.Unconnected output 1 (some (.error (.connectFailed net.target fault))) (now + refused.now)
  | (.timedOut, refused) =>
    sent.Unconnected output 1
      (some (.error (.connectTimedOut net.target settings.connectTimeout.boundedMillis)))
      (now + refused.now)
  | (_, refused) => sent.Unconnected output 1 none (now + refused.now)

/-- What is done with an input that came to `whole` when it was over: if it failed or never ends,
nothing is connected, and else all that it delivered is sent. -/
def Follows (sent : Sent) (net : Network) (output : PeerScript) (settings : Relay.Settings)
    (whole : Ending Bytes) (moment : Nat) : Prop :=
  match whole with
  | .done data => sent.Sends net output data settings moment
  | .failed fault => sent.Unconnected output 0 (some (.error (.io fault))) moment
  | _ => sent.Unconnected output 0 none moment

/-- The same was sent behind inputs that were over at two moments. -/
structure Same (moment moment' : Nat) (sent sent' : Sent) : Prop where
  observed_eq : sent'.observed = sent.observed
  now_eq : sent'.clock.now + moment = sent.clock.now + moment'

variable {sent sent' : Sent} {net : Network} {output : PeerScript} {data : Bytes}
  {settings : Relay.Settings} {moment moment' : Nat}

theorem Unconnected.same {attempts : Nat} {result : Option (Except Failure Relay.Summary)} {k : Nat}
    (h : sent.Unconnected output attempts result (moment + k))
    (h' : sent'.Unconnected output attempts result (moment' + k)) :
    Same moment moment' sent sent' where
  observed_eq := by
    unfold observed
    rw [h.result_eq, h'.result_eq, h.attempts_eq, h'.attempts_eq, h.peer_eq, h'.peer_eq,
      h.output_eq, h'.output_eq]
  now_eq := by
    rw [h.now_eq, h'.now_eq]
    omega

theorem Relayed.same {relayed : Relay.Finish × Relay.State} {k : Nat}
    (h : sent.Relayed relayed (moment + k)) (h' : sent'.Relayed relayed (moment' + k)) :
    Same moment moment' sent sent' where
  observed_eq := by
    unfold observed
    rw [h.result_eq, h'.result_eq, h.attempts_eq, h'.attempts_eq, h.peer_eq, h'.peer_eq,
      h.output_eq, h'.output_eq]
  now_eq := by
    rw [h.now_eq, h'.now_eq]
    omega

theorem Sends.same (h : sent.Sends net output data settings moment)
    (h' : sent'.Sends net output data settings moment') : Same moment moment' sent sent' := by
  unfold Sends at h h'
  generalize (net.peer 0).dial (Relay.limit settings.connectTimeout {}) {} = dialed at h h'
  obtain ⟨ending, later⟩ := dialed
  cases ending with
  | done peer => exact Relayed.same h h'
  | _ => exact Unconnected.same h h'

theorem Follows.same {whole : Ending Bytes} (h : sent.Follows net output settings whole moment)
    (h' : sent'.Follows net output settings whole moment') : Same moment moment' sent sent' := by
  cases whole with
  | done data => exact Sends.same h h'
  | _ => exact Unconnected.same (k := 0) h h'

end Sent

namespace Relay

variable {net : Network} {output : PeerScript} {clock : Clock}

theorem later_of_opened {script : PeerScript} (h : script.IsUnbegun) (houtput : output.IsUnbegun)
    (clock : Clock) :
    State.Later clock.now { clock := {}, peer := { script }, output := { script := output } }
      { clock, peer := { script }, output := { script := output } } where
  now_eq := (Nat.zero_add _).symm
  peer_eq := by rw [Link.shift, h.shift_eq]
  output_eq := by rw [Link.shift, houtput.shift_eq]
  received_eq := rfl

theorem sendData_sends (hpeer : (net.peer 0).IsUnbegun) (houtput : output.IsUnbegun) (data : Bytes)
    (settings : Settings) (clock : Clock) :
    (sendData net { script := output } data settings clock).Sends net output data settings
      clock.now := by
  have hstart : clock.now = ({} : Clock).now + clock.now := (Nat.zero_add _).symm
  obtain ⟨hending, hnow⟩ := PeerScript.dial_later hpeer settings.connectTimeout hstart
  unfold Sent.Sends sendData
  dsimp only
  rcases hdialed : (net.peer 0).dial (limit settings.connectTimeout {}) {} with ⟨ending, opened⟩
  rcases hdialed' : (net.peer 0).dial (limit settings.connectTimeout clock) clock with
    ⟨ending', opened'⟩
  rw [hdialed, hdialed'] at hending hnow
  dsimp only at hending hnow
  subst hending
  rw [Nat.add_comm] at hnow
  cases ending' with
  | done peer =>
    have hscript : ({ net.peer 0 with connect := [] } : PeerScript).IsUnbegun :=
      { hpeer with connect := fun _ => List.not_mem_nil }
    obtain rfl := PeerScript.link_of_dial hdialed
    obtain ⟨hfinish, hlater⟩ := State.relay_later (later_of_opened hscript houtput opened') data
      settings
    refine ⟨congrArg Finish.result hfinish, ?_, rfl, ?_, ?_⟩
    · rw [← hnow, Nat.add_comm]
      exact hlater.now_eq
    · dsimp only
      rw [hlater.peer_eq]
      rfl
    · dsimp only
      rw [hlater.output_eq]
      rfl
  | _ => exact ⟨rfl, hnow, rfl, rfl, rfl⟩

theorem send_follows (hpeer : (net.peer 0).IsUnbegun) (houtput : output.IsUnbegun)
    (input : PeerScript) (settings : Settings) :
    (send net input output settings).Follows net output settings (wholeInput input.read)
      (inputOver 0 input.read) := by
  have hread : ({ script := input } : Link).IsOnlyRead := ⟨rfl, rfl, rfl⟩
  obtain ⟨hending, hnow⟩ := Link.gather_wholeInput hread {} []
  unfold send
  generalize Link.gather { script := input } {} [] = gathered at hending hnow ⊢
  obtain ⟨ending, clock, link⟩ := gathered
  dsimp only at hending hnow
  rw [Ending.prepend_nil] at hending
  rw [← hending, ← hnow]
  cases ending with
  | done data => exact sendData_sends hpeer houtput data settings clock
  | _ => exact ⟨rfl, rfl, rfl, rfl, rfl⟩

/-- All of an input is sent, or nothing. If the input fails, or never ends, there is no attempt to
connect and the output is left alone. Else it is attempted once the input is over, and if that
succeeds all goes as in a relay of what the input delivered. How this was cut and delayed cannot be
told from anything but the time that it takes. -/
theorem send_wholeInput (net : Network) (input output : PeerScript) (settings : Settings)
    (hpeer : (net.peer 0).IsUnbegun) (houtput : output.IsUnbegun) :
    (send net input output settings).Follows net output settings (wholeInput input.read)
        (inputOver 0 input.read) ∧
      ∀ input', wholeInput input'.read = wholeInput input.read →
        Sent.Same (inputOver 0 input.read) (inputOver 0 input'.read)
          (send net input output settings) (send net input' output settings) := by
  have hfollows := send_follows hpeer houtput input settings
  refine ⟨hfollows, fun input' hsame => hfollows.same ?_⟩
  rw [← hsame]
  exact send_follows hpeer houtput input' settings

/-- A slow input and one that comes at once: the slow one is sent as the other, when it is over. -/
theorem send_wholeInput_of_chunks :
    let peer : PeerScript :=
      { connect := [.delay 7], read := [.act (.awaitWritten 3), .act .echo, .delay 4, .act .eof] }
    let slow : PeerScript :=
      { read := Chunk.steps [⟨5, [1]⟩, ⟨3, [2, 3]⟩] ++ [.cancel, .act .eof] }
    let quick : PeerScript := { read := [.act (.data [1, 2]), .act (.data [3]), .act (.data [])] }
    wholeInput slow.read = .done [1, 2, 3] ∧ wholeInput quick.read = .done [1, 2, 3] ∧
      (send ⟨"peer", [peer]⟩ slow {} {}).Relayed (relay { peer with connect := [] } {} [1, 2, 3] {})
        15 ∧
      (relay { peer with connect := [] } {} [1, 2, 3] {}).1 = .finished ⟨3, 3, .ok⟩ ∧
      (send ⟨"peer", [peer]⟩ quick {} {}).observed =
        (send ⟨"peer", [peer]⟩ slow {} {}).observed := by
  intro peer slow quick
  have hpeer : (Network.peer ⟨"peer", [peer]⟩ 0).IsUnbegun := by
    constructor <;> simp [Network.peer, peer]
  have hchunks : ∀ c ∈ [Chunk.mk 5 [1], Chunk.mk 3 [2, 3]], c.bytes ≠ [] := by simp
  have hslow : wholeInput slow.read = .done [1, 2, 3] := wholeInput_of_chunks hchunks _
  have hover : inputOver 0 slow.read = 8 := inputOver_of_chunks hchunks 0 _
  obtain ⟨hfollows, hsame⟩ := send_wholeInput ⟨"peer", [peer]⟩ slow {} {} hpeer
    PeerScript.isUnbegun_empty
  rw [hslow, hover] at hfollows
  exact ⟨hslow, rfl, hfollows, by decide +kernel, (hsame quick hslow.symm).observed_eq⟩

example :
    (send ⟨"peer", [.unreachable]⟩ { read := [.act (.data [1]), .act .eof] } {} {}).attempts = 1 ∧
      (send ⟨"peer", [.unreachable]⟩ { read := [.act (.data [1]), .error (.bare .brokenPipe)] } {}
        {}).attempts = 0 := by
  decide +kernel

end Relay

end WireReplay
