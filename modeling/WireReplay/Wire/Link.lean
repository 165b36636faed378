import WireReplay.Wire.Call

/-!
# Open connections

A link is one end of an open connection: the rest of the peer's script, and what has gone over
the connection so far. Each kind of call on a link is a `Call` against one list of the script.
-/

namespace WireReplay

structure Link where
  /-- What the peer has still to answer; its list of connect steps is used up. -/
  script : PeerScript
  written : Bytes := []
  unechoed : Bytes := []
  delivered : Bytes := []
  flushes : Nat := 0
  isShutDown : Bool := false
  isClosed : Bool := false
deriving DecidableEq, Repr

structure Moved (β : Type) where
  ending : Ending β
  clock : Clock
  link : Link

def dialing : Call Unit Empty Unit where
  reply _ answer := nomatch answer
  atEnd _ := some ((), ())

def PeerScript.dial (script : PeerScript) (limit : Limit) (clock : Clock) : Ending Link × Clock :=
  let settled := dialing.run limit clock () script.connect
  match settled.ending with
  | .done () => (.done { script := { script with connect := [] } }, settled.clock)
  | .failed fault => (.failed fault, settled.clock)
  | .timedOut => (.timedOut, settled.clock)
  | .cancelled => (.cancelled, settled.clock)
  | .never => (.never, settled.clock)

namespace Link

/-- Writing `total` bytes, of which the state counts those accepted. To accept none is a fault, and
an interrupted write is tried again. -/
def writing (total : Nat) : Call Nat Nat Unit where
  reply accepted n :=
    if n = 0 then .fail (.bare .writeZero) accepted
    else if total ≤ accepted + n then .done () total []
    else .pass (accepted + n)
  atEnd _ := some ((), total)
  retries := Fault.isInterrupted

/-- Writes all of `data`; for no data at all nothing is asked of the peer. -/
def write (link : Link) (data : Bytes) (limit : Limit) (clock : Clock) : Moved Unit :=
  if data.isEmpty then ⟨.done (), clock, link⟩
  else
    let settled := (writing data.length).run limit clock 0 link.script.write
    let accepted := data.take settled.state
    ⟨settled.ending, settled.clock,
      { link with
        script := { link.script with write := settled.steps }
        written := link.written ++ accepted
        unechoed := link.unechoed ++ accepted }⟩

def signalling : Call Unit Unit Unit where
  reply _ _ := .done () () []
  atEnd _ := some ((), ())

def flush (link : Link) (limit : Limit) (clock : Clock) : Moved Unit :=
  let settled := signalling.run limit clock () link.script.flush
  let flushes := if settled.ending = .done () then link.flushes + 1 else link.flushes
  ⟨settled.ending, settled.clock,
    { link with script := { link.script with flush := settled.steps }, flushes }⟩

def shutDown (link : Link) (limit : Limit) (clock : Clock) : Moved Unit :=
  let settled := signalling.run limit clock () link.script.shutdown
  let isShutDown := link.isShutDown || settled.ending = .done ()
  ⟨settled.ending, settled.clock,
    { link with script := { link.script with shutdown := settled.steps }, isShutDown }⟩

def send (link : Link) (data : Bytes) (halfClose : Bool) (limit : Limit) (clock : Clock) :
    Moved Unit :=
  match link.write data limit clock with
  | ⟨.done (), clock, link⟩ =>
    match link.flush limit clock with
    | ⟨.done (), clock, link⟩ =>
      if halfClose then link.shutDown limit clock else ⟨.done (), clock, link⟩
    | unflushed => unflushed
  | unwritten => unwritten

def leftover (bytes : Bytes) : List (Step Delivery) :=
  if bytes.isEmpty then [] else [.act (.data bytes)]

def reading (room written : Nat) (isShutDown : Bool) : Call Bytes Delivery Bytes where
  reply unechoed
    | .data bytes => .done (bytes.take room) unechoed (leftover (bytes.drop room))
    | .eof => .done [] unechoed [.act .eof]
    | .awaitWritten count => if count ≤ written then .pass unechoed else .block
    | .awaitShutdown => if isShutDown then .pass unechoed else .block
    | .echo =>
      if unechoed.isEmpty then .pass unechoed
      else .done (unechoed.take room) [] (leftover (unechoed.drop room))
  atEnd _ := none

/-- Reads once, into a buffer of `room` bytes. Nothing read means that the peer closed. -/
def read (link : Link) (room : Nat) (limit : Limit) (clock : Clock) : Moved Bytes :=
  let settled := (reading room link.written.length link.isShutDown).run limit clock link.unechoed
    link.script.read
  let delivered := match settled.ending with
    | .done bytes => link.delivered ++ bytes
    | _ => link.delivered
  ⟨settled.ending, settled.clock,
    { link with
      script := { link.script with read := settled.steps }
      unechoed := settled.state
      delivered }⟩

def close (link : Link) : Link := { link with isClosed := true }

def weight : Step Delivery → Nat
  | .act (.data bytes) => bytes.length + 1
  | _ => 1

def totalWeight : List (Step Delivery) → Nat
  | [] => 0
  | step :: rest => weight step + totalWeight rest

theorem totalWeight_append (front rest : List (Step Delivery)) :
    totalWeight (front ++ rest) = totalWeight front + totalWeight rest := by
  induction front with
  | nil => simp [totalWeight]
  | cons step front ih => simp only [List.cons_append, totalWeight, ih]; omega

/-- What the peer can still deliver, counted in steps and bytes. -/
def backlog (link : Link) : Nat := totalWeight link.script.read + link.unechoed.length

theorem totalWeight_leftover_add (bytes : Bytes) (room : Nat) :
    totalWeight (leftover (bytes.drop room)) + (bytes.take room).length ≤ bytes.length + 1 := by
  unfold leftover
  split
  · simp only [totalWeight, List.length_take]; omega
  · simp only [totalWeight, weight, List.length_take, List.length_drop]; omega

theorem reading_reply_pass {room written : Nat} {isShutDown : Bool} {unechoed next : Bytes}
    {answer : Delivery} (h : (reading room written isShutDown).reply unechoed answer = .pass next) :
    next = unechoed := by
  cases answer <;> simp only [reading] at h <;> (try split at h) <;> cases h <;> rfl

theorem reading_reply_done {room written : Nat} {isShutDown : Bool} {unechoed next bytes : Bytes}
    {answer : Delivery} {front : List (Step Delivery)}
    (h : (reading room written isShutDown).reply unechoed answer = .done bytes next front) :
    totalWeight front + next.length + bytes.length ≤ weight (.act answer) + unechoed.length := by
  cases answer with
  | data sent =>
    cases h
    have := totalWeight_leftover_add sent room
    simp only [weight]; omega
  | eof => cases h; simp [totalWeight, weight]
  | echo =>
    simp only [reading] at h
    split at h <;> cases h
    have := totalWeight_leftover_add unechoed room
    simp only [weight, List.length_nil]; omega
  | _ => simp only [reading] at h; split at h <;> cases h

theorem reading_run_done (room written : Nat) (isShutDown : Bool) (limit : Limit)
    (steps : List (Step Delivery)) (clock : Clock) (unechoed bytes : Bytes)
    (h : ((reading room written isShutDown).run limit clock unechoed steps).ending = .done bytes) :
    let settled := (reading room written isShutDown).run limit clock unechoed steps
    totalWeight settled.steps + settled.state.length + bytes.length ≤
      totalWeight steps + unechoed.length := by
  induction steps generalizing clock unechoed with
  | nil => exact (Call.block_ending_ne_done h).elim
  | cons step rest ih =>
    simp only [totalWeight]
    cases step with
    | delay ms =>
      obtain ⟨later, hs⟩ := Call.exists_onward_of_sleep_done h
      simp only [Call.run, hs] at h ⊢
      have := ih later unechoed h
      omega
    | notBefore moment =>
      obtain ⟨later, hs⟩ := Call.exists_onward_of_sleep_done h
      simp only [Call.run, hs] at h ⊢
      have := ih later unechoed h
      omega
    | cancel =>
      have := ih clock.cancel unechoed h
      simp only [Call.run]; omega
    | hang => exact (Call.block_ending_ne_done h).elim
    | error fault => cases h
    | act answer =>
      cases hr : (reading room written isShutDown).reply unechoed answer with
      | pass next =>
        rw [Call.run_act_pass hr, reading_reply_pass hr] at h ⊢
        have := ih clock unechoed h
        simp only at *; omega
      | block =>
        rw [Call.run_act_block hr] at h
        exact (Call.block_ending_ne_done h).elim
      | fail fault next => rw [Call.run_act_fail hr] at h; cases h
      | done value next front =>
        rw [Call.run_act_done hr] at h ⊢
        cases h
        have := reading_reply_done hr
        simp only [totalWeight_append]; omega

theorem backlog_lt_of_read {link after : Link} {room : Nat} {limit : Limit} {clock later : Clock}
    {bytes : Bytes} (h : link.read room limit clock = ⟨.done bytes, later, after⟩)
    (hb : bytes ≠ []) : after.backlog < link.backlog := by
  have hd := reading_run_done room link.written.length link.isShutDown limit link.script.read clock
    link.unechoed bytes (congrArg Moved.ending h)
  have := List.length_pos_iff.2 hb
  obtain rfl := congrArg Moved.link h
  simp only [backlog, read] at hd ⊢
  omega

end Link

end WireReplay
