import WireReplay.Proofs.Calm

/-!
# Turns that are taken later

A turn knows no moment but those that its clock shows and its script was brought to. If both are
moved on by `d`, the turn takes the same course `d` later: no call can tell when a run began.
-/

namespace WireReplay

/-- The clock `d` later, with the cancellation as far ahead as before. -/
def Clock.shift (clock : Clock) (d : Nat) : Clock := ⟨clock.now + d, clock.cancelAt.map (· + d)⟩

def Limit.shift (limit : Limit) (d : Nat) : Limit := ⟨limit.deadline.map (· + d), limit.cancellable⟩

def Step.shift {α : Type} (d : Nat) : Step α → Step α
  | .notBefore moment => .notBefore (moment + d)
  | step => step

@[simp] theorem Step.shift_delay {α : Type} (d ms : Nat) :
    (Step.delay ms : Step α).shift d = .delay ms := rfl

@[simp] theorem Step.shift_notBefore {α : Type} (d moment : Nat) :
    (Step.notBefore moment : Step α).shift d = .notBefore (moment + d) := rfl

@[simp] theorem Step.shift_cancel {α : Type} (d : Nat) : (Step.cancel : Step α).shift d = .cancel :=
  rfl

@[simp] theorem Step.shift_error {α : Type} (d : Nat) (fault : Fault) :
    (Step.error fault : Step α).shift d = .error fault := rfl

@[simp] theorem Step.shift_act {α : Type} (d : Nat) (answer : α) :
    (Step.act answer).shift d = .act answer := rfl

def PeerScript.shift (script : PeerScript) (d : Nat) : PeerScript where
  connect := script.connect.map (Step.shift d)
  write := script.write.map (Step.shift d)
  flush := script.flush.map (Step.shift d)
  shutdown := script.shutdown.map (Step.shift d)
  read := script.read.map (Step.shift d)

def Link.shift (link : Link) (d : Nat) : Link := { link with script := link.script.shift d }

def Settled.shift {σ α β : Type} (settled : Settled σ α β) (d : Nat) : Settled σ α β :=
  { settled with clock := settled.clock.shift d, steps := settled.steps.map (Step.shift d) }

def Moved.shift {β : Type} (m : Moved β) (d : Nat) : Moved β :=
  ⟨m.ending, m.clock.shift d, m.link.shift d⟩

def Turn.shift (turn : Turn) (d : Nat) : Turn :=
  { turn with clock := turn.clock.shift d, link := turn.link.shift d }

theorem Duration.deadline_add (timeout : Duration) (now d : Nat) :
    timeout.deadline (now + d) = (timeout.deadline now).map (· + d) := by
  unfold deadline
  split_ifs
  · exact congrArg some (Nat.add_right_comm now d timeout.ticks)
  · rfl

theorem Clock.isCancelled_shift (clock : Clock) (d : Nat) :
    (clock.shift d).isCancelled = clock.isCancelled := by
  obtain ⟨now, cancelAt⟩ := clock
  cases cancelAt <;> simp [shift, isCancelled]

theorem Clock.cancel_shift (clock : Clock) (d : Nat) :
    (clock.shift d).cancel = clock.cancel.shift d := by
  obtain ⟨now, cancelAt⟩ := clock
  cases cancelAt with
  | none => rfl
  | some moment => simp [shift, cancel, Nat.add_min_add_right]

theorem any_le_shift (moment : Option Nat) (now d : Nat) :
    (moment.map (· + d)).any (· ≤ now + d) = moment.any (· ≤ now) := by
  cases moment <;> simp

theorem all_le_shift (moment : Option Nat) (k d : Nat) :
    (moment.map (· + d)).all (k + d ≤ ·) = moment.all (k ≤ ·) := by
  cases moment <;> simp

theorem Clock.advance_shift (clock : Clock) (t d : Nat) :
    (clock.shift d).advance (t + d) = (clock.advance t).shift d := by
  simp only [advance, shift, Nat.add_max_add_right]

theorem Clock.heeded_shift (clock : Clock) (limit : Limit) (d : Nat) :
    (clock.shift d).heeded (limit.shift d) = (clock.heeded limit).map (· + d) := by
  cases hl : limit.cancellable with
  | true => simp only [heeded, Limit.shift, shift, hl, if_true]
  | false => simp [heeded, Limit.shift, hl]

theorem getD_shift (moment : Option Nat) (now d : Nat) :
    (moment.map (· + d)).getD (now + d) = moment.getD now + d := by
  cases moment <;> rfl

/-- A wait that begins `d` later, for what is ready `d` later, ends in the same way `d` later. -/
theorem Clock.wait_shift (clock : Clock) (limit : Limit) (ready : Option Nat) (d : Nat) :
    (clock.shift d).wait (limit.shift d) (ready.map (· + d)) =
      ((clock.wait limit ready).1, (clock.wait limit ready).2.shift d) := by
  have hready : (ready.map (· + d)).any (· ≤ (clock.shift d).now) = ready.any (· ≤ clock.now) :=
    any_le_shift ready clock.now d
  have hdeadline : (limit.shift d).deadline.any (· ≤ (clock.shift d).now) =
      limit.deadline.any (· ≤ clock.now) := any_le_shift limit.deadline clock.now d
  have hcancelled : (((clock.heeded limit).map (· + d)).any fun k =>
        (ready.map (· + d)).all (k ≤ ·) && (limit.shift d).deadline.all (k ≤ ·)) =
      (clock.heeded limit).any fun k =>
        ready.all (k ≤ ·) && limit.deadline.all (k ≤ ·) := by
    cases clock.heeded limit with
    | none => rfl
    | some k => exact congrArg₂ and (all_le_shift ready k d) (all_le_shift limit.deadline k d)
  have hmoment : ((clock.heeded limit).map (· + d)).getD (clock.shift d).now =
      (clock.heeded limit).getD clock.now + d := getD_shift _ _ _
  unfold wait
  rw [heeded_shift, hready, hdeadline, hcancelled, hmoment, advance_shift]
  split_ifs
  · rfl
  · rfl
  · rfl
  · cases ready with
    | none =>
      cases hl : limit.deadline with
      | none => simp only [Limit.shift, hl, Option.map_none]
      | some moment =>
        simp only [Limit.shift, hl, Option.map_none, Option.map_some, advance_shift]
    | some t =>
      cases hl : limit.deadline with
      | none => simp only [Limit.shift, hl, Option.map_none, Option.map_some, advance_shift]
      | some moment =>
        simp only [Limit.shift, hl, Option.map_some, advance_shift, Nat.add_le_add_iff_right]
        split_ifs <;> rfl

namespace Call

variable {σ α β : Type} {call : Call σ α β} {limit : Limit} {clock : Clock} {state : σ} {d : Nat}

theorem map_shift_of_putsBackAnswers (hcall : call.PutsBackAnswers) {next : σ} {answer : α}
    {value : β} {front : List (Step α)} (hr : call.reply state answer = .done value next front)
    (d : Nat) : front.map (Step.shift d) = front := by
  refine (List.map_congr_left fun step hm => ?_).trans (List.map_id front)
  obtain ⟨given, rfl⟩ := hcall _ _ _ _ _ hr _ hm
  rfl

theorem sleep_shift (ready : Option Nat) (left : List (Step α))
    {onward onward' : Clock → Settled σ α β}
    (h : ∀ later : Clock, onward' (later.shift d) = (onward later).shift d) :
    sleep (limit.shift d) (ready.map (· + d)) (clock.shift d) state (left.map (Step.shift d))
        onward' = (sleep limit ready clock state left onward).shift d := by
  unfold sleep
  rw [clock.wait_shift]
  rcases clock.wait limit ready with ⟨wake, later⟩
  cases wake with
  | ready => exact h later
  | _ => rfl

theorem block_shift (left : List (Step α)) :
    block (limit.shift d) (clock.shift d) state (left.map (Step.shift d)) =
      (block limit clock state left : Settled σ α β).shift d :=
  sleep_shift none left fun _ => rfl

/-- A call that is made `d` later against the same script comes to the same end `d` later. -/
theorem run_shift (hcall : call.PutsBackAnswers) (limit : Limit) (clock : Clock) (state : σ)
    (steps : List (Step α)) (d : Nat) :
    call.run (limit.shift d) (clock.shift d) state (steps.map (Step.shift d)) =
      (call.run limit clock state steps).shift d := by
  induction steps generalizing clock state with
  | nil =>
    rw [List.map_nil, run, run]
    split
    · rfl
    · exact block_shift []
  | cons step rest ih =>
    rw [List.map_cons]
    cases step with
    | delay ms =>
      have hready : (clock.shift d).now + ms = clock.now + ms + d := Nat.add_right_comm _ _ _
      rw [Step.shift_delay, run, run, hready]
      exact sleep_shift (some (clock.now + ms)) (.notBefore (clock.now + ms) :: rest)
        fun later => ih later state
    | notBefore moment =>
      rw [Step.shift_notBefore, run, run]
      exact sleep_shift (some moment) (.notBefore moment :: rest) fun later => ih later state
    | cancel =>
      rw [Step.shift_cancel, run, run, clock.cancel_shift]
      exact ih clock.cancel state
    | hang => exact block_shift (.hang :: rest)
    | error fault =>
      rw [Step.shift_error, run, run]
      split
      · exact ih clock state
      · rfl
    | act answer =>
      rw [Step.shift_act]
      cases hr : call.reply state answer with
      | pass next =>
        rw [run_act_pass hr, run_act_pass hr]
        exact ih clock next
      | block =>
        rw [run_act_block hr, run_act_block hr]
        exact block_shift (.act answer :: rest)
      | fail fault next => rw [run_act_fail hr, run_act_fail hr]; rfl
      | done value next front =>
        rw [run_act_done hr, run_act_done hr, Settled.shift, List.map_append,
          map_shift_of_putsBackAnswers hcall hr]

end Call

theorem Settled.moved_shift {σ α β : Type} {settled later : Settled σ α β} {d : Nat}
    {after after' : Ending β → σ → List (Step α) → Link} (hlater : later = settled.shift d)
    (h : ∀ ending state steps,
      after' ending state (steps.map (Step.shift d)) = (after ending state steps).shift d) :
    later.moved after' = (settled.moved after).shift d := by
  subst hlater
  simp only [moved, shift, Moved.shift, h]

theorem Moved.andThen_shift {m : Moved Unit} {d : Nat} {next next' : Link → Clock → Moved Unit}
    (h : ∀ link clock, next' (link.shift d) (clock.shift d) = (next link clock).shift d) :
    (m.shift d).andThen next' = (m.andThen next).shift d := by
  by_cases hd : m.ending = .done ()
  · rw [Moved.andThen_of_done next hd, Moved.andThen_of_done next' (by exact hd)]
    exact h m.link m.clock
  · rw [Moved.andThen_of_not_done next hd, Moved.andThen_of_not_done next' (by exact hd)]

namespace Link

variable (link : Link) (limit : Limit) (clock : Clock) (d : Nat)

theorem write_shift (data : Bytes) :
    (link.shift d).write data (limit.shift d) (clock.shift d) =
      (link.write data limit clock).shift d := by
  cases data with
  | nil => rfl
  | cons byte bytes =>
    rw [write_cons_eq, write_cons_eq]
    exact Settled.moved_shift (Call.run_shift (writing_putsBackAnswers _) _ _ _ _ d)
      fun _ _ _ => rfl

theorem flush_shift :
    (link.shift d).flush (limit.shift d) (clock.shift d) = (link.flush limit clock).shift d := by
  rw [flush_eq, flush_eq]
  exact Settled.moved_shift (Call.run_shift signalling_putsBackAnswers _ _ _ _ d) fun _ _ _ => rfl

theorem shutDown_shift :
    (link.shift d).shutDown (limit.shift d) (clock.shift d) =
      (link.shutDown limit clock).shift d := by
  rw [shutDown_eq, shutDown_eq]
  exact Settled.moved_shift (Call.run_shift signalling_putsBackAnswers _ _ _ _ d) fun _ _ _ => rfl

theorem read_shift (room : Nat) :
    (link.shift d).read room (limit.shift d) (clock.shift d) =
      (link.read room limit clock).shift d := by
  rw [read_eq, read_eq]
  exact Settled.moved_shift (Call.run_shift (reading_putsBackAnswers _ _ _) _ _ _ _ d)
    fun _ _ _ => rfl

theorem send_shift (data : Bytes) (halfClose : Bool) :
    (link.shift d).send data halfClose (limit.shift d) (clock.shift d) =
      (link.send data halfClose limit clock).shift d := by
  rw [send_eq_andThen, send_eq_andThen, write_shift]
  refine Moved.andThen_shift fun link clock => ?_
  rw [flush_shift]
  refine Moved.andThen_shift fun link clock => ?_
  cases halfClose
  · rfl
  · exact shutDown_shift link limit clock d

theorem sendAll_shift (data : Bytes) (settings : Replay.Settings) (halfClose : Bool) :
    (link.shift d).sendAll data settings halfClose (clock.shift d) =
      (link.sendAll data settings halfClose clock).shift d := by
  have hdeadline := settings.writeTimeout.deadline_add clock.now d
  unfold sendAll
  dsimp only [Clock.shift]
  rw [hdeadline]
  exact send_shift link ⟨settings.writeTimeout.deadline clock.now, true⟩ clock d data halfClose

theorem readNext_shift (timeout : Duration) :
    (link.shift d).readNext timeout (clock.shift d) =
      (link.readNext timeout clock).shift d := by
  have hdeadline := timeout.deadline_add clock.now d
  unfold readNext
  dsimp only [Clock.shift]
  rw [hdeadline]
  exact read_shift link ⟨timeout.deadline clock.now, true⟩ clock d captureRoom

theorem capture_shift (timeout : Duration) (received : Bytes) :
    (link.shift d).capture timeout (clock.shift d) received =
      (link.capture timeout clock received).shift d := by
  apply capture_induction timeout (P := fun link clock received turn =>
    (link.shift d).capture timeout (clock.shift d) received = turn.shift d)
  · intro link clock received hc
    rw [capture_of_cancelled timeout received (by rw [clock.isCancelled_shift, hc])]
    rfl
  · intro link clock received hc hd
    have hread := readNext_shift link clock d timeout
    rw [capture_of_over received (by rw [clock.isCancelled_shift, hc]) (by rw [hread]; exact hd),
      hread]
    rfl
  · intro link clock received bytes turn hc hd hb ih
    have hread := readNext_shift link clock d timeout
    rw [capture_of_more received (by rw [clock.isCancelled_shift, hc]) (by rw [hread]; exact hd) hb,
      hread]
    exact ih

/-- A turn that is taken `d` later goes the same way `d` later. -/
theorem exchange_shift (data : Bytes) (settings : Replay.Settings) (halfClose : Bool) :
    (link.shift d).exchange data settings halfClose (clock.shift d) =
      (link.exchange data settings halfClose clock).shift d := by
  have hsend := sendAll_shift link clock d data settings halfClose
  have hcan := clock.isCancelled_shift d
  cases hc : clock.isCancelled with
  | true =>
    rw [exchange_of_cancelled data settings halfClose hc,
      exchange_of_cancelled data settings halfClose (hcan.trans hc)]
    rfl
  | false =>
    by_cases hs : (link.sendAll data settings halfClose clock).ending = .done ()
    · rw [exchange_of_sent hc hs, exchange_of_sent (hcan.trans hc) (by rw [hsend]; exact hs), hsend]
      exact capture_shift _ _ _ _ _
    · rw [exchange_of_unsent hc hs, exchange_of_unsent (hcan.trans hc) (by rw [hsend]; exact hs),
        hsend]
      rfl

end Link

/-! ## Scripts to which no call has come -/

/-- No step of the script is a delay to which a call has come: it is as it was written. -/
structure PeerScript.IsUnbegun (script : PeerScript) : Prop where
  connect : ∀ moment, Step.notBefore moment ∉ script.connect
  write : ∀ moment, Step.notBefore moment ∉ script.write
  flush : ∀ moment, Step.notBefore moment ∉ script.flush
  shutdown : ∀ moment, Step.notBefore moment ∉ script.shutdown
  read : ∀ moment, Step.notBefore moment ∉ script.read

def Network.IsUnbegun (net : Network) : Prop := ∀ script ∈ net.peers, script.IsUnbegun

theorem PeerScript.isUnbegun_empty : ({} : PeerScript).IsUnbegun := by
  constructor <;> exact fun _ => List.not_mem_nil

theorem Network.IsUnbegun.peer {net : Network} (h : net.IsUnbegun) (attempt : Nat) :
    (net.peer attempt).IsUnbegun := by
  rcases net.peer_mem attempt with hm | he
  · exact h _ hm
  · rw [he]
    exact PeerScript.isUnbegun_empty

theorem map_shift_of_unbegun {α : Type} {steps : List (Step α)}
    (h : ∀ moment, Step.notBefore moment ∉ steps) (d : Nat) : steps.map (Step.shift d) = steps := by
  refine (List.map_congr_left fun step hm => ?_).trans (List.map_id steps)
  cases step with
  | notBefore moment => exact absurd hm (h moment)
  | _ => rfl

theorem PeerScript.IsUnbegun.shift_eq {script : PeerScript} (h : script.IsUnbegun) (d : Nat) :
    script.shift d = script := by
  rw [shift, map_shift_of_unbegun h.connect, map_shift_of_unbegun h.write,
    map_shift_of_unbegun h.flush, map_shift_of_unbegun h.shutdown, map_shift_of_unbegun h.read]

/-- The network as the attempts behind the first `k` meet it. -/
def Network.behind (net : Network) (k : Nat) : Network :=
  { net with peers := net.peers.drop (min k (net.peers.length - 1)) }

theorem Network.behind_zero (net : Network) : net.behind 0 = net := by
  rw [behind, Nat.zero_min, List.drop_zero]

theorem Network.peer_of_le (net : Network) {attempt : Nat}
    (h : net.peers.length ≤ attempt + 1) : net.peer attempt = net.peers.getLastD {} := by
  unfold peer
  rw [List.getD_eq_getElem?_getD]
  rcases Nat.lt_or_ge attempt net.peers.length with hlt | hge
  · have hlast : attempt = net.peers.length - 1 := by omega
    rw [hlast, ← List.getLast?_eq_getElem?, List.getLastD_eq_getLast?]
    cases hl : net.peers.getLast? with
    | none => rfl
    | some script => rfl
  · rw [List.getElem?_eq_none hge]
    rfl

theorem Network.getLastD_peers_behind (net : Network) (k : Nat) :
    (net.behind k).peers.getLastD {} = net.peers.getLastD {} := by
  rw [List.getLastD_eq_getLast?, List.getLastD_eq_getLast?]
  dsimp only [behind]
  rw [List.getLast?_drop]
  split_ifs with hle
  · have hnil : net.peers = [] := List.eq_nil_of_length_eq_zero (by omega)
    rw [hnil]
    rfl
  · rfl

theorem Network.peer_behind (net : Network) (k attempt : Nat) :
    (net.behind k).peer attempt = net.peer (k + attempt) := by
  rcases Nat.lt_or_ge k net.peers.length with hlt | hge
  · have hmin : min k (net.peers.length - 1) = k := by omega
    unfold peer
    rw [getLastD_peers_behind, List.getD_eq_getElem?_getD, List.getD_eq_getElem?_getD]
    dsimp only [behind]
    rw [List.getElem?_drop, hmin]
  · rw [net.peer_of_le (by omega), ← net.getLastD_peers_behind k]
    refine (net.behind k).peer_of_le ?_
    dsimp only [behind]
    rw [List.length_drop]
    omega

theorem Network.IsCalm.behind {net : Network} (h : net.IsCalm) (k : Nat) : (net.behind k).IsCalm :=
  fun script hm => h script (List.mem_of_mem_drop hm)

theorem Network.IsUnbegun.behind {net : Network} (h : net.IsUnbegun) (k : Nat) :
    (net.behind k).IsUnbegun := fun script hm => h script (List.mem_of_mem_drop hm)

theorem Network.dialing_shift {net : Network} (h : net.IsUnbegun) (k attempt : Nat)
    (timeout : Duration) (clock : Clock) (d : Nat) :
    net.dialing (k + attempt) timeout (clock.shift d) =
      ((net.behind k).dialing attempt timeout clock).shift d := by
  have hdeadline := timeout.deadline_add clock.now d
  have hconnect := map_shift_of_unbegun (h.peer (k + attempt)).connect d
  unfold dialing
  dsimp only [Clock.shift]
  rw [hdeadline, ← Call.run_shift dialing_putsBackAnswers, peer_behind, hconnect]
  rfl

theorem Network.dial_shift {net : Network} (h : net.IsUnbegun) (k attempt : Nat)
    (timeout : Duration) (clock : Clock) (d : Nat) :
    net.dial (k + attempt) timeout (clock.shift d) =
      (((net.behind k).dial attempt timeout clock).1,
        ((net.behind k).dial attempt timeout clock).2.shift d) := by
  rw [dial_eq, dial_eq, dialing_shift h]
  unfold dialed
  rw [peer_behind]
  rfl

theorem Network.shift_of_opened {net : Network} (h : net.IsUnbegun) {attempt : Nat}
    {timeout : Duration} {clock later : Clock} {link : Link}
    (hd : net.dial attempt timeout clock = (.opened link, later)) (d : Nat) :
    link.shift d = link := by
  have hpeer : ({ net.peer attempt with connect := [] } : PeerScript).IsUnbegun :=
    { h.peer attempt with connect := fun _ => List.not_mem_nil }
  rw [link_of_opened hd, Link.shift, hpeer.shift_eq]

end WireReplay
