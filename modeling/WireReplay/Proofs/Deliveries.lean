import WireReplay.Proofs.Calm

/-!
# Whole deliveries

What a peer delivers at once comes in as many reads as the reader's room asks for. Below, a delivery
is taken whole, whatever the room: a read is a delivery of which the part that did not fit is still
pending, and pending bytes are there without any wait. A capture is therefore a sequence of whole
deliveries, and the size of its buffer cannot be told from what it captures.
-/

namespace WireReplay

/-- The same settled call with only so much `room` for what it delivers. -/
def Settled.clip (room : Nat) (settled : Settled Bytes Delivery Bytes) :
    Settled Bytes Delivery Bytes :=
  match settled.ending with
  | .done bytes =>
    { settled with
      ending := .done (bytes.take room)
      steps := Link.leftover (bytes.drop room) ++ settled.steps }
  | _ => settled

def Reply.clip (room : Nat) : Reply Bytes Delivery Bytes → Reply Bytes Delivery Bytes
  | .done bytes unechoed front =>
    .done (bytes.take room) unechoed (Link.leftover (bytes.drop room) ++ front)
  | reply => reply

theorem Call.clip_sleep (room : Nat) (limit : Limit) (ready : Option Nat) (clock : Clock)
    (state : Bytes) (left : List (Step Delivery)) (onward : Clock → Settled Bytes Delivery Bytes) :
    (sleep limit ready clock state left onward).clip room =
      sleep limit ready clock state left fun later => (onward later).clip room := by
  unfold sleep
  split <;> rfl

theorem Call.clip_block (room : Nat) (limit : Limit) (clock : Clock) (state : Bytes)
    (left : List (Step Delivery)) :
    (block limit clock state left : Settled Bytes Delivery Bytes).clip room =
      block limit clock state left := by
  rw [block, clip_sleep]
  rfl

namespace Link

/-- Reading with room for whatever the peer delivers. -/
def delivering (written : Nat) (isShutDown : Bool) : Call Bytes Delivery Bytes where
  reply unechoed
    | .data bytes => .done bytes unechoed []
    | .eof => .done [] unechoed [.act .eof]
    | .awaitWritten count => if count ≤ written then .pass unechoed else .block
    | .awaitShutdown => if isShutDown then .pass unechoed else .block
    | .echo => if unechoed.isEmpty then .pass unechoed else .done unechoed [] []
  atEnd _ := none

theorem delivering_putsBackAnswers (written : Nat) (isShutDown : Bool) :
    (delivering written isShutDown).PutsBackAnswers := by
  intro unechoed answer value next front hr step hm
  cases answer with
  | data bytes => cases hr; cases hm
  | eof => cases hr; exact ⟨_, List.mem_singleton.1 hm⟩
  | echo => simp only [delivering] at hr; split_ifs at hr; cases hr; cases hm
  | awaitWritten count => simp only [delivering] at hr; split_ifs at hr
  | awaitShutdown => simp only [delivering] at hr; split_ifs at hr

theorem reading_reply_eq_clip (room written : Nat) (isShutDown : Bool) (unechoed : Bytes)
    (answer : Delivery) :
    (reading room written isShutDown).reply unechoed answer =
      ((delivering written isShutDown).reply unechoed answer).clip room := by
  cases answer with
  | data bytes => exact congrArg (Reply.done _ _) (List.append_nil _).symm
  | eof => rw [reading, delivering, Reply.clip, List.take_nil, List.drop_nil]; rfl
  | awaitWritten count => simp only [reading, delivering]; split_ifs <;> rfl
  | awaitShutdown => simp only [reading, delivering]; split_ifs <;> rfl
  | echo =>
    simp only [reading, delivering]
    by_cases h : unechoed.isEmpty = true
    · rw [if_pos h, if_pos h]
      rfl
    · rw [if_neg h, if_neg h]
      exact congrArg (Reply.done _ _) (List.append_nil _).symm

/-- A read is a whole delivery of which the part that does not fit is put back. -/
theorem reading_run_eq_clip (room written : Nat) (isShutDown : Bool) (limit : Limit) (clock : Clock)
    (unechoed : Bytes) (steps : List (Step Delivery)) :
    (reading room written isShutDown).run limit clock unechoed steps =
      ((delivering written isShutDown).run limit clock unechoed steps).clip room := by
  induction steps generalizing clock unechoed with
  | nil => exact (Call.clip_block room limit clock unechoed []).symm
  | cons step rest ih =>
    cases step with
    | delay ms => simp only [Call.run, Call.clip_sleep, ih]
    | notBefore moment => simp only [Call.run, Call.clip_sleep, ih]
    | cancel => exact ih clock.cancel unechoed
    | hang => exact (Call.clip_block room limit clock unechoed _).symm
    | error fault => rfl
    | act answer =>
      have hreply := reading_reply_eq_clip room written isShutDown unechoed answer
      cases hr : (delivering written isShutDown).reply unechoed answer with
      | pass next =>
        rw [hr] at hreply
        rw [Call.run_act_pass hr, Call.run_act_pass hreply]
        exact ih clock next
      | block =>
        rw [hr] at hreply
        rw [Call.run_act_block hr, Call.run_act_block hreply]
        exact (Call.clip_block room limit clock unechoed _).symm
      | fail fault next =>
        rw [hr] at hreply
        rw [Call.run_act_fail hr, Call.run_act_fail hreply]
        rfl
      | done value next front =>
        rw [hr] at hreply
        rw [Call.run_act_done hr, Call.run_act_done hreply, List.append_assoc]
        rfl

def afterDelivery (link : Link) (_ : Ending Bytes) (unechoed : Bytes)
    (read : List (Step Delivery)) : Link :=
  { link with script := { link.script with read }, unechoed }

def deliver (link : Link) (limit : Limit) (clock : Clock) : Moved Bytes :=
  ((delivering link.written.length link.isShutDown).run limit clock link.unechoed
    link.script.read).moved link.afterDelivery

theorem deliver_cases (link : Link) (limit : Limit) (clock : Clock) :
    (∃ bytes later after, bytes ≠ [] ∧
      link.deliver limit clock = ⟨.done bytes, later, after⟩) ∨
    ∀ bytes, (link.deliver limit clock).ending = .done bytes → bytes = [] := by
  rcases link.deliver limit clock with ⟨ending, later, after⟩
  by_cases hmore : ∃ bytes, ending = .done bytes ∧ bytes ≠ []
  · obtain ⟨bytes, rfl, hb⟩ := hmore
    exact .inl ⟨bytes, later, after, hb, rfl⟩
  · exact .inr fun bytes he => Classical.not_not.1 fun hb => hmore ⟨bytes, he, hb⟩

/-- The link on which `bytes` were delivered and not read yet. -/
def pending (link : Link) (bytes : Bytes) : Link :=
  { link with script := { link.script with read := leftover bytes ++ link.script.read } }

def took (link : Link) (bytes : Bytes) : Link :=
  { link with delivered := link.delivered ++ bytes }

@[simp] theorem pending_nil (link : Link) : link.pending [] = link := rfl

@[simp] theorem took_nil (link : Link) : link.took [] = link := by
  rw [took, List.append_nil]

theorem took_took (link : Link) (bytes more : Bytes) :
    (link.took bytes).took more = link.took (bytes ++ more) := by
  simp only [took, List.append_assoc]

theorem read_of_delivered {link after : Link} {limit : Limit} {clock later : Clock} {bytes : Bytes}
    (room : Nat) (h : link.deliver limit clock = ⟨.done bytes, later, after⟩) :
    link.read room limit clock =
      ⟨.done (bytes.take room), later,
        (after.pending (bytes.drop room)).took (bytes.take room)⟩ := by
  rw [read_eq, reading_run_eq_clip]
  unfold deliver at h
  generalize (delivering link.written.length link.isShutDown).run limit clock link.unechoed
    link.script.read = settled at h
  obtain ⟨ending, clock', state, steps⟩ := settled
  cases h
  rfl

theorem read_of_not_delivered {link : Link} {limit : Limit} {clock : Clock} (room : Nat)
    (h : ∀ bytes, (link.deliver limit clock).ending ≠ .done bytes) :
    link.read room limit clock = link.deliver limit clock := by
  rw [read_eq, reading_run_eq_clip]
  unfold deliver at h ⊢
  generalize (delivering link.written.length link.isShutDown).run limit clock link.unechoed
    link.script.read = settled at h ⊢
  obtain ⟨ending, clock', state, steps⟩ := settled
  cases ending with
  | done bytes => exact absurd rfl (h bytes)
  | _ => rfl

theorem read_eq_deliver {link : Link} {limit : Limit} {clock : Clock} (room : Nat)
    (h : ∀ bytes, (link.deliver limit clock).ending = .done bytes → bytes = []) :
    link.read room limit clock = link.deliver limit clock := by
  rcases hd : link.deliver limit clock with ⟨ending, later, after⟩
  rw [hd] at h
  by_cases hdone : ∃ bytes, ending = .done bytes
  · obtain ⟨bytes, rfl⟩ := hdone
    cases h bytes rfl
    refine (read_of_delivered room hd).trans ?_
    rw [List.drop_nil, List.take_nil, pending_nil, took_nil]
  · refine (read_of_not_delivered room ?_).trans hd
    rw [hd]
    exact fun bytes he => hdone ⟨bytes, he⟩

theorem read_pending (link : Link) {bytes : Bytes} (hb : bytes ≠ []) (room : Nat) (limit : Limit)
    (clock : Clock) :
    (link.pending bytes).read room limit clock =
      ⟨.done (bytes.take room), clock,
        (link.pending (bytes.drop room)).took (bytes.take room)⟩ := by
  cases bytes with
  | nil => exact absurd rfl hb
  | cons => rfl

theorem take_ne_nil {bytes : Bytes} (hb : bytes ≠ []) {room : Nat} (hroom : 0 < room) :
    bytes.take room ≠ [] := by
  intro h
  rcases List.take_eq_nil_iff.1 h with h | h
  · omega
  · exact hb h

theorem length_drop_lt {bytes : Bytes} (hb : bytes ≠ []) {room : Nat} (hroom : 0 < room) :
    (bytes.drop room).length < bytes.length := by
  have hpos := List.length_pos_iff.2 hb
  rw [List.length_drop]
  omega

/-- A capture takes what is pending, in as many reads as it needs. -/
theorem capture_pending (link : Link) (timeout : Duration) {clock : Clock} (received bytes : Bytes)
    (hc : clock.isCancelled = false) :
    (link.pending bytes).capture timeout clock received =
      (link.took bytes).capture timeout clock (received ++ bytes) := by
  induction hn : bytes.length using Nat.strongRecOn generalizing link received bytes with
  | ind n ih =>
    by_cases hb : bytes = []
    · rw [hb, pending_nil, took_nil, List.append_nil]
    · have hread := read_pending link hb captureRoom ⟨timeout.deadline clock.now, true⟩ clock
      have hnext : (link.pending bytes).readNext timeout clock = _ := hread
      have hlt : (bytes.drop captureRoom).length < bytes.length := length_drop_lt hb (by decide)
      rw [capture_of_more received hc (congrArg Moved.ending hnext) (take_ne_nil hb (by decide)),
        hnext]
      have hrest := ih _ (hn ▸ hlt) (link.took (bytes.take captureRoom))
        (received ++ bytes.take captureRoom) (bytes.drop captureRoom) rfl
      rw [took_took, List.append_assoc, List.take_append_drop] at hrest
      exact hrest

section Capture

variable {link after : Link} {timeout : Duration} {clock later : Clock} {bytes : Bytes}

theorem capture_of_delivered (received : Bytes) (hc : clock.isCancelled = false)
    (hlater : later.isCancelled = false) (hb : bytes ≠ [])
    (h : link.deliver ⟨timeout.deadline clock.now, true⟩ clock = ⟨.done bytes, later, after⟩) :
    link.capture timeout clock received =
      (after.took bytes).capture timeout later (received ++ bytes) := by
  have hnext : link.readNext timeout clock = _ := read_of_delivered captureRoom h
  have hpending := capture_pending (after.took (bytes.take captureRoom)) timeout
    (received ++ bytes.take captureRoom) (bytes.drop captureRoom) hlater
  rw [took_took, List.append_assoc, List.take_append_drop] at hpending
  rw [capture_of_more received hc (congrArg Moved.ending hnext) (take_ne_nil hb (by decide)), hnext]
  exact hpending

theorem capture_of_not_delivered (received : Bytes) (hc : clock.isCancelled = false)
    (h : ∀ bytes, (link.deliver ⟨timeout.deadline clock.now, true⟩ clock).ending = .done bytes →
      bytes = []) :
    link.capture timeout clock received =
      ⟨(link.deliver ⟨timeout.deadline clock.now, true⟩ clock).ending.lastVerdict, received,
        (link.deliver ⟨timeout.deadline clock.now, true⟩ clock).clock,
        (link.deliver ⟨timeout.deadline clock.now, true⟩ clock).link⟩ := by
  have hnext : link.readNext timeout clock =
      link.deliver ⟨timeout.deadline clock.now, true⟩ clock := read_eq_deliver captureRoom h
  rw [capture_of_over received hc (by rw [hnext]; exact h), hnext]

end Capture

theorem backlog_lt_of_delivered {link after : Link} {limit : Limit} {clock later : Clock}
    {bytes : Bytes} (hb : bytes ≠ [])
    (h : link.deliver limit clock = ⟨.done bytes, later, after⟩) :
    (after.took bytes).backlog < link.backlog := by
  have hread := read_of_delivered bytes.length h
  rw [List.take_length, List.drop_length, pending_nil] at hread
  exact backlog_lt_of_read hread hb

theorem deliver_isCalm {link : Link} (h : link.script.IsCalm) (limit : Limit) (clock : Clock) :
    (link.deliver limit clock).IsCalm clock.cancelAt := by
  have hrun := Call.run_isCalm (delivering_putsBackAnswers link.written.length link.isShutDown)
    limit clock link.unechoed link.script.read h.read
  exact ⟨hrun.cancelAt_eq, { h with read := hrun.steps }⟩

end Link

end WireReplay
