import WireReplay.Wire.Clock
import WireReplay.Wire.Script

/-!
# Calls against a script

Every call on a connection, whatever its kind, walks along the list of steps that answers it: it
waits where the script waits, until its limit ends it, and takes the first answer that satisfies
it. What is left of the list answers the next call of that kind.
-/

namespace WireReplay

/-- What one answer of the script means to a call in state `σ`. The call may go on with the next
step, wait for good, fail, or succeed, with `rest` put back in front of the later steps. -/
inductive Reply (σ α β : Type)
  | pass (state : σ)
  | block
  | fail (fault : Fault) (state : σ)
  | done (value : β) (state : σ) (rest : List (Step α))

/-- A kind of call: what it makes of an answer, of the end of the script, where `none` means that
it waits for good, and which faults it takes for a reason to try again. -/
structure Call (σ α β : Type) where
  reply : σ → α → Reply σ α β
  atEnd : σ → Option (β × σ)
  retries : Fault → Bool := fun _ => false

inductive Ending (β : Type)
  | done (value : β)
  | failed (fault : Fault)
  | timedOut
  | cancelled
  | never
deriving DecidableEq, Repr

structure Settled (σ α β : Type) where
  ending : Ending β
  clock : Clock
  state : σ
  steps : List (Step α)

namespace Call

variable {σ α β : Type}

/-- Sleeps until `ready`. If something else ends the sleep, the call is over with the `left` steps
to be answered later; otherwise it goes on with the clock as it is then. -/
def sleep (limit : Limit) (ready : Option Nat) (clock : Clock) (state : σ)
    (left : List (Step α)) (onward : Clock → Settled σ α β) : Settled σ α β :=
  match clock.wait limit ready with
  | (.ready, clock) => onward clock
  | (.timedOut, clock) => ⟨.timedOut, clock, state, left⟩
  | (.cancelled, clock) => ⟨.cancelled, clock, state, left⟩
  | (.never, clock) => ⟨.never, clock, state, left⟩

def block (limit : Limit) (clock : Clock) (state : σ) (left : List (Step α)) : Settled σ α β :=
  sleep limit none clock state left fun clock => ⟨.never, clock, state, left⟩

def run (call : Call σ α β) (limit : Limit) (clock : Clock) (state : σ) :
    List (Step α) → Settled σ α β
  | [] =>
    match call.atEnd state with
    | some (value, state) => ⟨.done value, clock, state, []⟩
    | none => block limit clock state []
  | .delay ms :: rest =>
    sleep limit (some (clock.now + ms)) clock state (.notBefore (clock.now + ms) :: rest)
      fun clock => run call limit clock state rest
  | .notBefore moment :: rest =>
    sleep limit (some moment) clock state (.notBefore moment :: rest)
      fun clock => run call limit clock state rest
  | .cancel :: rest => run call limit clock.cancel state rest
  | .hang :: rest => block limit clock state (.hang :: rest)
  | .error fault :: rest =>
    if call.retries fault then run call limit clock state rest
    else ⟨.failed fault, clock, state, rest⟩
  | .act answer :: rest =>
    match call.reply state answer with
    | .pass state => run call limit clock state rest
    | .block => block limit clock state (.act answer :: rest)
    | .fail fault state => ⟨.failed fault, clock, state, rest⟩
    | .done value state front => ⟨.done value, clock, state, front ++ rest⟩

theorem run_act_pass {call : Call σ α β} {limit : Limit} {clock : Clock} {state next : σ}
    {answer : α} {rest : List (Step α)} (h : call.reply state answer = .pass next) :
    call.run limit clock state (.act answer :: rest) = call.run limit clock next rest := by
  rw [run, h]

theorem run_act_block {call : Call σ α β} {limit : Limit} {clock : Clock} {state : σ}
    {answer : α} {rest : List (Step α)} (h : call.reply state answer = .block) :
    call.run limit clock state (.act answer :: rest) =
      block limit clock state (.act answer :: rest) := by
  rw [run, h]

theorem run_act_fail {call : Call σ α β} {limit : Limit} {clock : Clock} {state next : σ}
    {answer : α} {rest : List (Step α)} {fault : Fault}
    (h : call.reply state answer = .fail fault next) :
    call.run limit clock state (.act answer :: rest) = ⟨.failed fault, clock, next, rest⟩ := by
  rw [run, h]

theorem run_act_done {call : Call σ α β} {limit : Limit} {clock : Clock} {state next : σ}
    {answer : α} {rest front : List (Step α)} {value : β}
    (h : call.reply state answer = .done value next front) :
    call.run limit clock state (.act answer :: rest) =
      ⟨.done value, clock, next, front ++ rest⟩ := by
  rw [run, h]

theorem exists_onward_of_sleep_done {limit : Limit} {ready : Option Nat} {clock : Clock} {state : σ}
    {left : List (Step α)} {onward : Clock → Settled σ α β} {value : β}
    (h : (sleep limit ready clock state left onward).ending = .done value) :
    ∃ later, sleep limit ready clock state left onward = onward later := by
  unfold sleep at h ⊢
  split at h
  · exact ⟨_, rfl⟩
  all_goals cases h

theorem block_ending_ne_done {limit : Limit} {clock : Clock} {state : σ} {left : List (Step α)}
    {value : β} : (block limit clock state left).ending ≠ .done value := by
  intro h
  obtain ⟨later, hs⟩ := exists_onward_of_sleep_done h
  rw [block, hs] at h
  cases h

end Call

end WireReplay
