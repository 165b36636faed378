import WireReplay.Proofs.Deliveries

/-!
# Calls that are granted

A list of steps grants its calls if each step is a delay or an answer with which the call gets on.
Such a call is done when the delays before its answer are over, unless its deadline passes before
that. So a peer that only ever delays what it grants can be connected to and sent to, in no more
time than its delays take.
-/

namespace WireReplay

/-- The steps are delays, of `pause` in all, and answers of which `good` holds. -/
inductive Granting {α : Type} (good : α → Prop) : Nat → List (Step α) → Prop
  | nil : Granting good 0 []
  | delay {pause : Nat} {rest : List (Step α)} (ms : Nat) (h : Granting good pause rest) :
      Granting good (ms + pause) (.delay ms :: rest)
  | act {pause : Nat} {rest : List (Step α)} {answer : α} (hg : good answer)
      (h : Granting good pause rest) : Granting good pause (.act answer :: rest)

/-- A good answer lets such a call go on or makes it done, and the end of the list makes it done. -/
structure Call.GetsOn {σ α β : Type} (call : Call σ α β) (good : α → Prop) (value : β)
    (final : σ) : Prop where
  reply : ∀ state answer, good answer →
    (∃ next, call.reply state answer = .pass next) ∨
      call.reply state answer = .done value final []
  atEnd : ∀ state, call.atEnd state = some (value, final)

/-- The limit lets a call that begins at `now` go on for so many milliseconds. -/
def Limit.Allows (limit : Limit) (now ms : Nat) : Prop :=
  ∀ deadline, limit.deadline = some deadline → now + ms ≤ deadline

theorem Limit.Allows.mono {limit : Limit} {now ms ms' : Nat} (h : limit.Allows now ms)
    (hle : ms' ≤ ms) : limit.Allows now ms' :=
  fun deadline hd => Nat.le_trans (Nat.add_le_add_left hle now) (h deadline hd)

theorem Limit.Allows.later {limit : Limit} {now spent ms : Nat}
    (h : limit.Allows now (spent + ms)) : limit.Allows (now + spent) ms :=
  fun deadline hd => by rw [Nat.add_assoc]; exact h deadline hd

theorem Duration.millis_le_ticks (d : Duration) : d.millis ≤ d.ticks :=
  Nat.div_le_div_right (Nat.le_add_right _ _)

theorem Duration.allows {timeout : Duration} {ms : Nat} (h : ms ≤ timeout.millis) (now : Nat)
    (cancellable : Bool) : Limit.Allows ⟨timeout.deadline now, cancellable⟩ now ms := by
  intro deadline (hd : timeout.deadline now = some deadline)
  rw [Duration.deadline] at hd
  split_ifs at hd
  cases hd
  exact Nat.add_le_add_left (Nat.le_trans h timeout.millis_le_ticks) now

theorem Clock.wait_of_allows {limit : Limit} {now ms : Nat} (h : limit.Allows now ms) :
    Clock.wait ⟨now, none⟩ limit (some (now + ms)) = (.ready, ⟨now + ms, none⟩) := by
  have hheeded : Clock.heeded ⟨now, none⟩ limit = none := ite_self none
  unfold Limit.Allows at h
  unfold wait
  rw [hheeded]
  generalize limit.deadline = deadline at h
  by_cases hms : ms = 0
  · simp [hms]
  · have hready : ¬ now + ms ≤ now := by omega
    cases deadline with
    | none => simp [hready, advance]
    | some d =>
      have hd := h d rfl
      have hopen : ¬ d ≤ now := by omega
      simp [hready, hopen, hd, advance]

namespace Call

variable {σ α β : Type} {call : Call σ α β} {limit : Limit} {now ms pause : Nat}

theorem sleep_of_allows (state : σ) (left : List (Step α)) (onward : Clock → Settled σ α β)
    (h : limit.Allows now ms) :
    sleep limit (some (now + ms)) ⟨now, none⟩ state left onward = onward ⟨now + ms, none⟩ := by
  rw [sleep, Clock.wait_of_allows h]

/-- A call that is granted is done, after some of the delays; the others are left. -/
theorem run_of_granting {good : α → Prop} {value : β} {final : σ} (h : call.GetsOn good value final)
    (state : σ) {steps : List (Step α)} (hs : Granting good pause steps)
    (ha : limit.Allows now pause) :
    ∃ spent saved rest,
      call.run limit ⟨now, none⟩ state steps = ⟨.done value, ⟨now + spent, none⟩, final, rest⟩ ∧
        Granting good saved rest ∧ spent + saved = pause := by
  induction hs generalizing state now with
  | nil =>
    refine ⟨0, 0, [], ?_, .nil, rfl⟩
    rw [run, h.atEnd]
    rfl
  | delay ms hrest ih =>
    obtain ⟨spent, saved, left, hrun, hleft, hsum⟩ := ih state ha.later
    refine ⟨ms + spent, saved, left, ?_, hleft, by omega⟩
    rw [run, sleep_of_allows _ _ _ (ha.mono (Nat.le_add_right _ _)), hrun, Nat.add_assoc]
  | act hg hrest ih =>
    rcases h.reply state _ hg with ⟨next, hr⟩ | hr
    · obtain ⟨spent, saved, left, hrun, hleft, hsum⟩ := ih next ha
      exact ⟨spent, saved, left, (run_act_pass hr).trans hrun, hleft, hsum⟩
    · exact ⟨0, _, _, run_act_done hr, hrest, Nat.zero_add _⟩

end Call

theorem dialing_getsOn : dialing.GetsOn (fun _ => True) () () where
  reply _ answer := nomatch answer
  atEnd _ := rfl

def Network.link (net : Network) (attempt : Nat) : Link :=
  { script := { net.peer attempt with connect := [] } }

theorem Network.dial_of_granting {net : Network} {attempt pause : Nat} {timeout : Duration}
    (now : Nat) (hs : Granting (fun _ => True) pause (net.peer attempt).connect)
    (hle : pause ≤ timeout.millis) :
    ∃ spent, spent ≤ pause ∧ net.dial attempt timeout ⟨now, none⟩ =
      (.opened (net.link attempt), ⟨now + spent, none⟩) := by
  obtain ⟨spent, saved, rest, hrun, -, hsum⟩ :=
    Call.run_of_granting dialing_getsOn () hs (Duration.allows hle now true)
  refine ⟨spent, by omega, ?_⟩
  have hdialing : net.dialing attempt timeout ⟨now, none⟩ = _ := hrun
  rw [dial_eq, hdialing]
  rfl

namespace Link

theorem writing_getsOn (total : Nat) : (writing total).GetsOn (0 < ·) () total where
  reply accepted n hn := by
    simp only [writing, if_neg (Nat.pos_iff_ne_zero.1 hn)]
    split_ifs
    · exact .inr rfl
    · exact .inl ⟨_, rfl⟩
  atEnd _ := rfl

theorem signalling_getsOn : signalling.GetsOn (fun _ => True) () () where
  reply _ _ _ := .inr rfl
  atEnd _ := rfl

def sent (link : Link) (data : Bytes) (halfClose : Bool) (write : List (Step Nat))
    (flush shutdown : List (Step Unit)) : Link :=
  { link with
    script := { link.script with write, flush, shutdown }
    written := link.written ++ data
    unechoed := link.unechoed ++ data
    flushes := link.flushes + 1
    isShutDown := link.isShutDown || halfClose }

variable {link : Link} {limit : Limit} {now pause : Nat}

theorem write_of_granting (data : Bytes) (hs : Granting (0 < ·) pause link.script.write)
    (ha : limit.Allows now pause) :
    ∃ spent saved write,
      link.write data limit ⟨now, none⟩ = ⟨.done (), ⟨now + spent, none⟩,
        { link with
          script := { link.script with write }
          written := link.written ++ data
          unechoed := link.unechoed ++ data }⟩ ∧
      Granting (0 < ·) saved write ∧ spent + saved = pause := by
  cases data with
  | nil =>
    refine ⟨0, pause, link.script.write, ?_, hs, Nat.zero_add _⟩
    simp [write]
  | cons byte bytes =>
    obtain ⟨spent, saved, left, hrun, hleft, hsum⟩ :=
      Call.run_of_granting (writing_getsOn (byte :: bytes).length) 0 hs ha
    refine ⟨spent, saved, left, ?_, hleft, hsum⟩
    rw [write_cons_eq, hrun]
    simp only [Settled.moved, afterWrite, List.take_length]

theorem signalling_run_of_granting {steps : List (Step Unit)}
    (hs : Granting (fun _ => True) 0 steps) (ha : limit.Allows now 0) :
    ∃ rest, signalling.run limit ⟨now, none⟩ () steps = ⟨.done (), ⟨now, none⟩, (), rest⟩ ∧
      Granting (fun _ => True) 0 rest := by
  obtain ⟨spent, saved, rest, hrun, hrest, hsum⟩ :=
    Call.run_of_granting signalling_getsOn () hs ha
  obtain ⟨rfl, rfl⟩ := Nat.add_eq_zero_iff.1 hsum
  exact ⟨rest, hrun, hrest⟩

theorem send_of_granting (data : Bytes) (halfClose : Bool)
    (hw : Granting (0 < ·) pause link.script.write)
    (hf : Granting (fun _ => True) 0 link.script.flush)
    (hd : halfClose = true → Granting (fun _ => True) 0 link.script.shutdown)
    (ha : limit.Allows now pause) :
    ∃ spent saved write flush shutdown,
      link.send data halfClose limit ⟨now, none⟩ =
        ⟨.done (), ⟨now + spent, none⟩, link.sent data halfClose write flush shutdown⟩ ∧
      Granting (0 < ·) saved write ∧ Granting (fun _ => True) 0 flush ∧
      spent + saved = pause := by
  obtain ⟨spent, saved, write, hwrite, hsaved, rfl⟩ := write_of_granting data hw ha
  have hlater : limit.Allows (now + spent) 0 := ha.later.mono (Nat.zero_le _)
  obtain ⟨flush, hflush, hflushed⟩ := signalling_run_of_granting hf hlater
  rw [send_eq_andThen, hwrite, Moved.andThen_of_done _ rfl, flush_eq]
  dsimp only
  rw [hflush, Moved.andThen_of_done _ rfl]
  cases halfClose with
  | false =>
    refine ⟨spent, saved, write, flush, link.script.shutdown, ?_, hsaved, hflushed, rfl⟩
    simp [Settled.moved, afterFlush, sent]
  | true =>
    obtain ⟨shutdown, hshutdown, -⟩ := signalling_run_of_granting (hd rfl) hlater
    refine ⟨spent, saved, write, flush, shutdown, ?_, hsaved, hflushed, rfl⟩
    rw [if_pos rfl, shutDown_eq]
    dsimp only [Settled.moved, afterFlush]
    rw [hshutdown]
    simp [afterShutDown, sent]

theorem exchange_of_granting (link : Link) (data : Bytes) {settings : Replay.Settings}
    (halfClose : Bool) (now : Nat) (hw : Granting (0 < ·) pause link.script.write)
    (hf : Granting (fun _ => True) 0 link.script.flush)
    (hd : halfClose = true → Granting (fun _ => True) 0 link.script.shutdown)
    (hle : pause ≤ settings.writeTimeout.millis) :
    ∃ spent saved write flush shutdown,
      link.exchange data settings halfClose ⟨now, none⟩ =
        (link.sent data halfClose write flush shutdown).capture settings.readTimeout
          ⟨now + spent, none⟩ [] ∧
      Granting (0 < ·) saved write ∧ Granting (fun _ => True) 0 flush ∧
      spent + saved = pause := by
  obtain ⟨spent, saved, write, flush, shutdown, hsend, hleft⟩ :=
    send_of_granting data halfClose hw hf hd (Duration.allows hle now true)
  have hsent : link.sendAll data settings halfClose ⟨now, none⟩ = _ := hsend
  refine ⟨spent, saved, write, flush, shutdown, ?_, hleft⟩
  rw [exchange_of_sent rfl (congrArg Moved.ending hsent), hsent]

end Link

end WireReplay
