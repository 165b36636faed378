import WireReplay.Proofs.Phases

/-!
# What goes out on a link

A write accepts a prefix of its data, and all of it if it is done. No other phase of a turn adds to
what was written, so a turn writes a prefix of its payload, and the whole payload if a reply was
waited for to its end.
-/

namespace WireReplay

/-- Whether the verdict could only be given after the payload had gone out whole. -/
def Verdict.isSent : Verdict → Bool
  | .closed => true
  | .silent => true
  | .readFailed _ => true
  | _ => false

namespace Link

variable {link : Link} {data : Bytes} {settings : Replay.Settings} {halfClose : Bool}
  {limit : Limit} {clock : Clock}

theorem writing_run_state_of_done (total : Nat) (steps : List (Step Nat)) (clock : Clock)
    (accepted : Nat) (h : ((writing total).run limit clock accepted steps).ending = .done ()) :
    total ≤ ((writing total).run limit clock accepted steps).state := by
  induction steps generalizing clock accepted with
  | nil => exact Nat.le_refl _
  | cons step rest ih =>
    cases step with
    | delay ms =>
      obtain ⟨later, hs⟩ := Call.exists_onward_of_sleep_done h
      simp only [Call.run, hs] at h ⊢
      exact ih later accepted h
    | notBefore moment =>
      obtain ⟨later, hs⟩ := Call.exists_onward_of_sleep_done h
      simp only [Call.run, hs] at h ⊢
      exact ih later accepted h
    | cancel => exact ih clock.cancel accepted h
    | hang => exact (Call.block_ending_ne_done h).elim
    | error fault =>
      simp only [Call.run] at h ⊢
      split at h <;> rename_i hr
      · rw [if_pos hr]
        exact ih clock accepted h
      · cases h
    | act n =>
      cases hr : (writing total).reply accepted n with
      | pass next => rw [Call.run_act_pass hr] at h ⊢; exact ih clock next h
      | block => simp only [writing] at hr; split at hr <;> (try split at hr) <;> cases hr
      | fail fault next => rw [Call.run_act_fail hr] at h; cases h
      | done value next front =>
        rw [Call.run_act_done hr]
        simp only [writing] at hr
        split at hr <;> (try split at hr) <;> cases hr
        exact Nat.le_refl _

theorem write_written (link : Link) (data : Bytes) (limit : Limit) (clock : Clock) :
    ∃ accepted, accepted <+: data ∧
      (link.write data limit clock).link.written = link.written ++ accepted ∧
      ((link.write data limit clock).ending = .done () → accepted = data) := by
  cases data with
  | nil => exact ⟨[], List.prefix_refl _, (List.append_nil _).symm, fun _ => rfl⟩
  | cons byte bytes =>
    refine ⟨_, List.take_prefix _ _, rfl, fun h => ?_⟩
    exact List.take_of_length_le (writing_run_state_of_done _ _ _ _ h)

theorem flush_written : (link.flush limit clock).link.written = link.written := rfl

theorem shutDown_written : (link.shutDown limit clock).link.written = link.written := rfl

theorem andThen_written {m : Moved Unit} {next : Link → Clock → Moved Unit}
    (h : ∀ link clock, (next link clock).link.written = link.written) :
    (m.andThen next).link.written = m.link.written := by
  by_cases hd : m.ending = .done ()
  · rw [Moved.andThen_of_done next hd, h]
  · rw [Moved.andThen_of_not_done next hd]

theorem done_of_andThen_done {m : Moved Unit} {next : Link → Clock → Moved Unit}
    (h : (m.andThen next).ending = .done ()) : m.ending = .done () := by
  by_cases hd : m.ending = .done ()
  · exact hd
  · rwa [Moved.andThen_of_not_done next hd] at h

theorem send_written (link : Link) (data : Bytes) (halfClose : Bool) (limit : Limit)
    (clock : Clock) :
    ∃ accepted, accepted <+: data ∧
      (link.send data halfClose limit clock).link.written = link.written ++ accepted ∧
      ((link.send data halfClose limit clock).ending = .done () → accepted = data) := by
  obtain ⟨accepted, hp, hw, hd⟩ := link.write_written data limit clock
  refine ⟨accepted, hp, ?_, ?_⟩
  · rw [send_eq_andThen, andThen_written, hw]
    intro link clock
    rw [andThen_written, flush_written]
    intro link clock
    cases halfClose with
    | false => rfl
    | true => exact shutDown_written
  · intro h
    rw [send_eq_andThen] at h
    exact hd (done_of_andThen_done h)

theorem capture_keeps {α : Type} (f : Link → α)
    (hf : ∀ link timeout clock, f (readNext link timeout clock).link = f link)
    (link : Link) (timeout : Duration) (clock : Clock) (received : Bytes) :
    f (link.capture timeout clock received).link = f link := by
  apply capture_induction timeout (P := fun link _ _ turn => f turn.link = f link)
  · intro link clock received _
    rfl
  · intro link clock received _ _
    exact hf _ _ _
  · intro link clock received bytes turn _ _ _ ih
    rw [ih, hf]

theorem capture_written (link : Link) (timeout : Duration) (clock : Clock) (received : Bytes) :
    (link.capture timeout clock received).link.written = link.written :=
  capture_keeps (·.written) (fun _ _ _ => rfl) link timeout clock received

theorem unsentVerdict_not_sent {timeout : Duration} {ending : Ending Unit} {v : Verdict}
    (h : ending.unsentVerdict timeout = some v) : v.isSent = false := by
  cases ending <;> cases h <;> rfl

/-- A turn writes a prefix of its payload, and all of it unless sending was what ended it. -/
theorem exchange_written (link : Link) (data : Bytes) (settings : Replay.Settings)
    (halfClose : Bool) (clock : Clock) :
    ∃ accepted, accepted <+: data ∧
      (link.exchange data settings halfClose clock).link.written = link.written ++ accepted ∧
      ∀ v, (link.exchange data settings halfClose clock).verdict = some v → v.isSent = true →
        accepted = data := by
  cases hc : clock.isCancelled with
  | true =>
    rw [exchange_of_cancelled data settings halfClose hc]
    refine ⟨[], List.nil_prefix, (List.append_nil _).symm, ?_⟩
    intro v hv hs
    cases hv
    cases hs
  | false =>
    obtain ⟨accepted, hp, hw, hd⟩ :=
      link.send_written data halfClose ⟨settings.writeTimeout.deadline clock.now, true⟩ clock
    by_cases hs : (link.sendAll data settings halfClose clock).ending = .done ()
    · rw [exchange_of_sent hc hs]
      exact ⟨accepted, hp, (capture_written _ _ _ _).trans hw, fun _ _ _ => hd hs⟩
    · rw [exchange_of_unsent hc hs]
      refine ⟨accepted, hp, hw, ?_⟩
      intro v hv hsent
      rw [unsentVerdict_not_sent hv] at hsent
      cases hsent

end Link

theorem Network.written_of_opened {net : Network} {attempt : Nat} {timeout : Duration}
    {clock later : Clock} {link : Link}
    (hd : net.dial attempt timeout clock = (.opened link, later)) : link.written = [] := by
  rw [link_of_opened hd]

end WireReplay
