import WireReplay.Proofs.Phases

/-!
# Verdicts and their texts

Which verdicts the phases of a turn can give, and what the text of a verdict tells about it: from
the text alone it can be seen that a payload did not go out whole.
-/

namespace WireReplay

def Verdict.isUnsent : Verdict → Bool
  | .connectFailed _ _ => true
  | .connectTimedOut _ _ => true
  | .writeFailed _ => true
  | .writeTimedOut _ => true
  | _ => false

/-- What the texts of failed and expired attempts to connect and to write begin with. -/
def unsentOpenings : List String :=
  ["Failed to connect to ", "Connection to ", "write failed: ", "write timed out after "]

/-- A text that reports that connecting or writing failed or took too long. -/
def ReportsUnsent (text : String) : Prop :=
  ∃ opening ∈ unsentOpenings, ∃ rest, text = opening ++ rest

theorem ReportsUnsent.head_ne {text : String} (h : ReportsUnsent text) :
    text.toList.head? ≠ some 'r' := by
  obtain ⟨opening, hm, rest, rfl⟩ := h
  simp only [unsentOpenings, List.mem_cons, List.not_mem_nil, or_false] at hm
  rcases hm with rfl | rfl | rfl | rfl <;> simp

namespace Verdict

theorem outcome_ne_closedEarly (v : Verdict) : v.outcome ≠ .connectionClosedEarly := by
  cases v <;> simp [outcome]

theorem outcome_of_ne {v : Verdict} (hs : v ≠ .silent) (hc : v ≠ .cancelled) :
    v.outcome = .ok ∨ v.outcome = .ioError := by
  cases v <;> simp_all [outcome]

theorem error_eq_none_iff (v : Verdict) :
    v.error = none ↔ v.outcome = .ok ∨ v.outcome = .timeout := by
  cases v <;> simp [error, outcome]

theorem isUnsent_of_reportsUnsent {v : Verdict} {text : String} (he : v.error = some text)
    (h : ReportsUnsent text) : v.isUnsent = true := by
  cases v with
  | readFailed fault =>
    cases he
    exact absurd (by simp [toString]) h.head_ne
  | cancelled =>
    cases he
    exact absurd (by decide) h.head_ne
  | closed => cases he
  | silent => cases he
  | _ => rfl

theorem reportsUnsent_of_isUnsent {v : Verdict} {text : String} (he : v.error = some text)
    (h : v.isUnsent = true) : ReportsUnsent text := by
  cases v with
  | connectFailed target fault =>
    have ht : text = "Failed to connect to " ++ target ++ ": " ++ fault.describe :=
      (Option.some.inj he).symm
    refine ⟨"Failed to connect to ", by simp [unsentOpenings],
      target ++ (": " ++ fault.describe), ?_⟩
    rw [ht, String.append_assoc, String.append_assoc]
  | connectTimedOut target millis =>
    have ht : text =
        "Connection to " ++ target ++ " timed out after " ++ toString millis ++ " ms" :=
      (Option.some.inj he).symm
    refine ⟨"Connection to ", by simp [unsentOpenings],
      target ++ (" timed out after " ++ (toString millis ++ " ms")), ?_⟩
    rw [ht, String.append_assoc, String.append_assoc, String.append_assoc]
  | writeFailed fault =>
    exact ⟨"write failed: ", by simp [unsentOpenings], fault.describe, (Option.some.inj he).symm⟩
  | writeTimedOut millis =>
    have ht : text = "write timed out after " ++ toString millis ++ " ms" :=
      (Option.some.inj he).symm
    refine ⟨"write timed out after ", by simp [unsentOpenings], toString millis ++ " ms", ?_⟩
    rw [ht, String.append_assoc]
  | _ => cases h

/-- The text of a verdict tells whether the payload went out whole. -/
theorem reportsUnsent_iff {v : Verdict} {text : String} (he : v.error = some text) :
    ReportsUnsent text ↔ v.isUnsent = true :=
  ⟨isUnsent_of_reportsUnsent he, reportsUnsent_of_isUnsent he⟩

end Verdict

namespace Link

theorem capture_verdict_sent (link : Link) (timeout : Duration) (clock : Clock) (received : Bytes)
    {v : Verdict} (hv : (link.capture timeout clock received).verdict = some v) :
    v.isUnsent = false := by
  revert v
  apply capture_induction timeout (P := fun _ _ _ turn =>
    ∀ v, turn.verdict = some v → v.isUnsent = false)
  · intro link clock received _ v hv
    cases hv
    rfl
  · intro link clock received _ _ v hv
    generalize (link.readNext timeout clock).ending = ending at hv
    cases ending <;> cases hv <;> rfl
  · intro link clock received bytes turn _ _ _ ih
    exact ih

theorem exchange_received_of_unsent {link : Link} {data : Bytes} {settings : Replay.Settings}
    {halfClose : Bool} {clock : Clock} {v : Verdict}
    (hv : (link.exchange data settings halfClose clock).verdict = some v)
    (hu : v.isUnsent = true) : (link.exchange data settings halfClose clock).received = [] := by
  cases hc : clock.isCancelled with
  | true => rw [exchange_of_cancelled data settings halfClose hc]
  | false =>
    by_cases hs : (link.sendAll data settings halfClose clock).ending = .done ()
    · rw [exchange_of_sent hc hs] at hv
      rw [capture_verdict_sent _ _ _ _ hv] at hu
      cases hu
    · rw [exchange_of_unsent hc hs]

end Link

theorem Network.error_of_refused {net : Network} {attempt : Nat} {timeout : Duration}
    {clock later : Clock} {v : Verdict}
    (hd : net.dial attempt timeout clock = (.refused v, later)) (hc : v ≠ .cancelled) :
    ∃ text, v.error = some text ∧ v.outcome = .ioError := by
  rw [dial_eq] at hd
  have hv := congrArg Prod.fst hd
  generalize (net.dialing attempt timeout clock).ending = ending at hv
  cases ending <;> cases hv
  · exact ⟨_, rfl, rfl⟩
  · exact ⟨_, rfl, rfl⟩
  · exact absurd rfl hc

end WireReplay
