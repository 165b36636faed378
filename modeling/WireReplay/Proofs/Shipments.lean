import WireReplay.Proofs.Ledger

/-!
# Payloads are sent whole and once

Along the visits to a connection, each payload is written behind the one before it, and only the
last of them can be cut short, since sending that was not done ends the connection. A reply is
captured only behind a payload that was written and flushed. The write side is shut down by a
payload that was sent on a connection of its own, and by nothing else.
-/

namespace WireReplay

/-- A capture that leaves open whether its payload was sent whole. -/
def Capture.IsCutShort (c : Capture) : Prop :=
  c.outcome = .cancelled ∨ c.outcome = .ioError ∧ ∃ rest, c.error = some ("write " ++ rest)

namespace Replay

section Visit

variable {settings : Settings} {v : Visit} {c : Capture}

theorem Visit.Leaves.sent (h : v.Leaves settings c) : c.sent = v.payload.bytes := by
  obtain ⟨verdict, elapsed, _, rfl⟩ := h
  rfl

theorem Visit.Leaves.isCutShort (h : v.Leaves settings c) (hs : ¬ v.IsSent settings) :
    c.IsCutShort := by
  obtain ⟨verdict, elapsed, hv, rfl⟩ := h
  rcases Visit.verdict_of_not_sent hs hv with rfl | herror
  · exact .inl rfl
  · exact .inr herror

end Visit

namespace Course

variable {settings : Settings} {start last : Link} {vs : List (Visit × Capture)}

theorem written_of_sent (h : Course settings start vs last)
    (hc : ∀ e ∈ vs, e.1.Leaves settings e.2) (hs : ∀ e ∈ vs, e.1.IsSent settings) :
    last.written = start.written ++ vs.flatMap (·.2.sent) := by
  induction h with
  | nil => rw [List.flatMap_nil, List.append_nil]
  | cons _ ih =>
    obtain ⟨hleaves, hc⟩ := List.forall_mem_cons.1 hc
    obtain ⟨hsent, hs⟩ := List.forall_mem_cons.1 hs
    rw [ih hc hs, Visit.turn_written_of_sent hsent, List.flatMap_cons, hleaves.sent,
      List.append_assoc]

theorem written_prefix (h : Course settings start vs last) : start.written <+: last.written := by
  induction h with
  | nil => exact List.prefix_refl _
  | @cons v c later last _ ih =>
    obtain ⟨accepted, _, hw, _⟩ := v.sentLink_written settings
    refine List.IsPrefix.trans ?_ ih
    rw [Visit.turn_written, hw]
    exact List.prefix_append _ _

theorem flushes_le (h : Course settings start vs last) : start.flushes ≤ last.flushes := by
  induction h with
  | nil => exact Nat.le_refl _
  | cons _ ih => exact Nat.le_trans Visit.flushes_le_turn ih

theorem isShutDown_iff {halfClose : Bool} (h : Course settings start vs last)
    (hh : ∀ e ∈ vs, e.1.halfClose = halfClose) :
    last.isShutDown = true ↔
      start.isShutDown = true ∨ halfClose = true ∧ ∃ e ∈ vs, e.1.IsSent settings := by
  induction h with
  | nil => simp
  | cons _ ih =>
    obtain ⟨hfirst, hlater⟩ := List.forall_mem_cons.1 hh
    simp only [List.mem_cons, exists_eq_or_imp]
    rw [ih hlater, Visit.turn_isShutDown, hfirst, and_or_left, or_assoc]

end Course

/-- What a connection carried is what its visitors sent: whole payloads, one behind the other, and
at most a piece of one more, the last of them. -/
structure Shipments (settings : Settings) (vs : List (Visit × Capture)) (link : Link) : Prop where
  written_eq : ∃ completed further accepted, vs = completed ++ further ∧ further.length ≤ 1 ∧
    (∀ e ∈ completed, e.1.IsSent settings) ∧
    (∀ e ∈ further, ¬ e.1.IsSent settings ∧ e.2.IsCutShort) ∧
    accepted <+: further.flatMap (·.2.sent) ∧
    link.written = completed.flatMap (·.2.sent) ++ accepted
  alone : settings.freshConnections = true → vs.length ≤ 1
  isShutDown_iff : link.isShutDown = true ↔ settings.freshConnections = true ∧
    settings.halfClose = true ∧ ∃ e ∈ vs, e.1.IsSent settings

/-- The payload of a visit was written on the link whole, and then flushed. -/
structure Visit.Ships (settings : Settings) (v : Visit) (link : Link) : Prop where
  written : (v.writing settings).ending = .done ()
  flushed : (v.flushing settings).ending = .done ()
  carried : v.link.written ++ v.payload.bytes <+: link.written
  flushes_lt : v.link.flushes < link.flushes

section Closed

variable {settings : Settings} {vs : List (Visit × Capture)} {link : Link}

theorem Closed.sent_dropLast (h : Closed settings vs link)
    (hc : ∀ e ∈ vs, e.1.Leaves settings e.2) : ∀ e ∈ vs.dropLast, e.1.IsSent settings :=
  fun e he => (hc e (List.dropLast_subset _ he)).isSent (.inr (.inl (h.silent e he)))

theorem Closed.written_eq (h : Closed settings vs link) (hc : ∀ e ∈ vs, e.1.Leaves settings e.2) :
    ∃ completed further accepted, vs = completed ++ further ∧ further.length ≤ 1 ∧
      (∀ e ∈ completed, e.1.IsSent settings) ∧
      (∀ e ∈ further, ¬ e.1.IsSent settings ∧ e.2.IsCutShort) ∧
      accepted <+: further.flatMap (·.2.sent) ∧
      link.written = completed.flatMap (·.2.sent) ++ accepted := by
  have hbefore := h.sent_dropLast hc
  obtain ⟨script, last, hcourse, rfl⟩ := h.course
  by_cases hall : ∀ e ∈ vs, e.1.IsSent settings
  · refine ⟨vs, [], [], (List.append_nil _).symm, Nat.zero_le _, hall, by simp, ?_, ?_⟩
    · exact List.prefix_refl _
    · rw [List.append_nil]
      exact hcourse.written_of_sent hc hall
  · rcases List.eq_nil_or_concat' vs with rfl | ⟨before, ⟨v, c⟩, rfl⟩
    · exact absurd (by simp) hall
    · rw [List.dropLast_concat] at hbefore
      have hs : ¬ v.IsSent settings := by
        intro hs
        refine hall fun e he => ?_
        rcases List.mem_append.1 he with he | he
        · exact hbefore e he
        · rw [List.mem_singleton.1 he]
          exact hs
      have hv : v.Leaves settings c := hc (v, c) (by simp)
      obtain ⟨middle, hfirst, hlast⟩ := hcourse.split
      have hcbefore : ∀ e ∈ before, e.1.Leaves settings e.2 :=
        fun e he => hc e (List.mem_append_left _ he)
      cases hlast with
      | cons hlast =>
        obtain rfl := hlast.eq_of_nil
        obtain ⟨accepted, hprefix, hw, _⟩ := v.sentLink_written settings
        refine ⟨before, [(v, c)], accepted, rfl, Nat.le_refl _, hbefore, ?_, ?_, ?_⟩
        · intro e he
          rw [List.mem_singleton.1 he]
          exact ⟨hs, hv.isCutShort hs⟩
        · simpa [hv.sent] using hprefix
        · have hwritten := hfirst.written_of_sent hcbefore hbefore
          change (v.turn settings).link.written = _
          rw [Visit.turn_written, hw, hwritten]
          rfl

theorem Closed.isShutDown_iff (h : Closed settings vs link)
    (hh : ∀ e ∈ vs, e.1.halfClose = (settings.freshConnections && settings.halfClose)) :
    link.isShutDown = true ↔ settings.freshConnections = true ∧
      settings.halfClose = true ∧ ∃ e ∈ vs, e.1.IsSent settings := by
  obtain ⟨script, last, hcourse, rfl⟩ := h.course
  have hiff := hcourse.isShutDown_iff hh
  rw [Bool.and_eq_true, and_assoc, or_iff_right Bool.false_ne_true] at hiff
  exact hiff

theorem Closed.ships (h : Closed settings vs link) {v : Visit} {c : Capture} (hm : (v, c) ∈ vs)
    (hs : v.IsSent settings) : v.Ships settings link := by
  obtain ⟨script, last, hcourse, rfl⟩ := h.course
  obtain ⟨earlier, later, rfl⟩ := List.append_of_mem hm
  obtain ⟨middle, _, hvisit⟩ := hcourse.split
  obtain ⟨hwritten, hflushed⟩ := Link.send_flushed hs.2
  cases hvisit with
  | cons hlater =>
    refine ⟨hwritten, hflushed, ?_, ?_⟩
    · rw [← Visit.turn_written_of_sent hs]
      exact hlater.written_prefix
    · refine Nat.lt_of_lt_of_le ?_ hlater.flushes_le
      rw [Visit.turn_flushes_of_sent hs]
      exact Nat.lt_succ_self _

end Closed

/-- On each connection of a run the payloads go out whole, one behind the other, up to the first
that does not; and every capture that shows that its payload was sent is right about it. -/
theorem run_shipments (net : Network) (settings : Settings) (payloads : List Payload)
    (cancelAt : Option Nat) (account : Account)
    (h : run net settings payloads cancelAt = some account) :
    let es := (visits net settings payloads cancelAt).zip account.captures
    es.length = payloads.length ∧
      (∀ (i : Nat) v c, es[i]? = some (some v, c) →
        payloads[i]? = some v.payload ∧ v.connection < account.links.length) ∧
      (∀ j link, account.links[j]? = some link → Shipments settings (onConnection j es) link) ∧
      ∀ (i : Nat) visit c, es[i]? = some (visit, c) → c.ShowsSent →
        ∃ v link, visit = some v ∧ account.links[v.connection]? = some link ∧
          c.sent = v.payload.bytes ∧ v.Ships settings link := by
  have hb := balanced_of_run h
  refine ⟨hb.length_entries, fun i v c hi => hb.of_entry hi, ?_, ?_⟩
  · intro j link hj
    have hclosed := hb.closed j link hj
    refine ⟨hclosed.written_eq hb.leaves, hclosed.alone, hclosed.isShutDown_iff ?_⟩
    exact fun e he => (hb.visited e.1 e.2 (mem_onConnection.1 he).1).2
  · intro i visit c hi hshows
    have hm := List.mem_of_getElem? hi
    cases visit with
    | none => exact absurd hshows (hb.unvisited c hm)
    | some v =>
      have hleaves := (hb.visited v c hm).1
      have hj := List.getElem?_eq_getElem (hb.within v c hm)
      refine ⟨v, _, rfl, hj, hleaves.sent, ?_⟩
      exact (hb.closed _ _ hj).ships (mem_onConnection.2 ⟨hm, rfl⟩) (hleaves.isSent hshows)

/-- A peer that takes the first payload in two pieces, and of the second one byte before a fault. -/
theorem run_shipments_of_broken_write :
    ∃ account,
      run ⟨"peer", [{ write := [.act 1, .act 9, .act 1, .error (.system 32)] }]⟩
          { freshConnections := false } [⟨"a", [65, 66]⟩, ⟨"b", [67, 68]⟩, ⟨"c", [69]⟩] =
          some account ∧
        account.captures.map (·.outcome) = [.timeout, .ioError, .connectionClosedEarly] ∧
        account.links.map (·.written) = [[65, 66, 67]] ∧
        ∀ j link, account.links[j]? = some link →
          Shipments { freshConnections := false }
            (onConnection j ((visits ⟨"peer", [{ write := [.act 1, .act 9, .act 1,
              .error (.system 32)] }]⟩ { freshConnections := false }
              [⟨"a", [65, 66]⟩, ⟨"b", [67, 68]⟩, ⟨"c", [69]⟩]).zip account.captures)) link := by
  have h : (run ⟨"peer", [{ write := [.act 1, .act 9, .act 1, .error (.system 32)] }]⟩
      { freshConnections := false } [⟨"a", [65, 66]⟩, ⟨"b", [67, 68]⟩, ⟨"c", [69]⟩]).map
        (fun account => (account.captures.map (·.outcome), account.links.map (·.written))) =
      some ([.timeout, .ioError, .connectionClosedEarly], [[65, 66, 67]]) := by
    decide +kernel
  obtain ⟨account, hrun, hr⟩ := Option.map_eq_some_iff.1 h
  obtain ⟨houtcome, hwritten⟩ := Prod.mk.inj hr
  exact ⟨account, hrun, houtcome, hwritten, (run_shipments _ _ _ _ _ hrun).2.2.1⟩

end Replay

end WireReplay
