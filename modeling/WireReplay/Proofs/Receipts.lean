import WireReplay.Proofs.Ledger

/-!
# Replies are received whole and once

Along the visits to a connection, what it delivers is received by the payload in whose turn it is
delivered. So the replies received on a connection, one behind the other, are exactly what it
delivered, and each of them is the piece of it between the end of its payload's sending and the
beginning of the next visit.
-/

namespace WireReplay.Replay

section Course

variable {settings : Settings} {script : PeerScript} {start last : Link}
  {vs : List (Visit × Capture)} {v : Visit} {c : Capture} {i : Nat}

theorem Visit.Leaves.received (h : v.Leaves settings c) :
    c.received = (v.turn settings).received := by
  obtain ⟨verdict, elapsed, _, rfl⟩ := h
  rfl

theorem Course.delivered (h : Course settings start vs last)
    (hc : ∀ e ∈ vs, e.1.Leaves settings e.2) :
    last.delivered = start.delivered ++ vs.flatMap (·.2.received) := by
  induction h with
  | nil => rw [List.flatMap_nil, List.append_nil]
  | cons _ ih =>
    obtain ⟨hleaves, hlater⟩ := List.forall_mem_cons.1 hc
    rw [ih hlater, Visit.turn_delivered, List.flatMap_cons, hleaves.received, List.append_assoc]

theorem Course.delivered_before (h : Course settings { script } vs last)
    (hc : ∀ e ∈ vs, e.1.Leaves settings e.2) (hi : vs[i]? = some (v, c)) :
    v.link.delivered = (vs.take i).flatMap (·.2.received) := by
  obtain ⟨hlt, he⟩ := List.getElem?_eq_some_iff.1 hi
  have hsplit : vs = vs.take i ++ (v, c) :: vs.drop (i + 1) := by
    rw [← he, List.getElem_cons_drop, List.take_append_drop]
  rw [hsplit] at h
  obtain ⟨middle, hearlier, hlater⟩ := h.split
  cases hlater
  exact hearlier.delivered fun e he => hc e (List.mem_of_mem_take he)

end Course

/-- The link at the beginning of visit `i`; behind the last visit, the link as it was given up. -/
def linkAt (vs : List (Visit × Capture)) (link : Link) (i : Nat) : Link :=
  vs[i]?.elim link (·.1.link)

/-- What a connection delivered is what its visitors received: the capture of each visit has the
piece delivered behind the end of its sending and before the next visit. -/
structure Receipts (settings : Settings) (vs : List (Visit × Capture)) (link : Link) : Prop where
  delivered_eq : link.delivered = vs.flatMap (·.2.received)
  received_eq : ∀ i v c, vs[i]? = some (v, c) → c.received =
    (link.delivered.take (linkAt vs link (i + 1)).delivered.length).drop
      (v.sentLink settings).delivered.length
  apart : ∀ i j v c w d, i < j → vs[i]? = some (v, c) → vs[j]? = some (w, d) →
    (linkAt vs link (i + 1)).delivered.length ≤ (w.sentLink settings).delivered.length

section Closed

variable {settings : Settings} {vs : List (Visit × Capture)} {link : Link}

theorem Closed.delivered (h : Closed settings vs link) (hc : ∀ e ∈ vs, e.1.Leaves settings e.2) :
    link.delivered = vs.flatMap (·.2.received) := by
  obtain ⟨script, last, hcourse, rfl⟩ := h.course
  exact hcourse.delivered hc

theorem Closed.delivered_linkAt (h : Closed settings vs link)
    (hc : ∀ e ∈ vs, e.1.Leaves settings e.2) (i : Nat) :
    (linkAt vs link i).delivered = (vs.take i).flatMap (·.2.received) := by
  unfold linkAt
  cases hi : vs[i]? with
  | none =>
    rw [List.take_of_length_le (List.getElem?_eq_none_iff.1 hi)]
    exact h.delivered hc
  | some e =>
    obtain ⟨script, last, hcourse, rfl⟩ := h.course
    exact hcourse.delivered_before hc hi

theorem Closed.receipts (h : Closed settings vs link) (hc : ∀ e ∈ vs, e.1.Leaves settings e.2) :
    Receipts settings vs link := by
  have hbefore {i : Nat} {v : Visit} {c : Capture} (hi : vs[i]? = some (v, c)) :
      (v.sentLink settings).delivered = (vs.take i).flatMap (·.2.received) := by
    rw [Visit.sentLink_delivered, ← h.delivered_linkAt hc, linkAt, hi]
    rfl
  constructor
  case delivered_eq => exact h.delivered hc
  case received_eq =>
    intro i v c hi
    have hpiece : (vs.take (i + 1)).flatMap (·.2.received) =
        (vs.take i).flatMap (·.2.received) ++ c.received := by
      rw [List.take_add_one, hi, List.flatMap_append]
      simp
    have hall : link.delivered =
        (vs.take (i + 1)).flatMap (·.2.received) ++ (vs.drop (i + 1)).flatMap (·.2.received) := by
      rw [← List.flatMap_append, List.take_append_drop, h.delivered hc]
    rw [h.delivered_linkAt hc, hbefore hi, hall, List.take_left', hpiece, List.drop_left']
    · rfl
    · rfl
  case apart =>
    intro i j v c w d hlt _ hj
    rw [h.delivered_linkAt hc, hbefore hj]
    obtain ⟨more, hmore⟩ := List.take_prefix_take_left (l := vs) (Nat.succ_le_of_lt hlt)
    rw [← hmore, List.flatMap_append, List.length_append]
    exact Nat.le_add_right _ _

end Closed

/-- The connections of a run deliver what its payloads receive, and a payload that visits none
receives nothing. -/
theorem run_receipts (net : Network) (settings : Settings) (payloads : List Payload)
    (cancelAt : Option Nat) (account : Account)
    (h : run net settings payloads cancelAt = some account) :
    let es := (visits net settings payloads cancelAt).zip account.captures
    es.length = payloads.length ∧
      (∀ (i : Nat) v c, es[i]? = some (some v, c) →
        payloads[i]? = some v.payload ∧ v.connection < account.links.length) ∧
      (∀ c, (none, c) ∈ es → c.received = []) ∧
      ∀ j link, account.links[j]? = some link → Receipts settings (onConnection j es) link := by
  have hb := balanced_of_run h
  refine ⟨hb.length_entries, fun i v c hi => hb.of_entry hi, ?_, ?_⟩
  · intro c hm
    by_cases hr : c.received = []
    · exact hr
    · exact absurd (.inr (.inr (.inl hr))) (hb.unvisited c hm)
  · intro j link hj
    exact (hb.closed j link hj).receipts hb.leaves

/-- A peer whose second answer comes too late for the first payload and is cut short by a fault. -/
theorem run_receipts_of_late_answer :
    ∃ account,
      run ⟨"peer", [{ read := [.act (.data [1]), .delay 3000, .act (.data [2, 3]),
          .error (.system 104)] }]⟩ { freshConnections := false } [⟨"a", [65]⟩, ⟨"b", [66]⟩] =
          some account ∧
        account.captures.map (·.received) = [[1], [2, 3]] ∧
        account.links.map (·.delivered) = [[1, 2, 3]] ∧
        ∀ j link, account.links[j]? = some link →
          Receipts { freshConnections := false }
            (onConnection j ((visits ⟨"peer", [{ read := [.act (.data [1]), .delay 3000,
              .act (.data [2, 3]), .error (.system 104)] }]⟩ { freshConnections := false }
              [⟨"a", [65]⟩, ⟨"b", [66]⟩]).zip account.captures)) link := by
  have h : (run ⟨"peer", [{ read := [.act (.data [1]), .delay 3000, .act (.data [2, 3]),
      .error (.system 104)] }]⟩ { freshConnections := false }
        [⟨"a", [65]⟩, ⟨"b", [66]⟩]).map (fun account =>
          (account.captures.map (·.received), account.links.map (·.delivered))) =
      some ([[1], [2, 3]], [[1, 2, 3]]) := by
    decide +kernel
  obtain ⟨account, hrun, hr⟩ := Option.map_eq_some_iff.1 h
  obtain ⟨hreceived, hdelivered⟩ := Prod.mk.inj hr
  exact ⟨account, hrun, hreceived, hdelivered, (run_receipts _ _ _ _ _ hrun).2.2.2⟩

end WireReplay.Replay
