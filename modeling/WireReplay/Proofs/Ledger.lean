import WireReplay.Proofs.OneCaptureEach
import WireReplay.Proofs.Visits

/-!
# The visits of a run

Which connection each payload of a run visits, and that the visits to one connection follow one
another on it: each finds the link as the one before left it, the first finds it just opened, and
all but the last left the peer silent. `Ledger` says so of a run so far; replaying one more payload
adds an entry to it.
-/

namespace WireReplay.Replay

abbrev Entry := Option Visit × Capture

def onConnection (j : Nat) (es : List Entry) : List (Visit × Capture) :=
  es.filterMap fun e => (e.1.filter (·.connection == j)).map (·, e.2)

section OnConnection

variable {j : Nat} {es : List Entry} {v : Visit} {c : Capture}

theorem onConnection_none : onConnection j (es ++ [(none, c)]) = onConnection j es := by
  simp [onConnection]

theorem onConnection_same (h : v.connection = j) :
    onConnection j (es ++ [(some v, c)]) = onConnection j es ++ [(v, c)] := by
  simp [onConnection, h]

theorem onConnection_other (h : v.connection ≠ j) :
    onConnection j (es ++ [(some v, c)]) = onConnection j es := by
  simp [onConnection, h]

theorem mem_onConnection : (v, c) ∈ onConnection j es ↔ (some v, c) ∈ es ∧ v.connection = j := by
  simp only [onConnection, List.mem_filterMap, Option.map_eq_some_iff, Option.filter_eq_some_iff,
    Prod.exists, Prod.mk.injEq, beq_iff_eq]
  constructor
  · rintro ⟨_, _, hm, _, ⟨rfl, hj⟩, rfl, rfl⟩
    exact ⟨hm, hj⟩
  · rintro ⟨hm, hj⟩
    exact ⟨some v, c, hm, v, ⟨rfl, hj⟩, rfl, rfl⟩

theorem onConnection_eq_nil (h : ∀ v c, (some v, c) ∈ es → v.connection < j) :
    onConnection j es = [] := by
  refine List.eq_nil_iff_forall_not_mem.2 fun ⟨v, c⟩ hm => ?_
  obtain ⟨hm, hj⟩ := mem_onConnection.1 hm
  exact absurd hj (Nat.ne_of_lt (h v c hm))

end OnConnection

/-- The visits take a link from `start` on, one behind the other. -/
inductive Course (settings : Settings) : Link → List (Visit × Capture) → Link → Prop
  | nil (start : Link) : Course settings start [] start
  | cons {v : Visit} {c : Capture} {later : List (Visit × Capture)} {last : Link}
      (_ : Course settings (v.turn settings).link later last) :
      Course settings v.link ((v, c) :: later) last

namespace Course

variable {settings : Settings} {start last : Link} {earlier later vs : List (Visit × Capture)}
  {v : Visit} {c : Capture}

theorem eq_of_nil (h : Course settings start [] last) : last = start := by
  cases h
  rfl

theorem append {middle : Link} (h : Course settings start earlier middle)
    (h' : Course settings middle later last) : Course settings start (earlier ++ later) last := by
  induction h with
  | nil => exact h'
  | cons _ ih => exact .cons (ih h')

theorem concat (h : Course settings start vs v.link) :
    Course settings start (vs ++ [(v, c)]) (v.turn settings).link :=
  h.append (.cons (.nil _))

theorem split (h : Course settings start (earlier ++ later) last) :
    ∃ middle, Course settings start earlier middle ∧ Course settings middle later last := by
  induction earlier generalizing start with
  | nil => exact ⟨start, .nil _, h⟩
  | cons e earlier ih =>
    cases h with
    | cons h =>
      obtain ⟨middle, hearlier, hlater⟩ := ih h
      exact ⟨middle, .cons hearlier, hlater⟩

end Course

/-- The visits to a connection that is open for more of them. -/
structure Ongoing (settings : Settings) (vs : List (Visit × Capture)) (link : Link) : Prop where
  course : ∃ script, Course settings { script } vs link
  silent : ∀ e ∈ vs, e.2.outcome = .timeout

/-- All visits to a connection that was given up. -/
structure Closed (settings : Settings) (vs : List (Visit × Capture)) (link : Link) : Prop where
  course : ∃ script last, Course settings { script } vs last ∧ link = last.close
  silent : ∀ e ∈ vs.dropLast, e.2.outcome = .timeout
  alone : settings.freshConnections = true → vs.length ≤ 1

theorem Ongoing.closed {settings : Settings} {vs : List (Visit × Capture)} {link : Link}
    (h : Ongoing settings vs link) (hf : settings.freshConnections = true → vs.length ≤ 1) :
    Closed settings vs link.close where
  course := by
    obtain ⟨script, hcourse⟩ := h.course
    exact ⟨script, link, hcourse, rfl⟩
  silent e he := h.silent e (List.dropLast_subset _ he)
  alone := hf

theorem getElem?_concat_cases {links : List Link} {link l : Link} {j : Nat}
    (h : (links ++ [l])[j]? = some link) :
    links[j]? = some link ∨ j = links.length ∧ link = l := by
  by_cases hlt : j < links.length
  · rw [List.getElem?_append_left hlt] at h
    exact .inl h
  · rw [List.getElem?_append_right (Nat.le_of_not_lt hlt)] at h
    obtain ⟨hzero, hlink⟩ := List.getElem?_eq_some_iff.1 h
    rw [List.getElem_singleton] at hlink
    rw [List.length_singleton] at hzero
    exact .inr ⟨by omega, hlink.symm⟩

/-- What the captures of a run so far owe to its connections. -/
structure Ledger (settings : Settings) (es : List Entry) (s : State) : Prop where
  suits : s.line.Suits settings
  captures_eq : s.captures = es.map (·.2)
  visited : ∀ v c, (some v, c) ∈ es → v.Leaves settings c ∧
    v.halfClose = (settings.freshConnections && settings.halfClose)
  unvisited : ∀ c, (none, c) ∈ es → ¬ c.ShowsSent
  within : ∀ v c, (some v, c) ∈ es → v.connection < s.links.length ∨
    v.connection = s.links.length ∧ ∃ link, s.line = .shared link
  closed : ∀ j link, s.links[j]? = some link → Closed settings (onConnection j es) link
  ongoing : ∀ link, s.line = .shared link → Ongoing settings (onConnection s.links.length es) link
  reason : ∀ outcome text, s.line = .lost outcome text → text.toList[1]? ≠ some 'e'

namespace Ledger

variable {settings : Settings} {es : List Entry} {s s' : State} {v : Visit} {c : Capture}
  {link : Link}

theorem reuse_of_shared (h : Ledger settings es s) (hl : s.line = .shared link) :
    settings.freshConnections = false := by
  have hsuits := h.suits
  rwa [hl] at hsuits

theorem onConnection_of_not_shared (h : Ledger settings es s) (hl : ∀ link, s.line ≠ .shared link) :
    onConnection s.links.length es = [] := by
  refine onConnection_eq_nil fun v c hm => ?_
  rcases h.within v c hm with hlt | ⟨_, link, hs⟩
  · exact hlt
  · exact absurd hs (hl link)

theorem miss (h : Ledger settings es s) (hc : ¬ c.ShowsSent)
    (hcaptures : s'.captures = s.captures ++ [c]) (hlinks : s'.links = s.links)
    (hline : s'.line = s.line) : Ledger settings (es ++ [(none, c)]) s' where
  suits := by rw [hline]; exact h.suits
  captures_eq := by rw [hcaptures, h.captures_eq]; simp
  visited v d hm := h.visited v d (by simpa using hm)
  unvisited d hm := by
    rcases List.mem_append.1 hm with hm | hm
    · exact h.unvisited d hm
    · simp only [List.mem_singleton, Prod.mk.injEq, true_and] at hm
      rwa [hm]
  within v d hm := by rw [hline, hlinks]; exact h.within v d (by simpa using hm)
  closed j link hj := by rw [onConnection_none]; exact h.closed j link (by rwa [hlinks] at hj)
  ongoing link hl := by
    rw [onConnection_none, hlinks]
    exact h.ongoing link (by rwa [hline] at hl)
  reason outcome text hl := h.reason outcome text (by rwa [hline] at hl)

/-- The line became another one, and no connection was given up. -/
theorem reline (h : Ledger settings es s) (hl : ∀ link, s.line ≠ .shared link)
    (hcaptures : s'.captures = s.captures) (hlinks : s'.links = s.links)
    (hsuits : s'.line.Suits settings)
    (hshared : ∀ link, s'.line = .shared link → ∃ script, link = { script })
    (hreason : ∀ outcome text, s'.line = .lost outcome text → text.toList[1]? ≠ some 'e') :
    Ledger settings es s' where
  suits := hsuits
  captures_eq := by rw [hcaptures, h.captures_eq]
  visited := h.visited
  unvisited := h.unvisited
  within v d hm := by
    rcases h.within v d hm with hlt | ⟨_, link, hs⟩
    · exact .inl (by rwa [hlinks])
    · exact absurd hs (hl link)
  closed j link hj := h.closed j link (by rwa [hlinks] at hj)
  ongoing link hs := by
    obtain ⟨script, rfl⟩ := hshared link hs
    rw [hlinks, h.onConnection_of_not_shared hl]
    exact ⟨⟨script, .nil _⟩, fun e he => absurd he (List.not_mem_nil)⟩
  reason := hreason

theorem visited_concat (h : Ledger settings es s) (hv : v.Leaves settings c)
    (hh : v.halfClose = (settings.freshConnections && settings.halfClose)) :
    ∀ w d, (some w, d) ∈ es ++ [(some v, c)] → w.Leaves settings d ∧
      w.halfClose = (settings.freshConnections && settings.halfClose) := by
  intro w d hm
  rcases List.mem_append.1 hm with hm | hm
  · exact h.visited w d hm
  · simp only [List.mem_singleton, Prod.mk.injEq, Option.some.injEq] at hm
    obtain ⟨rfl, rfl⟩ := hm
    exact ⟨hv, hh⟩

theorem unvisited_concat (h : Ledger settings es s) :
    ∀ d, (none, d) ∈ es ++ [(some v, c)] → ¬ d.ShowsSent :=
  fun d hm => h.unvisited d (by simpa using hm)

theorem connection_le (h : Ledger settings es s) {w : Visit} {d : Capture}
    (hm : (some w, d) ∈ es) : w.connection ≤ s.links.length := by
  rcases h.within w d hm with hlt | ⟨he, _⟩
  · exact Nat.le_of_lt hlt
  · exact Nat.le_of_eq he

theorem closed_concat (h : Ledger settings es s) (hv : v.connection = s.links.length) {j : Nat}
    (hj : s.links[j]? = some link) :
    Closed settings (onConnection j (es ++ [(some v, c)])) link := by
  have hlt : j < s.links.length := (List.getElem?_eq_some_iff.1 hj).1
  rw [onConnection_other (by omega)]
  exact h.closed j link hj

/-- A payload left the peer silent on the shared connection, which stays open. -/
theorem stay (h : Ledger settings es s) (hl : s.line = .shared v.link)
    (hv : v.connection = s.links.length) (hleaves : v.Leaves settings c)
    (hh : v.halfClose = false) (hc : c.outcome = .timeout)
    (hcaptures : s'.captures = s.captures ++ [c]) (hlinks : s'.links = s.links)
    (hline : s'.line = .shared (v.turn settings).link) :
    Ledger settings (es ++ [(some v, c)]) s' := by
  have hreuse := h.reuse_of_shared hl
  constructor
  case suits => rw [hline]; exact hreuse
  case captures_eq => rw [hcaptures, h.captures_eq]; simp
  case visited => exact h.visited_concat hleaves (by rw [hh, hreuse]; rfl)
  case unvisited => exact h.unvisited_concat
  case within =>
    intro w d hm
    rw [hlinks]
    rcases List.mem_append.1 hm with hm | hm
    · rcases Nat.lt_or_eq_of_le (h.connection_le hm) with hlt | he
      · exact .inl hlt
      · exact .inr ⟨he, _, hline⟩
    · simp only [List.mem_singleton, Prod.mk.injEq, Option.some.injEq] at hm
      rw [hm.1]
      exact .inr ⟨hv, _, hline⟩
  case closed => intro j link hj; exact h.closed_concat hv (by rwa [hlinks] at hj)
  case ongoing =>
    intro link hlink
    rw [hline] at hlink
    cases hlink
    obtain ⟨⟨script, hcourse⟩, hsilent⟩ := h.ongoing v.link hl
    rw [hlinks, onConnection_same hv]
    refine ⟨⟨script, hcourse.concat⟩, ?_⟩
    intro e he
    rcases List.mem_append.1 he with he | he
    · exact hsilent e he
    · rw [List.mem_singleton.1 he]
      exact hc
  case reason => intro outcome text hlost; rw [hline] at hlost; cases hlost

theorem leave (h : Ledger settings es s)
    (hongoing : Ongoing settings (onConnection s.links.length es) v.link)
    (hv : v.connection = s.links.length) (hleaves : v.Leaves settings c)
    (hh : v.halfClose = (settings.freshConnections && settings.halfClose))
    (halone : settings.freshConnections = true → onConnection s.links.length es = [])
    (hcaptures : s'.captures = s.captures ++ [c])
    (hlinks : s'.links = s.links ++ [(v.turn settings).link.close])
    (hsuits : s'.line.Suits settings) (hline : ∀ link, s'.line ≠ .shared link)
    (hreason : ∀ outcome text, s'.line = .lost outcome text → text.toList[1]? ≠ some 'e') :
    Ledger settings (es ++ [(some v, c)]) s' := by
  constructor
  case suits => exact hsuits
  case captures_eq => rw [hcaptures, h.captures_eq]; simp
  case visited => exact h.visited_concat hleaves hh
  case unvisited => exact h.unvisited_concat
  case within =>
    intro w d hm
    rw [hlinks, List.length_append, List.length_singleton]
    rcases List.mem_append.1 hm with hm | hm
    · exact .inl (Nat.lt_succ_of_le (h.connection_le hm))
    · simp only [List.mem_singleton, Prod.mk.injEq, Option.some.injEq] at hm
      rw [hm.1, hv]
      exact .inl (Nat.lt_succ_self _)
  case closed =>
    intro j link hj
    rw [hlinks] at hj
    rcases getElem?_concat_cases hj with hj | ⟨rfl, rfl⟩
    · exact h.closed_concat hv hj
    · obtain ⟨⟨script, hcourse⟩, hsilent⟩ := hongoing
      rw [onConnection_same hv]
      refine ⟨⟨script, _, hcourse.concat, rfl⟩, ?_, ?_⟩
      · rw [List.dropLast_concat]
        exact hsilent
      · intro hf
        rw [halone hf]
        exact Nat.le_refl _
  case ongoing => exact fun link hl => absurd hl (hline link)
  case reason => exact hreason

end Ledger

namespace State

def visitShared (s : State) (link : Link) (p : Payload) : Option Visit :=
  if s.clock.isCancelled then none else some ⟨p, s.links.length, link, s.clock, false⟩

/-- The visit that the next payload of a run makes to a connection, if it makes one. -/
def visit (net : Network) (settings : Settings) (s : State) (p : Payload) : Option Visit :=
  if s.clock.isCancelled then none
  else
    match s.line with
    | .fresh =>
      match net.dial s.attempts settings.connectTimeout s.clock with
      | (.opened link, clock) => some ⟨p, s.links.length, link, clock, settings.halfClose⟩
      | _ => none
    | .unopened =>
      match net.dial s.attempts settings.connectTimeout s.clock with
      | (.opened link, clock) => { s with clock }.visitShared link p
      | _ => none
    | .shared link => s.visitShared link p
    | _ => none

section Replay

variable {net : Network} {settings : Settings} {total started : Nat} {s : State} {p : Payload}
  {es : List Entry} {link : Link}

theorem lineAfter_reason {verdict : Verdict} {reason text : String} {outcome : Outcome}
    (hr : reason.toList[1]? ≠ some 'e') (hl : lineAfter verdict reason = .lost outcome text) :
    text.toList[1]? ≠ some 'e' := by
  unfold lineAfter at hl
  split at hl <;> cases hl
  · decide
  · exact hr

theorem neverOpened_second_ne (verdict : Verdict) :
    (neverOpened verdict).toList[1]? ≠ some 'e' := by
  have he : neverOpened verdict = "connection never opened: " ++ verdict.error.getD "" := rfl
  rw [he, String.toList_append]
  simp

def Enters (settings : Settings) (es : List Entry) (visit : Option Visit) (after : State) : Prop :=
  after.line = .stuck ∨ ∃ c, Ledger settings (es ++ [(visit, c)]) after

theorem replayFresh_enters (h : Ledger settings es s) (hl : s.line = .fresh)
    (hc : s.clock.isCancelled = false) :
    Enters settings es (s.visit net settings p) (s.replayFresh net settings p) := by
  have hfresh : settings.freshConnections = true := by
    have hsuits := h.suits
    rwa [hl] at hsuits
  have hshared : ∀ link, s.line ≠ .shared link := by simp [hl]
  refine replayFresh_cases ?_ ?_ ?_ ?_
  · intro clock _
    exact .inl rfl
  · intro verdict clock hd
    have hv : s.visit net settings p = none := by
      simp only [visit, hc, hl, hd, Bool.false_eq_true, if_false]
    rw [hv]
    refine .inr ⟨_, h.miss ?_ rfl rfl rfl⟩
    exact Verdict.not_showsSent p _ (Network.isSent_of_refused hd)
  · intro link clock _ _
    exact .inl rfl
  · intro link clock verdict hd hturn
    have hv : s.visit net settings p =
        some ⟨p, s.links.length, link, clock, settings.halfClose⟩ := by
      simp only [visit, hc, hl, hd, Bool.false_eq_true, if_false]
    have hnone := h.onConnection_of_not_shared hshared
    rw [hv]
    refine .inr ⟨_, h.leave ?_ rfl ⟨verdict, _, hturn, rfl⟩ ?_ (fun _ => hnone) rfl rfl ?_ ?_ ?_⟩
    · rw [hnone, Network.link_of_opened hd]
      exact ⟨⟨_, .nil _⟩, fun e he => absurd he List.not_mem_nil⟩
    · rw [hfresh]
      rfl
    · exact h.suits
    · exact hshared
    · intro outcome text hlost
      exact h.reason outcome text hlost

theorem replayShared_enters (h : Ledger settings es { s with line := .shared link }) :
    Enters settings es (s.visitShared link p)
      (s.replayShared net settings total link started p) := by
  have hreuse : settings.freshConnections = false := h.suits
  refine replayShared_cases ?_ ?_ ?_ ?_
  · intro hc
    rw [visitShared, if_pos hc]
    exact .inr ⟨_, h.miss (p.not_showsSent_of_skipped (.inl rfl) (by decide)) rfl rfl rfl⟩
  · intro _ _
    exact .inl rfl
  · intro hc hturn
    rw [visitShared, if_neg (by rw [hc]; exact Bool.false_ne_true)]
    exact .inr ⟨_, h.stay rfl rfl ⟨.silent, _, hturn, rfl⟩ rfl rfl rfl rfl rfl⟩
  · intro verdict hc hturn _
    rw [visitShared, if_neg (by rw [hc]; exact Bool.false_ne_true)]
    have hongoing := h.ongoing link rfl
    refine .inr ⟨_, h.leave hongoing rfl ⟨verdict, _, hturn, rfl⟩ ?_ ?_ rfl rfl ?_ ?_ ?_⟩
    · rw [hreuse]
      rfl
    · intro hf
      rw [hreuse] at hf
      cases hf
    · exact lineAfter_suits hreuse _ _
    · exact lineAfter_ne_shared _ _
    · intro outcome text hlost
      exact lineAfter_reason (by simp [toString]) hlost

theorem replayFirst_enters (h : Ledger settings es s) (hl : s.line = .unopened)
    (hc : s.clock.isCancelled = false) :
    Enters settings es (s.visit net settings p) (s.replayFirst net settings total p) := by
  have hreuse : settings.freshConnections = false := by
    have hsuits := h.suits
    rwa [hl] at hsuits
  have hshared : ∀ link, s.line ≠ .shared link := by simp [hl]
  refine replayFirst_cases ?_ ?_ ?_
  · intro clock _
    exact .inl rfl
  · intro verdict clock hd
    have hv : s.visit net settings p = none := by
      simp only [visit, hc, hl, hd, Bool.false_eq_true, if_false]
    have hmiss : Ledger settings
        (es ++ [(none, p.captured verdict [] (.ofMillis (clock.now - s.clock.now)))])
        (s.record clock (p.captured verdict [] (.ofMillis (clock.now - s.clock.now)))) :=
      h.miss (Verdict.not_showsSent p _ (Network.isSent_of_refused hd)) rfl rfl rfl
    rw [hv]
    refine .inr ⟨_, hmiss.reline hshared rfl rfl ?_ ?_ ?_⟩
    · exact lineAfter_suits hreuse _ _
    · exact fun _ hlink => absurd hlink (lineAfter_ne_shared _ _ _)
    · intro outcome text hlost
      exact lineAfter_reason (neverOpened_second_ne verdict) hlost
  · intro link clock hd
    have hv : s.visit net settings p = { s with clock }.visitShared link p := by
      simp only [visit, hc, hl, hd, Bool.false_eq_true, if_false]
    rw [hv]
    refine replayShared_enters (h.reline hshared rfl rfl hreuse ?_ ?_)
    · rintro _ ⟨⟩
      exact ⟨_, Network.link_of_opened hd⟩
    · rintro _ _ ⟨⟩

/-- Replaying a payload adds an entry to the ledger, unless the run gets stuck. -/
theorem replay_enters (net : Network) (total : Nat) (p : Payload) (h : Ledger settings es s) :
    Enters settings es (s.visit net settings p) (replay net settings total s p) := by
  have hnone (hc : s.clock.isCancelled = true) : s.visit net settings p = none := by
    rw [visit, if_pos hc]
  refine replay_cases ?_ ?_ ?_ ?_ ?_ ?_
  · exact fun hl => .inl hl
  · intro outcome reason hl
    have hv : s.visit net settings p = none := by
      unfold visit
      split
      · rfl
      · rw [hl]
    have hsuits := h.suits
    rw [hl] at hsuits
    rw [hv]
    refine .inr ⟨_, h.miss ?_ rfl rfl rfl⟩
    exact p.not_showsSent_of_skipped hsuits.2 (h.reason outcome reason hl)
  · intro _ hc
    rw [hnone hc]
    exact .inr ⟨_, h.miss (p.not_showsSent_of_skipped (.inl rfl) (by decide)) rfl rfl rfl⟩
  · exact fun hl hc => replayFresh_enters h hl hc
  · exact fun hl hc => replayFirst_enters h hl hc
  · intro link hl hc
    have hv : s.visit net settings p = s.visitShared link p := by
      simp only [visit, hc, hl, Bool.false_eq_true, if_false]
    have hs : { s with line := .shared link } = s := by rw [← hl]
    rw [hv]
    exact replayShared_enters (by rwa [hs])

end Replay

def visits (net : Network) (settings : Settings) (total : Nat) (s : State) :
    List Payload → List (Option Visit)
  | [] => []
  | p :: ps =>
    s.visit net settings p :: (replay net settings total s p).visits net settings total ps

section Visits

variable {net : Network} {settings : Settings} {total : Nat} {s : State} {p : Payload} {v : Visit}

theorem visitShared_payload {link : Link} (h : s.visitShared link p = some v) : v.payload = p := by
  unfold visitShared at h
  split at h <;> cases h
  rfl

theorem visit_payload (h : s.visit net settings p = some v) : v.payload = p := by
  unfold visit at h
  split at h
  · cases h
  · split at h
    · split at h <;> cases h
      rfl
    · split at h
      · exact visitShared_payload h
      · cases h
    · exact visitShared_payload h
    · cases h

theorem length_visits (net : Network) (settings : Settings) (total : Nat) (s : State)
    (ps : List Payload) : (s.visits net settings total ps).length = ps.length := by
  induction ps generalizing s with
  | nil => rfl
  | cons p ps ih => rw [visits, List.length_cons, List.length_cons, ih]

theorem visits_payload (ps : List Payload) (s : State) {i : Nat}
    (h : (s.visits net settings total ps)[i]? = some (some v)) : ps[i]? = some v.payload := by
  induction ps generalizing s i with
  | nil => cases h
  | cons p ps ih =>
    cases i with
    | zero =>
      have hv : s.visit net settings p = some v := Option.some.inj h
      rw [List.getElem?_cons_zero, visit_payload hv]
    | succ i => exact ih _ h

theorem foldl_replay_ledger (ps : List Payload) (s : State) {es : List Entry}
    (h : Ledger settings es s)
    (hend : (ps.foldl (replay net settings total) s).line ≠ .stuck) :
    ∃ cs, cs.length = ps.length ∧ Ledger settings (es ++ (s.visits net settings total ps).zip cs)
      (ps.foldl (replay net settings total) s) := by
  induction ps generalizing s es with
  | nil => exact ⟨[], rfl, by rwa [visits, List.zip_nil_left, List.append_nil]⟩
  | cons p ps ih =>
    rw [List.foldl_cons] at hend ⊢
    rcases replay_enters net total p h with hstuck | ⟨c, hc⟩
    · rw [foldl_replay_of_stuck ps _ hstuck] at hend
      exact absurd hstuck hend
    · obtain ⟨cs, hlen, hcs⟩ := ih _ hc hend
      refine ⟨c :: cs, congrArg (· + 1) hlen, ?_⟩
      rwa [visits, List.zip_cons_cons, List.append_cons]

end Visits

end State

def visits (net : Network) (settings : Settings) (payloads : List Payload)
    (cancelAt : Option Nat := none) : List (Option Visit) :=
  (State.start net settings payloads.length cancelAt).visits net settings payloads.length payloads

/-- The account of a run in which the payloads made the visits `vs`. -/
structure Balanced (settings : Settings) (payloads : List Payload) (vs : List (Option Visit))
    (account : Account) : Prop where
  length_visits : vs.length = payloads.length
  length_captures : account.captures.length = payloads.length
  payload : ∀ (i : Nat) (v : Visit), vs[i]? = some (some v) → payloads[i]? = some v.payload
  visited : ∀ v c, (some v, c) ∈ vs.zip account.captures → v.Leaves settings c ∧
    v.halfClose = (settings.freshConnections && settings.halfClose)
  unvisited : ∀ c, (none, c) ∈ vs.zip account.captures → ¬ c.ShowsSent
  within : ∀ v c, (some v, c) ∈ vs.zip account.captures → v.connection < account.links.length
  closed : ∀ j link, account.links[j]? = some link →
    Closed settings (onConnection j (vs.zip account.captures)) link

namespace Balanced

variable {settings : Settings} {payloads : List Payload} {vs : List (Option Visit)}
  {account : Account}

theorem length_entries (h : Balanced settings payloads vs account) :
    (vs.zip account.captures).length = payloads.length := by
  rw [List.length_zip, h.length_visits, h.length_captures, Nat.min_self]

theorem of_entry (h : Balanced settings payloads vs account) {i : Nat} {v : Visit} {c : Capture}
    (hi : (vs.zip account.captures)[i]? = some (some v, c)) :
    payloads[i]? = some v.payload ∧ v.connection < account.links.length :=
  ⟨h.payload i v (List.getElem?_zip_eq_some.1 hi).1, h.within v c (List.mem_of_getElem? hi)⟩

theorem leaves (h : Balanced settings payloads vs account) {j : Nat} :
    ∀ e ∈ onConnection j (vs.zip account.captures), e.1.Leaves settings e.2 :=
  fun e he => (h.visited e.1 e.2 (mem_onConnection.1 he).1).1

end Balanced

theorem Ledger.closed_account {settings : Settings} {es : List Entry} {s : State}
    (h : Ledger settings es s) {j : Nat} {link : Link} (hj : s.account.links[j]? = some link) :
    Closed settings (onConnection j es) link := by
  by_cases hl : ∃ shared, s.line = .shared shared
  · obtain ⟨shared, hl⟩ := hl
    rw [State.account_of_shared hl] at hj
    rcases getElem?_concat_cases hj with hj | ⟨rfl, rfl⟩
    · exact h.closed j link hj
    · refine (h.ongoing shared hl).closed fun hf => ?_
      rw [h.reuse_of_shared hl] at hf
      cases hf
  · rw [State.account_of_not_shared fun shared hs => hl ⟨shared, hs⟩] at hj
    exact h.closed j link hj

theorem Ledger.within_account {settings : Settings} {es : List Entry} {s : State}
    (h : Ledger settings es s) {v : Visit} {c : Capture} (hm : (some v, c) ∈ es) :
    v.connection < s.account.links.length := by
  rcases h.within v c hm with hlt | ⟨he, link, hl⟩
  · by_cases hl : ∃ shared, s.line = .shared shared
    · obtain ⟨shared, hl⟩ := hl
      rw [State.account_of_shared hl, List.length_append]
      exact Nat.lt_add_right _ hlt
    · rwa [State.account_of_not_shared fun shared hs => hl ⟨shared, hs⟩]
  · rw [State.account_of_shared hl, List.length_append, he]
    exact Nat.lt_succ_self _

theorem start_ledger (net : Network) (settings : Settings) (total : Nat) (cancelAt : Option Nat) :
    Ledger settings [] (State.start net settings total cancelAt) where
  suits := start_suits net settings total cancelAt
  captures_eq := rfl
  visited v c hm := absurd hm List.not_mem_nil
  unvisited c hm := absurd hm List.not_mem_nil
  within v c hm := absurd hm List.not_mem_nil
  closed j link hj := by cases hj
  ongoing link hl := by
    cases hf : settings.freshConnections <;> simp [State.start, hf] at hl
  reason outcome text hl := by
    cases hf : settings.freshConnections <;> simp [State.start, hf] at hl

/-- The account of a run that ends balances with the visits of its payloads. -/
theorem balanced_of_run {net : Network} {settings : Settings} {payloads : List Payload}
    {cancelAt : Option Nat} {account : Account}
    (h : run net settings payloads cancelAt = some account) :
    Balanced settings payloads (visits net settings payloads cancelAt) account := by
  obtain ⟨hend, rfl⟩ := run_eq_some_iff.1 h
  obtain ⟨cs, hlen, hledger⟩ := State.foldl_replay_ledger payloads _
    (start_ledger net settings payloads.length cancelAt) hend
  rw [List.nil_append] at hledger
  have hvisits := State.length_visits net settings payloads.length
    (State.start net settings payloads.length cancelAt) payloads
  have hcaptures : (State.after net settings payloads.length cancelAt payloads).account.captures =
      cs := by
    refine hledger.captures_eq.trans (List.map_snd_zip (Nat.le_of_eq ?_))
    rw [hlen, hvisits]
  constructor
  case length_visits => exact hvisits
  case length_captures => rw [hcaptures, hlen]
  case payload => exact fun i v hv => State.visits_payload payloads _ hv
  all_goals rw [hcaptures]
  case visited => exact hledger.visited
  case unvisited => exact hledger.unvisited
  case within => exact fun v c hm => hledger.within_account hm
  case closed => exact fun j link hj => hledger.closed_account hj

end WireReplay.Replay
